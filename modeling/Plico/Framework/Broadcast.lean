/-!
# Bounded broadcast

A channel that keeps the last `capacity` messages for each of its receivers. A receiver is the position of the message
it reads next; one that has fallen behind is told so once and goes on with the oldest message that is kept.
-/

namespace Plico

open List

structure Channel (α : Type) where
  capacity : Nat
  sent : List α

inductive TryRecv (α : Type) where
  | message (a : α)
  | lagged (missed : Nat)
  | empty
  deriving DecidableEq

namespace Channel

variable {α : Type} {c : Channel α} {next next' : Nat} {i j : Nat} {a : α}

def send (c : Channel α) (a : α) : Channel α := { c with sent := c.sent ++ [a] }

/-- A receiver that starts now sees what is sent from now on. -/
def subscribe (c : Channel α) : Nat := c.sent.length

def tryRecv (c : Channel α) (next : Nat) : TryRecv α × Nat :=
  if next + c.capacity < c.sent.length then
    (.lagged (c.sent.length - c.capacity - next), c.sent.length - c.capacity)
  else
    match c.sent[next]? with
    | some a => (.message a, next + 1)
    | none => (.empty, next)

@[simp] theorem send_sent : (c.send a).sent = c.sent ++ [a] := rfl

/-- The messages from one position up to another. -/
def span (c : Channel α) (start stop : Nat) : List α := (c.sent.take stop).drop start

theorem span_self : c.span i i = [] :=
  drop_eq_nil_of_le (length_take_le i c.sent)

theorem span_append {k : Nat} (hij : i ≤ j) (hjk : j ≤ k) (hk : k ≤ c.sent.length) :
    c.span i j ++ c.span j k = c.span i k := by
  unfold span
  have hsplit : c.sent.take k = c.sent.take j ++ (c.sent.take k).drop j := by
    rw [← Nat.min_eq_left hjk, ← take_take, Nat.min_eq_left hjk, take_append_drop]
  have hle : i ≤ (c.sent.take j).length := by
    rw [length_take]
    omega
  rw [hsplit, drop_append_of_le_length hle, ← hsplit]

/-- What has been sent stays as it is. -/
theorem span_of_extended {c' : Channel α} (h : c.sent <+: c'.sent) (hj : j ≤ c.sent.length) :
    c'.span i j = c.span i j := by
  obtain ⟨more, hmore⟩ := h
  unfold span
  rw [← hmore, take_append_of_le_length hj]

/-- What a receiver that has not fallen behind gets. -/
theorem tryRecv_of_le (h : c.sent.length ≤ next + c.capacity) :
    c.tryRecv next = match c.sent[next]? with
      | some a => (.message a, next + 1)
      | none => (.empty, next) :=
  if_neg (Nat.not_lt.mpr h)

theorem span_succ (hi : i ≤ next) (h : c.sent[next]? = some a) : c.span i (next + 1) = c.span i next ++ [a] := by
  unfold span
  rw [take_add_one, h]
  have hle : i ≤ (c.sent.take next).length := by
    have := (List.getElem?_eq_some_iff.mp h).1
    rw [length_take]
    omega
  rw [drop_append_of_le_length hle]
  rfl

end Channel

end Plico
