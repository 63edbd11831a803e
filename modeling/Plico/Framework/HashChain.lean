import Mathlib.Data.List.Nodup
import Mathlib.Data.List.Pairwise
import Mathlib.Data.List.Lattice
import Plico.Framework.Checked

/-!
# Chains of objects linked by their keys

Each object names the key of the one before it. `Linked` is the chain that starts at a key, newest
object first, and `walk` is the loop that follows it with a set of the keys it has seen. The loop
needs no more steps than there are keys, so it runs with that number as its fuel.

A rank that falls along the links (a generation, a first sequence number) makes the keys of the chain
distinct (`Linked.nodup_keys`), and then `walk` reads the whole chain (`walk_of_linked`).

`Walks` and `Searches` are the same loops without fuel, as relations between a start and a result: a
derivation is a run that ends. `walks_walk` and `searches_reaches` show that, from any objects, the loops
end and the functions with fuel compute their results.
-/

namespace Plico

open List

variable {κ α ε : Type} (read : κ → Except ε α) (prev : α → Option κ)

/-- The chain that starts at `next`, newest object first. -/
inductive Linked : Option κ → List (κ × α) → Prop where
  | nil : Linked none []
  | cons {k : κ} {a : α} {rest : List (κ × α)} :
      read k = .ok a → Linked (prev a) rest → Linked (some k) ((k, a) :: rest)

/-- Follow the links from `next`. A key met twice, or more keys than `fuel`, is `cycle`. -/
def walk [DecidableEq κ] (cycle : ε) : Nat → List κ → Option κ → Except ε (List (κ × α))
  | _, _, none => .ok []
  | 0, _, some _ => .error cycle
  | fuel + 1, seen, some k => do
    refuse (k ∈ seen) cycle
    let a ← read k
    let rest ← walk cycle fuel (k :: seen) (prev a)
    pure ((k, a) :: rest)

/-- Whether the links from `next` lead to `target`. A key met twice ends the search. -/
def reaches [DecidableEq κ] (target : κ) : Nat → List κ → Option κ → Except ε Bool
  | _, _, none => .ok false
  | 0, _, some _ => .ok false
  | fuel + 1, seen, some k =>
    if k = target then .ok true
    else if k ∈ seen then .ok false
    else do
      let a ← read k
      reaches target fuel (k :: seen) (prev a)

/-- The loop of `walk` without a bound on its steps: it ends with this result. -/
inductive Walks (cycle : ε) : List κ → Option κ → Except ε (List (κ × α)) → Prop where
  | done {seen : List κ} : Walks cycle seen none (.ok [])
  | repeated {seen : List κ} {k : κ} : k ∈ seen → Walks cycle seen (some k) (.error cycle)
  | unread {seen : List κ} {k : κ} {e : ε} : k ∉ seen → read k = .error e → Walks cycle seen (some k) (.error e)
  | step {seen : List κ} {k : κ} {a : α} {result : Except ε (List (κ × α))} : k ∉ seen → read k = .ok a →
      Walks cycle (k :: seen) (prev a) result → Walks cycle seen (some k) (result.map ((k, a) :: ·))

/-- The loop of `reaches` without a bound on its steps: it ends with this result. -/
inductive Searches (target : κ) : List κ → Option κ → Except ε Bool → Prop where
  | missing {seen : List κ} : Searches target seen none (.ok false)
  | found {seen : List κ} : Searches target seen (some target) (.ok true)
  | repeated {seen : List κ} {k : κ} : k ≠ target → k ∈ seen → Searches target seen (some k) (.ok false)
  | unread {seen : List κ} {k : κ} {e : ε} : k ≠ target → k ∉ seen → read k = .error e →
      Searches target seen (some k) (.error e)
  | step {seen : List κ} {k : κ} {a : α} {result : Except ε Bool} : k ≠ target → k ∉ seen → read k = .ok a →
      Searches target (k :: seen) (prev a) result → Searches target seen (some k) result

variable {read prev}

variable {next : Option κ} {l : List (κ × α)} {k : κ}

section

variable (h : Linked read prev next l)
include h

theorem Linked.read_of_mem {a : α} (hm : (k, a) ∈ l) : read k = .ok a := by
  induction h with
  | nil => simp at hm
  | cons hr _ ih =>
    rcases mem_cons.mp hm with he | hm
    · obtain ⟨rfl, rfl⟩ := Prod.mk.inj he
      exact hr
    · exact ih hm

theorem Linked.nodup_keys {rank : α → Nat}
    (hr : l.Pairwise fun x y => rank y.2 < rank x.2) : (l.map Prod.fst).Nodup := by
  rw [List.Nodup, pairwise_map]
  refine hr.imp_of_mem fun {x y} hx hy hlt he => ?_
  have hxr := h.read_of_mem hx
  have hyr := h.read_of_mem hy
  rw [he, hyr] at hxr
  rw [Except.ok.inj hxr] at hlt
  exact Nat.lt_irrefl _ hlt

theorem Linked.length_le (hn : (l.map Prod.fst).Nodup) {keys : List κ} (hk : ∀ k a, read k = .ok a → k ∈ keys) :
    l.length ≤ keys.length := by
  rw [← length_map]
  refine hn.length_le_of_subset fun k hm => ?_
  obtain ⟨⟨k, a⟩, hka, rfl⟩ := mem_map.mp hm
  exact hk k a (h.read_of_mem hka)

/-- A reader and a key determine the chain. -/
theorem Linked.unique {l' : List (κ × α)} (h' : Linked read prev next l') : l = l' := by
  induction h generalizing l' with
  | nil =>
    cases h'
    rfl
  | cons hr _ ih =>
    cases h' with
    | cons hr' hrest' =>
      cases hr.symm.trans hr'
      rw [ih hrest']

/-- The same objects are read by any reader that agrees on them. -/
theorem Linked.mono {read' : κ → Except ε α} (hr : ∀ k a, read k = .ok a → read' k = .ok a) :
    Linked read' prev next l := by
  induction h with
  | nil => exact .nil
  | cons hk _ ih => exact .cons (hr _ _ hk) ih

end

section

variable [DecidableEq κ]

variable {cycle : ε} {fuel : Nat} {seen : List κ} {next : Option κ} {l : List (κ × α)}

/-- The loop returns a linked chain, with each key once and none it had seen before. -/
theorem walk_spec (h : walk read prev cycle fuel seen next = .ok l) :
    Linked read prev next l ∧ (l.map Prod.fst).Nodup ∧ ∀ k ∈ l.map Prod.fst, k ∉ seen := by
  fun_induction walk read prev cycle fuel seen next generalizing l with
  | case1 =>
    cases h
    exact ⟨.nil, by simp⟩
  | case2 => cases h
  | case3 fuel seen k ih =>
    obtain ⟨_, hk, a, ha, rest, hrest, h⟩ := of_seq₃ h
    cases h
    obtain ⟨hlinked, hnodup, hfresh⟩ := ih a hrest
    rw [map_cons, nodup_cons]
    refine ⟨.cons ha hlinked, ⟨fun hmem => hfresh k hmem mem_cons_self, hnodup⟩, ?_⟩
    intro key hkey
    rcases mem_cons.mp hkey with rfl | hkey
    · exact refuse_eq_ok.mp hk
    · exact fun hseen => hfresh key hkey (mem_cons_of_mem k hseen)

omit [DecidableEq κ] in
/-- The keys after the first are still new when it has been seen. -/
theorem forall_not_mem_cons (hn : k ∉ l.map Prod.fst) (hs : ∀ x ∈ l, x.1 ∉ seen) : ∀ x ∈ l, x.1 ∉ k :: seen := by
  intro x hx
  rw [mem_cons, not_or]
  exact ⟨fun e => hn (e ▸ mem_map_of_mem hx), hs x hx⟩

theorem walk_of_linked_from (h : Linked read prev next l) (hn : (l.map Prod.fst).Nodup) (hs : ∀ x ∈ l, x.1 ∉ seen)
    (hf : l.length ≤ fuel) : walk read prev cycle fuel seen next = .ok l := by
  induction h generalizing seen fuel with
  | nil => simp [walk]
  | @cons k a rest hr _ ih =>
    obtain ⟨fuel, rfl⟩ : ∃ n, fuel = n + 1 := ⟨fuel - 1, by simp at hf; omega⟩
    simp only [map_cons, nodup_cons] at hn
    rw [forall_mem_cons] at hs
    have hrest := ih hn.2 (forall_not_mem_cons hn.1 hs.2) (by simpa using hf)
    simp [walk, refuse_neg hs.1, hr, hrest]

/-- The loop reads the whole chain. -/
theorem walk_of_linked (h : Linked read prev next l) (hn : (l.map Prod.fst).Nodup) (hf : l.length ≤ fuel) :
    walk read prev cycle fuel [] next = .ok l :=
  walk_of_linked_from h hn (by simp) hf

variable {target : κ}

section

variable (h : Linked read prev next l)
include h

theorem reaches_of_linked_from (hn : (l.map Prod.fst).Nodup) (hs : ∀ x ∈ l, x.1 ∉ seen)
    (hf : l.length ≤ fuel) (ht : target ∈ l.map Prod.fst) : reaches read prev target fuel seen next = .ok true := by
  induction h generalizing seen fuel with
  | nil => simp at ht
  | @cons k a rest hr _ ih =>
    obtain ⟨fuel, rfl⟩ : ∃ n, fuel = n + 1 := ⟨fuel - 1, by simp at hf; omega⟩
    simp only [map_cons, nodup_cons] at hn
    rw [forall_mem_cons] at hs
    by_cases hkt : k = target
    · simp [reaches, hkt]
    · have htr : target ∈ rest.map Prod.fst := by
        simpa [Ne.symm hkt] using ht
      simp only [reaches, hkt, hs.1, hr]
      exact ih hn.2 (forall_not_mem_cons hn.1 hs.2) (by simpa using hf) htr

theorem reaches_of_linked (hn : (l.map Prod.fst).Nodup) (hf : l.length ≤ fuel) (ht : target ∈ l.map Prod.fst) :
    reaches read prev target fuel [] next = .ok true :=
  reaches_of_linked_from h hn (by simp) hf ht

/-- A chain from which `target` is reached ends in the chain that starts at `target`. -/
theorem Linked.split_of_reaches (ht : reaches read prev target fuel seen next = .ok true) :
    ∃ newer older, l = newer ++ older ∧ Linked read prev (some target) older := by
  induction h generalizing seen fuel with
  | nil => cases fuel <;> simp [reaches] at ht
  | @cons k a rest hr hrest ih =>
    cases fuel with
    | zero => simp [reaches] at ht
    | succ fuel =>
      rw [reaches] at ht
      split at ht
      · rename_i hk
        subst hk
        exact ⟨[], (k, a) :: rest, rfl, .cons hr hrest⟩
      · split at ht
        · cases ht
        · rw [hr] at ht
          obtain ⟨newer, older, rfl, holder⟩ := ih ht
          exact ⟨(k, a) :: newer, older, rfl, holder⟩

end

/-! ## Termination -/

variable {keys : List κ}

section

variable (hk : ∀ k a, read k = .ok a → k ∈ keys)
include hk

theorem walks_walk_from (hn : seen.Nodup) (hs : seen ⊆ keys) (hf : keys.length < fuel + seen.length) :
    Walks read prev cycle seen next (walk read prev cycle fuel seen next) := by
  induction fuel generalizing seen next with
  | zero =>
    rw [Nat.zero_add] at hf
    exact absurd hf (Nat.not_lt.mpr (hn.length_le_of_subset hs))
  | succ fuel ih =>
    cases next with
    | none => exact .done
    | some k =>
      rw [walk]
      by_cases hseen : k ∈ seen
      · rw [refuse_pos hseen]
        exact .repeated hseen
      · rw [refuse_neg hseen]
        cases hread : read k with
        | error e =>
          exact .unread hseen hread
        | ok a =>
          exact .step hseen hread (ih (nodup_cons.mpr ⟨hseen, hn⟩) (cons_subset.mpr ⟨hk k a hread, hs⟩)
            (by rw [length_cons]; omega))

/-- The loop of `walk` ends, with the result that `walk` computes from one step for each key and one more. -/
theorem walks_walk : Walks read prev cycle [] next (walk read prev cycle (keys.length + 1) [] next) :=
  walks_walk_from hk .nil (nil_subset _) (by simp)

theorem searches_reaches_from (hn : seen.Nodup) (hs : seen ⊆ keys) (hf : keys.length < fuel + seen.length) :
    Searches read prev target seen next (reaches read prev target fuel seen next) := by
  induction fuel generalizing seen next with
  | zero =>
    rw [Nat.zero_add] at hf
    exact absurd hf (Nat.not_lt.mpr (hn.length_le_of_subset hs))
  | succ fuel ih =>
    cases next with
    | none => exact .missing
    | some k =>
      rw [reaches]
      by_cases htarget : k = target
      · rw [if_pos htarget, htarget]
        exact .found
      · rw [if_neg htarget]
        by_cases hseen : k ∈ seen
        · rw [if_pos hseen]
          exact .repeated htarget hseen
        · rw [if_neg hseen]
          cases hread : read k with
          | error e =>
            exact .unread htarget hseen hread
          | ok a =>
            exact .step htarget hseen hread (ih (nodup_cons.mpr ⟨hseen, hn⟩)
              (cons_subset.mpr ⟨hk k a hread, hs⟩) (by rw [length_cons]; omega))

theorem searches_reaches : Searches read prev target [] next (reaches read prev target (keys.length + 1) [] next) :=
  searches_reaches_from hk .nil (nil_subset _) (by simp)

end

end

end Plico
