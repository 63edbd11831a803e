import Mathlib.Algebra.Order.Ring.Nat

/-!
# Runs

A run takes a system from state to state, one action at a time. `Throughout` says that a condition on the state and
the action holds before each step; an invariant that such steps keep then holds at the end of the run. Threads are the
entries of a list; a step of one of them replaces its entry (`getElem?_set_eq_some`). `Sole` says that at most one of
them is in some part of its work.
-/

namespace Plico

open List

variable {σ α : Type} {step : σ → α → σ} {τ : Type} {P : σ → α → Prop} {I : σ → Prop} {l : List α} {s : σ} {i : Nat}
  {t u : τ}

/-- `P` holds before each action of a run. -/
def Throughout (step : σ → α → σ) (P : σ → α → Prop) : σ → List α → Prop
  | _, [] => True
  | s, a :: l => P s a ∧ Throughout step P (step s a) l

instance Throughout.decidable (step : σ → α → σ) (P : σ → α → Prop) [∀ s a, Decidable (P s a)] :
    (s : σ) → (l : List α) → Decidable (Throughout step P s l)
  | _, [] => .isTrue trivial
  | s, a :: l =>
    have := Throughout.decidable step P (step s a) l
    inferInstanceAs (Decidable (P s a ∧ Throughout step P (step s a) l))

/-- What every step that meets the condition keeps. -/
theorem Throughout.invariant (hstep : ∀ s a, I s → P s a → I (step s a)) (hs : I s) (h : Throughout step P s l) :
    I (l.foldl step s) := by
  induction l generalizing s with
  | nil => exact hs
  | cons a l ih => exact ih (hstep s a hs h.1) h.2

theorem Throughout.of_append {l' : List α} (h : Throughout step P s (l ++ l')) :
    Throughout step P s l ∧ Throughout step P (l.foldl step s) l' := by
  induction l generalizing s with
  | nil => exact ⟨trivial, h⟩
  | cons a l ih => exact ⟨⟨h.1, (ih h.2).1⟩, (ih h.2).2⟩

theorem Throughout.at {l' : List α} {a : α} (h : Throughout step P s l) (hl : l' ++ [a] <+: l) :
    P (l'.foldl step s) a := by
  obtain ⟨rest, rfl⟩ := hl
  rw [append_assoc] at h
  exact h.of_append.2.1

/-- What every step keeps. -/
theorem run_invariant (hstep : ∀ s a, I s → I (step s a)) (hs : I s) : I (l.foldl step s) := by
  induction l generalizing s with
  | nil => exact hs
  | cons a l ih => exact ih (hstep s a hs)

theorem mem_concat {l : List τ} : u ∈ l ++ [t] ↔ u ∈ l ∨ u = t := by
  rw [mem_append, mem_singleton]

theorem forall_mem_set {p : τ → Prop} {l : List τ} (h : ∀ u ∈ l, p u) (ht : p t) : ∀ u ∈ l.set i t, p u := by
  intro u hu
  rcases mem_or_eq_of_mem_set hu with hu | rfl
  · exact h u hu
  · exact ht

/-- A thread of a list in which one has been replaced. -/
theorem getElem?_set_eq_some {l : List τ} {j : Nat} {t' : τ} (hi : l[i]? = some t) (h : (l.set i t')[j]? = some u) :
    i = j ∧ u = t' ∨ i ≠ j ∧ l[j]? = some u := by
  rw [getElem?_set] at h
  split at h
  · next hij =>
    rw [if_pos (List.getElem?_eq_some_iff.mp hi).1] at h
    exact .inl ⟨hij, (Option.some.inj h).symm⟩
  · next hij => exact .inr ⟨hij, h⟩

/-- What a replaced thread has in common with the one before stays as it is. -/
theorem map_set_of_eq {β : Type} {f : τ → β} {l : List τ} {t' : τ} (hi : l[i]? = some t) (hf : f t' = f t) :
    (l.set i t').map f = l.map f := by
  obtain ⟨hlt, rfl⟩ := List.getElem?_eq_some_iff.mp hi
  rw [map_set, hf, ← getElem_map f (h := by simpa), set_getElem_self]

/-- At most one thread is of the kind `p`. -/
def Sole {τ : Type} (p : τ → Bool) (l : List τ) : Prop :=
  ∀ (i j : Nat) (t u : τ), l[i]? = some t → l[j]? = some u → p t → p u → i = j

namespace Sole

variable {τ : Type} {p : τ → Bool} {l : List τ} {i : Nat} {t t' u : τ}

theorem nil : Sole p [] := by
  intro i j t u hi
  simp at hi

/-- A new thread of another kind. -/
theorem append (h : Sole p l) (ht : p t = false) : Sole p (l ++ [t]) := by
  have hold : ∀ (i : Nat) (u : τ), (l ++ [t])[i]? = some u → p u → l[i]? = some u := by
    intro i u hi hu
    rw [getElem?_append] at hi
    split at hi
    · exact hi
    · obtain rfl : u = t := mem_singleton.mp (mem_of_getElem? hi)
      rw [ht] at hu
      cases hu
  exact fun i j t u hi hj ht hu => h i j t u (hold i t hi ht) (hold j u hj hu) ht hu

theorem other (h : Sole p l) (hi : l[i]? = some t) (ht : p t) (j : Nat) (u : τ) (hij : i ≠ j) (hj : l[j]? = some u) :
    p u = false := by
  cases hu : p u with
  | false => rfl
  | true => exact absurd (h i j t u hi hj ht hu) hij

/-- No thread but the replaced one is of the kind. -/
theorem set (hi : l[i]? = some t) (hothers : ∀ (j : Nat) (u : τ), i ≠ j → l[j]? = some u → p u = false) :
    Sole p (l.set i t') := by
  have honly : ∀ (j : Nat) (u : τ), (l.set i t')[j]? = some u → p u → i = j := by
    intro j u hj hu
    obtain ⟨hij, -⟩ | ⟨hij, hj⟩ := getElem?_set_eq_some hi hj
    · exact hij
    · rw [hothers j u hij hj] at hu
      cases hu
  exact fun j k u v hj hk hu hv => (honly j u hj hu).symm.trans (honly k v hk hv)

/-- The one thread of the kind moves on. -/
theorem move (h : Sole p l) (hi : l[i]? = some t) (ht : p t) : Sole p (l.set i t') := set hi (h.other hi ht)

/-- A thread moves on to another kind. -/
theorem leave (h : Sole p l) (hi : l[i]? = some t) (ht' : p t' = false) : Sole p (l.set i t') := by
  intro j k u v hj hk hu hv
  obtain ⟨-, rfl⟩ | ⟨-, hj⟩ := getElem?_set_eq_some hi hj
  · rw [ht'] at hu
    cases hu
  · obtain ⟨-, rfl⟩ | ⟨-, hk⟩ := getElem?_set_eq_some hi hk
    · rw [ht'] at hv
      cases hv
    · exact h j k u v hj hk hu hv

theorem countP_le_one (h : Sole p l) : l.countP p ≤ 1 := by
  induction l with
  | nil => exact Nat.zero_le _
  | cons x l ih =>
    have hrest : l.countP p ≤ 1 := ih fun i j t u hi hj ht hu => by
      have hij := h (i + 1) (j + 1) t u hi hj ht hu
      omega
    rw [countP_cons]
    split
    · next hx =>
      -- the first thread is the only one
      have hnone : l.countP p = 0 := by
        refine countP_eq_zero.mpr fun u hu hpu => ?_
        obtain ⟨j, hj⟩ := mem_iff_getElem?.mp hu
        have hij := h 0 (j + 1) x u rfl hj hx hpu
        omega
      omega
    · exact hrest

/-- Beside the one that moves on, all threads are of another kind. -/
theorem mem_set (h : Sole p l) (hi : l[i]? = some t) (ht : p t) (hu : u ∈ l.set i t') :
    u = t' ∨ u ∈ l ∧ p u = false := by
  obtain ⟨j, hj⟩ := mem_iff_getElem?.mp hu
  obtain ⟨-, hnew⟩ | ⟨hij, hj⟩ := getElem?_set_eq_some hi hj
  · exact .inl hnew
  · exact .inr ⟨mem_of_getElem? hj, h.other hi ht j u hij hj⟩

end Sole

end Plico
