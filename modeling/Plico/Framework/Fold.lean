import Mathlib.Data.List.AList

/-!
# Where a fact about a loop's result comes from

A loop that only ever adds to its accumulator: a fact holds at the end exactly when it held at the start or some
element brought it. The accumulators are mostly tables, so what a table finds after a change is here as well.
-/

namespace Plico

variable {σ α : Type} {f : σ → α → σ} {P : σ → Prop} {Q : α → Prop} {l : List α} {s : σ}

theorem foldl_iff (h : ∀ s a, P (f s a) ↔ P s ∨ Q a) : P (l.foldl f s) ↔ P s ∨ ∃ a ∈ l, Q a := by
  induction l generalizing s with
  | nil => simp
  | cons a l ih =>
    rw [List.foldl_cons, ih, h, List.exists_mem_cons_iff, or_assoc]

/-- The same, in one direction, for a loop whose steps may also remove. -/
theorem foldl_source (h : ∀ s a, P (f s a) → P s ∨ Q a) (hl : P (l.foldl f s)) : P s ∨ ∃ a ∈ l, Q a := by
  induction l generalizing s with
  | nil => exact .inl hl
  | cons a l ih =>
    obtain h' | ⟨b, hb, hq⟩ := ih hl
    · exact (h s a h').imp_right fun hq => ⟨a, List.mem_cons_self, hq⟩
    · exact .inr ⟨b, List.mem_cons_of_mem a hb, hq⟩

/-! ## Tables -/

section Tables

variable {κ β : Type} [DecidableEq κ] {m : AList (fun _ : κ => β)} {k k' : κ} {b b' : β}

theorem lookup_insert_eq_some :
    (m.insert k b).lookup k' = some b' ↔ (k' = k ∧ b' = b) ∨ (k' ≠ k ∧ m.lookup k' = some b') := by
  by_cases h : k' = k
  · subst h
    simp [eq_comm]
  · simp [h]

theorem lookup_erase_eq_some : (m.erase k).lookup k' = some b ↔ k' ≠ k ∧ m.lookup k' = some b := by
  by_cases h : k' = k
  · subst h
    simp
  · simp [h]

/-- Every value of a table changed in place. -/
def mapValues (f : κ → β → β) (m : AList (fun _ : κ => β)) : AList (fun _ : κ => β) :=
  ⟨m.entries.map (.map id f), m.nodupKeys.map₂ f m.entries⟩

@[simp] theorem lookup_mapValues {f : κ → β → β} : (mapValues f m).lookup k = (m.lookup k).map (f k) :=
  List.dlookup_map₂ k

end Tables

end Plico
