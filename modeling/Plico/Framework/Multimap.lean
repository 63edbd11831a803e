import Mathlib.Algebra.Order.Ring.Nat
import Mathlib.Data.List.AList

/-!
# Tables of lists

A table that holds a list of values under each key, and what a key has after values are pushed, lists are changed in
place and keys are removed (`values_push`, `values_modify`, `values_erase`).
-/

namespace Plico

open AList List

abbrev Multimap (κ β : Type) := AList (fun _ : κ => List β)

namespace Multimap

variable {κ β α : Type} [DecidableEq κ] {m : Multimap κ β} {k' k : κ} {b : β}

def values (m : Multimap κ β) (k : κ) : List β :=
  (m.lookup k).getD []

/-- A value added to a list that is made if it is missing. -/
def push (m : Multimap κ β) (k : κ) (b : β) : Multimap κ β :=
  m.insert k (m.values k ++ [b])

/-- A list changed in place, if it is there. -/
def modify (m : Multimap κ β) (k : κ) (f : List β → List β) : Multimap κ β :=
  match m.lookup k with
  | some l => m.insert k (f l)
  | none => m

/-- All values, key by key. -/
def toList (m : Multimap κ β) : List β :=
  m.entries.flatMap (·.2)

@[simp] theorem values_empty (k : κ) : (∅ : Multimap κ β).values k = [] := rfl

theorem values_insert {l : List β} : values (m.insert k l) k' = if k' = k then l else m.values k' := by
  unfold values
  split
  · subst k'
    rw [lookup_insert]
    rfl
  · next h => rw [lookup_insert_ne h]

@[simp] theorem values_push : (m.push k b).values k' = if k' = k then m.values k ++ [b] else m.values k' :=
  values_insert

theorem values_modify {f : List β → List β} (hf : f [] = []) :
    (m.modify k f).values k' = if k' = k then f (m.values k) else m.values k' := by
  unfold modify
  cases h : m.lookup k with
  | none =>
    dsimp only
    split
    · subst k'
      simp [values, h, hf]
    · rfl
  | some l =>
    rw [values_insert]
    simp [values, h]

@[simp] theorem values_erase : values (m.erase k) k' = if k' = k then [] else m.values k' := by
  unfold values
  split
  · subst k'
    simp
  · next h => rw [lookup_erase_ne h]

theorem mem_toList : b ∈ m.toList ↔ ∃ k, b ∈ m.values k := by
  simp only [toList, mem_flatMap, values]
  constructor
  · rintro ⟨⟨k, l⟩, hmem, hb⟩
    exact ⟨k, by rw [mem_lookup_iff.mpr hmem]; exact hb⟩
  · rintro ⟨k, hb⟩
    cases h : m.lookup k with
    | none => simp [h] at hb
    | some l => exact ⟨⟨k, l⟩, mem_lookup_iff.mp h, by simpa [h] using hb⟩

/-- When every value is under its own key, the values with one key are those under it. -/
theorem filter_toList {key : β → κ} (h : ∀ k, ∀ b ∈ m.values k, key b = k) :
    m.toList.filter (fun b => key b = k) = m.values k := by
  have hfiled : ∀ e ∈ m.entries, ∀ b ∈ e.2, key b = e.1 := by
    rintro ⟨k', l⟩ hmem b hb
    exact h k' b (by rw [values, mem_lookup_iff.mpr hmem]; exact hb)
  have hself : m.values k = (m.entries.filter fun e => e.1 = k).flatMap (·.2) := by
    unfold values
    cases hk : m.lookup k with
    | none =>
      have hempty : (m.entries.filter fun e => e.1 = k) = [] := by
        refine filter_eq_nil_iff.mpr fun e he => ?_
        rw [decide_eq_true_eq]
        rintro rfl
        rw [mem_lookup_iff.mpr he] at hk
        cases hk
      rw [hempty]
      rfl
    | some l =>
      have hone : (m.entries.filter fun e => e.1 = k) = [⟨k, l⟩] := by
        have hmem := mem_lookup_iff.mp hk
        have hnodup : (m.entries.filter fun e => e.1 = k).Nodup := (List.NodupKeys.nodup m.nodupKeys).filter _
        refine perm_singleton.mp ((perm_ext_iff_of_nodup hnodup (nodup_singleton _)).mpr fun e => ?_)
        rw [mem_filter, decide_eq_true_eq, mem_singleton]
        constructor
        · rintro ⟨he, rfl⟩
          exact Sigma.ext rfl (heq_of_eq (Option.some.inj ((mem_lookup_iff.mpr he).symm.trans hk)))
        · rintro rfl
          exact ⟨hmem, rfl⟩
      rw [hone]
      simp
  rw [hself, toList, filter_flatMap]
  -- the list of a key is kept whole or dropped whole
  generalize m.entries = entries at hfiled ⊢
  induction entries with
  | nil => rfl
  | cons e es ih =>
    obtain ⟨he, hes⟩ := forall_mem_cons.mp hfiled
    rw [flatMap_cons, ih hes, filter_cons]
    split
    · next hk => rw [flatMap_cons, filter_eq_self.mpr fun b hb => by rw [he b hb]; exact hk]
    · next hk => rw [filter_eq_nil_iff.mpr fun b hb => by rw [he b hb]; exact hk, nil_append]

/-- What a loop of pushes leaves under a key. -/
theorem values_foldl_push (key : α → κ) (val : α → β) (l : List α) (m : Multimap κ β) (k : κ) :
    (l.foldl (fun m a => m.push (key a) (val a)) m).values k =
      m.values k ++ (l.filter fun a => key a = k).map val := by
  induction l generalizing m with
  | nil => simp
  | cons a l ih =>
    rw [foldl_cons, ih]
    by_cases h : k = key a
    · subst h
      simp
    · simp [h, Ne.symm h]

theorem values_filter {p : β → Bool} :
    (m.modify k (List.filter p)).values k' = (m.values k').filter fun b => k ≠ k' || p b := by
  rw [values_modify rfl]
  by_cases h : k' = k
  · subst h
    simp
  · simp [h, Ne.symm h]

/-- What a loop of filters leaves under a key. -/
theorem values_foldl_filter {key : α → κ} {p : α → β → Bool} {l : List α} :
    (l.foldl (fun m a => m.modify (key a) (List.filter (p a))) m).values k =
      (m.values k).filter fun b => l.all fun a => key a ≠ k || p a b := by
  induction l generalizing m with
  | nil => simp
  | cons a l ih =>
    rw [foldl_cons, ih, values_filter, filter_filter]
    refine filter_congr fun b _ => ?_
    rw [all_cons, Bool.and_comm]

end Multimap

end Plico
