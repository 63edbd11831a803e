import Plico.Model.Layered.Memory

/-!
# The maps of the runtime

Every operation changes the entries of one role in one tier, or in each tier in turn; these lemmas say
what `getTier` reads afterwards and that the ledger is not touched.
-/

namespace Plico.Layered

open Ledger

namespace LayeredMemory

variable (m : LayeredMemory) (agentId role : String) (tier t : MemoryTier) (entries : List MemoryEntry) {map : TierMap}

@[simp] theorem setTierMap_ledger : (m.setTierMap map tier).ledger = m.ledger := by
  cases tier <;> rfl

@[simp] theorem setTier_ledger : (m.setTier agentId tier entries).ledger = m.ledger :=
  setTierMap_ledger m tier

@[simp] theorem extend_ledger : (m.extend agentId tier entries).ledger = m.ledger :=
  setTier_ledger m agentId tier _

theorem tierMap_setTierMap : (m.setTierMap map tier).tierMap t = if tier = t then map else m.tierMap t := by
  cases tier <;> cases t <;> rfl

theorem getTier_setTier : (m.setTier agentId tier entries).getTier role t =
    if agentId = role ∧ tier = t then entries else m.getTier role t := by
  unfold getTier setTier
  rw [tierMap_setTierMap]
  by_cases ht : tier = t
  · subst ht
    by_cases hr : agentId = role
    · subst hr
      simp
    · simp [hr, AList.lookup_insert_ne (Ne.symm hr)]
  · simp [ht]

theorem getTier_extend : (m.extend agentId tier entries).getTier role t =
    m.getTier role t ++ if agentId = role ∧ tier = t then entries else [] := by
  rw [extend, getTier_setTier]
  split
  · rename_i h
    obtain ⟨rfl, rfl⟩ := h
    rfl
  · rw [List.append_nil]

@[simp] theorem getTier_withLedger {ledger : Option CASCanonicalLedger} :
    { m with ledger := ledger }.getTier role t = m.getTier role t := by
  cases t <;> rfl

variable {f : LayeredMemory → MemoryTier → LayeredMemory} {restored : List (MemoryTier × List CanonicalRevision)}
  {clock : MemoryTier → Nat → Nat} {ts : List MemoryTier}

/-- A loop over tiers whose body changes its own tier only. -/
theorem getTier_foldl {g : String → MemoryTier → List MemoryEntry → List MemoryEntry}
    (hf : ∀ m tier role t,
      (f m tier).getTier role t = if tier = t then g role t (m.getTier role t) else m.getTier role t)
    (hn : ts.Nodup) :
    (ts.foldl f m).getTier role t = if t ∈ ts then g role t (m.getTier role t) else m.getTier role t := by
  induction ts generalizing m with
  | nil => rfl
  | cons tier ts ih =>
    rw [List.nodup_cons] at hn
    rw [List.foldl_cons, ih (f m tier) hn.2, hf]
    by_cases ht : tier = t
    · subst ht
      simp [hn.1]
    · simp [ht, Ne.symm ht]

theorem ledger_foldl (hf : ∀ m tier, (f m tier).ledger = m.ledger) : (ts.foldl f m).ledger = m.ledger :=
  List.foldlRecOn (motive := fun m' => m'.ledger = m.ledger) ts f rfl
    fun m' h tier _ => (hf m' tier).trans h

/-! ## Restoring -/

theorem getTier_restoreTier :
    (restoreTier agentId restored m tier).getTier role t =
      if tier = t then
        if agentId = role then ((restored.lookup tier).getD []).map (CanonicalRevision.intoRuntimeEntry agentId)
        else m.getTier role t
      else m.getTier role t := by
  unfold restoreTier
  cases hl : restored.lookup tier with
  | some records =>
    rw [getTier_setTier]
    by_cases ht : tier = t <;> by_cases hr : agentId = role <;> simp [hr]
  | none =>
    unfold getTier
    rw [tierMap_setTierMap]
    by_cases ht : tier = t
    · subst ht
      by_cases hr : agentId = role
      · subst hr
        simp
      · simp [hr, AList.lookup_erase_ne (Ne.symm hr)]
    · simp [ht]

@[simp] theorem restoreTier_ledger : (restoreTier agentId restored m tier).ledger = m.ledger := by
  unfold restoreTier
  split <;> simp

/-! ## Tracking -/

theorem getTier_recallTier :
    (recallTier agentId clock m tier).getTier role t =
      if tier = t then
        if agentId = role then (m.getTier role t).mapIdx fun i entry => entry.onMemoryAccess (clock t i)
        else m.getTier role t
      else m.getTier role t := by
  unfold recallTier
  cases hl : (m.tierMap tier).lookup agentId with
  | none =>
    by_cases ht : tier = t
    · subst ht
      by_cases hr : agentId = role
      · subst hr
        simp [getTier, hl]
      · simp [hr]
    · simp [ht]
  | some entries =>
    rw [getTier_setTier]
    by_cases ht : tier = t
    · subst ht
      by_cases hr : agentId = role
      · subst hr
        simp [getTier, hl]
      · simp [hr]
    · simp [ht]

@[simp] theorem recallTier_ledger : (recallTier agentId clock m tier).ledger = m.ledger := by
  unfold recallTier
  split <;> simp

end LayeredMemory

end Plico.Layered
