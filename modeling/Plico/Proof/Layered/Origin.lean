import Plico.Model.Layered.Entry
import Plico.Proof.Ledger.Authority

/-!
# The revisions of a role

`originRevisions s role tier` is what a restart restores for a role and a tier. A commit appends to it:
the roots of a batch to the list of the role that commits them, and a later revision to the list of the
role that started the memory.
-/

namespace Plico.Ledger

open List

variable {P : LedgerPlatform} {role : String} {s : LedgerState}

/-- The memories that a role started. -/
def originMemories (s : LedgerState) (role : String) : List MemoryId :=
  (s.policies.filter fun policy => policy.originRoleId = role).map (·.memoryId)

def originRevisions (s : LedgerState) (role : String) (tier : MemoryTier) : List CanonicalRevision :=
  s.revisions.filter fun r => r.memoryId ∈ originMemories s role ∧ r.cognitiveTier = tier

theorem mem_originMemories {memoryId : MemoryId} :
    memoryId ∈ originMemories s role ↔ ∃ p ∈ memoryPolicies s.policies memoryId, p.originRoleId = role := by
  simp only [originMemories, mem_map, mem_filter, decide_eq_true_eq, memoryPolicies, mem_stream]
  exact exists_congr fun p => ⟨fun h => ⟨⟨h.1.1, h.2⟩, h.1.2⟩, fun h => ⟨⟨h.1.1, h.2⟩, h.1.2⟩⟩

/-- Looking a key up in a table that leaves empty groups out. -/
theorem lookup_groups {κ α : Type} [DecidableEq κ] {group : κ → List α} {keys : List κ} {k : κ} :
    ((keys.filterMap fun key => if (group key).isEmpty then none else some (key, group key)).lookup k).getD [] =
      if k ∈ keys then group k else [] := by
  induction keys with
  | nil => rfl
  | cons key keys ih =>
    rw [filterMap_cons]
    by_cases hempty : (group key).isEmpty = true
    · have hnil : group key = [] := isEmpty_iff.mp hempty
      simp only [hempty, if_true]
      rw [ih]
      by_cases hk : k = key
      · subst hk
        simp [hnil]
      · simp [hk]
    · simp only [hempty, Bool.false_eq_true, if_false]
      by_cases hk : k = key
      · subst hk
        simp
      · rw [lookup_cons, beq_eq_false_iff_ne.mpr hk, ih]
        simp [hk]

theorem lookup_rebuildOriginRole {tier : MemoryTier} (ht : tier ≠ .ephemeral) :
    ((rebuildOriginRole s role).lookup tier).getD [] = originRevisions s role tier := by
  refine lookup_groups.trans (if_pos ?_)
  cases tier <;> simp_all

/-! ## Growth -/

/-- Every memory has its one policy or is not there. -/
def AllGoverned (s : LedgerState) : Prop :=
  ∀ memoryId, Governed (memoryRevisions s.revisions memoryId) (memoryPolicies s.policies memoryId)

section

variable {s : LedgerState} {roleId : String} {tier : MemoryTier} {revisions : List CanonicalRevision}
  {expectedHeads : List ExpectedHead} {inputs : CommitInputs} {c : PreparedCommit}

variable {r : CanonicalRevision}

section

variable (h : Prepared P s roleId tier revisions expectedHeads inputs c) {t : MemoryTier}
include h

/-- A memory that has revisions keeps its policies. -/
theorem Prepared.policies_of_mem (hs : Sound P s) (hr : r ∈ s.revisions) :
    memoryPolicies c.policies r.memoryId = memoryPolicies s.policies r.memoryId := by
  refine h.policies_of_present fun item hitem hid ha => ?_
  have hhead := h.head_eq hs hitem
  have hnil : memoryRevisions s.revisions r.memoryId = [] := by
    simpa [LedgerState.head, headIn, ha, ExpectedHead.id, hid] using hhead
  have hmem : r ∈ memoryRevisions s.revisions r.memoryId := (mem_stream _).mpr ⟨hr, rfl⟩
  rw [hnil] at hmem
  cases hmem

theorem Prepared.originRevisions_eq (hs : Sound P s) :
    originRevisions (c.apply s) role t = originRevisions s role t ++
      c.newRevisions.filter fun r => r.memoryId ∈ originMemories (c.apply s) role ∧ r.cognitiveTier = t := by
  have hold : ∀ r ∈ s.revisions, (r.memoryId ∈ originMemories (c.apply s) role ∧ r.cognitiveTier = t) ↔
      (r.memoryId ∈ originMemories s role ∧ r.cognitiveTier = t) := by
    intro r hr
    rw [mem_originMemories, mem_originMemories]
    show (∃ p ∈ memoryPolicies c.policies r.memoryId, _) ∧ _ ↔ _
    rw [h.policies_of_mem hs hr]
  show c.revisions.filter _ = _
  rw [h.revisions, filter_append]
  congr 1
  exact filter_congr fun r hr => decide_eq_decide.mpr (hold r hr)

theorem Prepared.cognitiveTier_eq (hr : r ∈ c.newRevisions) : r.cognitiveTier = tier := by
  rw [h.newRevisions] at hr
  obtain ⟨i, hi, rfl⟩ := mem_mapIdx.mp hr
  have hzip : revisions[i] ∈ (revisions.zip expectedHeads).map Prod.fst := by
    rw [map_fst_zip h.length.le]
    exact getElem_mem hi
  obtain ⟨item, hitem, he⟩ := mem_map.mp hzip
  obtain ⟨pre, post, hsplit⟩ := append_of_mem hitem
  have hadm := h.batch pre item ⟨post, by rw [hsplit, append_assoc]; rfl⟩
  rw [← he]
  exact hadm.tier

theorem Prepared.originRevisions_of_origin (hs : Sound P s) {origin : String}
    (horigin : ∀ r ∈ c.newRevisions, r.memoryId ∈ originMemories (c.apply s) role ↔ origin = role) :
    originRevisions (c.apply s) role t =
      originRevisions s role t ++ if origin = role ∧ tier = t then c.newRevisions else [] := by
  rw [h.originRevisions_eq hs]
  congr 1
  have hall : ∀ r ∈ c.newRevisions, (r.memoryId ∈ originMemories (c.apply s) role ∧ r.cognitiveTier = t) ↔
      (origin = role ∧ tier = t) := by
    intro r hr
    rw [horigin r hr, h.cognitiveTier_eq hr]
  split
  · next hcond => exact filter_eq_self.mpr fun r hr => decide_eq_true ((hall r hr).mpr hcond)
  · rename_i hcond
    refine filter_eq_nil_iff.mpr fun r hr hm => hcond ?_
    exact (hall r hr).mp (of_decide_eq_true hm)

end

variable {t : MemoryTier}

section

variable (h : Prepared P s roleId tier revisions (List.replicate revisions.length .absent) inputs c)
include h

/-- The revisions of a batch of roots name the role of the request, and are no tombstones. -/
theorem Prepared.root_spec (hr : r ∈ revisions) : r.committedByRole = roleId ∧ r.deletedAt = none := by
  have hzip : r ∈ (revisions.zip (List.replicate revisions.length ExpectedHead.absent)).map Prod.fst := by
    rwa [map_fst_zip h.length.le]
  obtain ⟨item, hitem, rfl⟩ := mem_map.mp hzip
  have ha : item.2 = .absent := eq_of_mem_replicate (of_mem_zip hitem).2
  obtain ⟨pre, post, hsplit⟩ := append_of_mem hitem
  have hadm := h.batch pre item ⟨post, by rw [hsplit, append_assoc]; rfl⟩
  have hparent : item.1.parentRevisionId = none := by
    rw [(headMatches_iff.mp hadm.head).2, ha]
    rfl
  refine ⟨hadm.author ha, ?_⟩
  obtain ⟨i, hi, he⟩ := getElem_of_mem hr
  have hmem : stamp roleId inputs.now (s.revisions.length + 1 + i) item.1 ∈ c.revisions := by
    rw [h.revisions, h.newRevisions]
    exact mem_append_right _ (mem_mapIdx.mpr ⟨i, hi, by rw [he]⟩)
  have hlive := (starts_of_grown (validateRevisions_grown h.validRevisions) hmem hparent).live
  simpa [stamp] using hlive

/-- The roots of a batch go to the role that commits them. -/
theorem Prepared.originRevisions_roots (hs : Sound P s) (hg : AllGoverned s) :
    originRevisions (c.apply s) role t =
      originRevisions s role t ++ if roleId = role ∧ tier = t then c.newRevisions else [] := by
  refine h.originRevisions_of_origin hs (fun r hr => ?_)
  have hmem : r.memoryId ∈ revisions.map (·.memoryId) := by
    rw [← stampAll_memoryIds, ← h.newRevisions]
    exact mem_map_of_mem hr
  obtain ⟨q, hq, hid⟩ := mem_map.mp hmem
  obtain ⟨item, hitem, hie⟩ := h.exists_item hq hid
  have ha : item.2 = .absent := eq_of_mem_replicate (of_mem_zip hitem).2
  have hgov := (hg item.1.memoryId).start hs h hitem ha
  obtain ⟨p, hp, -, -, hpol⟩ := h.policies_of_absent hitem ha
  -- the memory was not there, so its only policy is the new one
  have hnil : memoryPolicies s.policies item.1.memoryId = [] := by
    rw [hpol] at hgov
    generalize memoryRevisions c.revisions item.1.memoryId = rs at hgov
    generalize hps : memoryPolicies s.policies item.1.memoryId ++ [p] = ps at hgov
    cases hgov with
    | absent => simp at hps
    | present => exact length_eq_zero_iff.mp (by simpa using congrArg List.length hps)
  rw [mem_originMemories, ← hie]
  show (∃ p ∈ memoryPolicies c.policies item.1.memoryId, _) ↔ _
  rw [hpol, hnil]
  simp [hp]

end

/-- A later revision goes to the role that started its memory. -/
theorem Prepared.originRevisions_update {revision : CanonicalRevision} {id : MemoryRevisionId}
    (h : Prepared P s roleId tier [revision] [.revision id] inputs c) (hs : Sound P s) {p : PolicyRecord}
    (hp : memoryPolicies s.policies revision.memoryId = [p]) :
    originRevisions (c.apply s) role t =
      originRevisions s role t ++ if p.originRoleId = role ∧ tier = t then c.newRevisions else [] := by
  refine h.originRevisions_of_origin hs (fun r hr => ?_)
  have hmem : r.memoryId ∈ [revision].map (·.memoryId) := by
    rw [← stampAll_memoryIds, ← h.newRevisions]
    exact mem_map_of_mem hr
  have hid : r.memoryId = revision.memoryId := by simpa using hmem
  have hpol : memoryPolicies c.policies revision.memoryId = memoryPolicies s.policies revision.memoryId := by
    refine h.policies_of_present fun item hitem _ ha => ?_
    obtain rfl : item = (revision, .revision id) := by simpa using hitem
    cases ha
  rw [mem_originMemories, hid]
  show (∃ p ∈ memoryPolicies c.policies revision.memoryId, _) ↔ _
  rw [hpol, hp]
  simp

end

end Plico.Ledger
