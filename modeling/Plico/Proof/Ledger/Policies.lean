import Plico.Model.Ledger.Validate

/-!
# Validated policy logs

What `validatePolicies` guarantees of each policy (`PolicyAdmits`, over the policies before it) and of
the log as a whole (`covers_of_validatePolicies`: every memory that has a root has a policy), and which
logs it accepts (`validatePolicies_of_grown`).
-/

namespace Plico.Ledger

open AList List

variable {P : Platform} {revisions : List CanonicalRevision}

/-- The roles that may write the memories of `originRoleId`. -/
def originRoles (originRoleId : String) : List String :=
  sortDedup [originRoleId, personalOwnerRoleId]

/-- `p` may be appended to the policies of `log`. -/
structure PolicyAdmits (P : Platform) (revisions : List CanonicalRevision) (log : List PolicyRecord)
    (p : PolicyRecord) : Prop where
  schema : p.schema = policySchema
  sequence : p.sequence = log.length + 1
  fresh : ∀ q ∈ log, q.policyId ≠ p.policyId
  /-- It takes effect from a revision of its own memory. -/
  effective : ∃ r ∈ revisions, r.revisionId = p.effectiveFromRevisionId ∧ r.memoryId = p.memoryId
  writers : p.writerRoles = originRoles p.originRoleId
  readers : p.mode = .private_ → p.readerRoles = originRoles p.originRoleId
  owner_reads : personalOwnerRoleId ∈ p.readerRoles

variable {log : List PolicyRecord} {p : PolicyRecord}

theorem validatePolicy_ok {s : PolicyScan}
    (h : validatePolicy P revisions ⟨log.length, (log.map (·.policyId)).reverse⟩ p = .ok s) :
    PolicyAdmits P revisions log p ∧ s = ⟨(log ++ [p]).length, ((log ++ [p]).map (·.policyId)).reverse⟩ := by
  obtain ⟨_, hrecord, _, hroles, _, haudience, h⟩ := of_seq₃ h
  obtain ⟨r, hr, h⟩ := of_seq h
  obtain ⟨_, hmemory, h⟩ := of_seq h
  simp only [refuse_eq_ok, required_eq_ok, not_or, not_not, not_and] at hrecord hroles haudience hr hmemory
  obtain ⟨hschema, hseq, -, -, -, hid, -⟩ := hrecord
  obtain ⟨-, -, -, -, howner, -⟩ := hroles
  refine ⟨⟨hschema, hseq, fun q hq he => hid ?_, ⟨r, mem_of_find?_eq_some hr, ?_, hmemory⟩, haudience.1,
    haudience.2.1, howner⟩, ?_⟩
  · simpa using ⟨q, hq, he⟩
  · simpa using find?_some hr
  · rw [← pure_ok_inj.mp h]
    simp

variable {policies : List PolicyRecord} {latest : LatestPolicies} {l acc : List String} {x a : String}
  {roles : List String}

theorem validatePolicies_grown {u : Unit} (h : validatePolicies P policies revisions = .ok u) :
    Grown (PolicyAdmits P revisions) policies := by
  obtain ⟨s, hs, -⟩ := of_seq h
  refine (grown_of_scan (A := fun log s => s = ⟨log.length, (log.map (·.policyId)).reverse⟩) rfl
    (fun {pre s p s'} hpre hstep => ?_) hs).1
  subst hpre
  exact validatePolicy_ok hstep

theorem last_policy_sequence (h : Grown (PolicyAdmits P revisions) policies) :
    policies.getLast?.elim 0 (·.sequence) = policies.length :=
  Grown.last_sequence (h.imp fun _ _ _ hp => hp.sequence)

theorem policyIds_nodup (h : Grown (PolicyAdmits P revisions) policies) : (policies.map (·.policyId)).Nodup :=
  Grown.nodup_map (h.imp fun _ _ _ hp => hp.fresh)

theorem mem_latest_of_history
    (h : policies.foldlM (validatePolicyHistory revisions) ∅ = .ok latest) {memoryId : MemoryId} :
    memoryId ∈ latest ↔ ∃ p ∈ policies, p.memoryId = memoryId := by
  refine (grown_of_scan
    (A := fun log latest => ∀ k, k ∈ latest ↔ ∃ p ∈ log, p.memoryId = k) (by simp)
    (fun {pre s p s'} hpre hstep => ⟨trivial, fun k => ?_⟩) h).2 memoryId
  obtain ⟨effective, -, hstep⟩ := of_seq hstep
  obtain ⟨_, -, hstep⟩ := of_seq hstep
  rw [← pure_ok_inj.mp hstep, mem_insert, hpre]
  simp [or_comm, eq_comm]

/-! ## Sorted role sets -/

theorem mem_eraseReps_loop : x ∈ List.eraseRepsBy.loop (· == ·) a l acc ↔ x = a ∨ x ∈ l ∨ x ∈ acc := by
  induction l generalizing a acc with
  | nil => simp [List.eraseRepsBy.loop, or_comm]
  | cons b l ih =>
    rw [List.eraseRepsBy.loop]
    split
    · rename_i h
      obtain rfl : a = b := by simpa using h
      rw [ih, mem_cons]
      tauto
    · rw [ih, mem_cons, mem_cons]
      tauto

theorem isChain_eraseReps_loop (hl : (a :: l).Pairwise (· ≤ ·))
    (hacc : (acc.reverse ++ [a]).IsChain (· < ·)) : (List.eraseRepsBy.loop (· == ·) a l acc).IsChain (· < ·) := by
  induction l generalizing a acc with
  | nil => simpa [List.eraseRepsBy.loop] using hacc
  | cons b l ih =>
    rw [List.eraseRepsBy.loop]
    obtain ⟨hab, hbl⟩ := pairwise_cons.mp hl
    split
    · exact ih (pairwise_cons.mpr ⟨fun c hc => hab c (by simp [hc]), (pairwise_cons.mp hbl).2⟩) hacc
    · rename_i h
      have hlt : a < b := lt_of_le_of_ne (hab b (by simp)) (by simpa using h)
      refine ih hbl ?_
      rw [reverse_cons]
      refine isChain_append.mpr ⟨hacc, by simp, ?_⟩
      simpa using hlt

theorem mem_sortDedup : x ∈ sortDedup roles ↔ x ∈ roles := by
  rw [← mem_insertionSort (r := (· ≤ ·)) (l := roles)]
  unfold sortDedup List.eraseReps List.eraseRepsBy
  split
  · next h => rw [h]
  · rename_i h
    rw [h, mem_eraseReps_loop]
    simp

theorem isChain_sortDedup : (sortDedup roles).IsChain (· < ·) := by
  have hsorted := pairwise_insertionSort (· ≤ ·) roles
  unfold sortDedup List.eraseReps List.eraseRepsBy
  split
  · simp
  · rename_i h
    rw [h] at hsorted
    exact isChain_eraseReps_loop hsorted (by simp)

/-- A strictly sorted list is given by its members. -/
theorem eq_of_isChain_lt {l' : List String} (h : l.IsChain (· < ·)) (h' : l'.IsChain (· < ·))
    (hmem : ∀ x, x ∈ l ↔ x ∈ l') : l = l' := by
  have hp := isChain_iff_pairwise.mp h
  have hp' := isChain_iff_pairwise.mp h'
  have hperm : l.Perm l' := (perm_ext_iff_of_nodup (hp.imp ne_of_lt) (hp'.imp ne_of_lt)).mpr hmem
  exact hperm.eq_of_pairwise (fun a b _ _ hab hba => absurd hab (lt_asymm hba)) hp hp'

/-! ## The validator accepts grown logs -/

theorem mem_originRoles {originRoleId role : String} :
    role ∈ originRoles originRoleId ↔ role = originRoleId ∨ role = personalOwnerRoleId := by
  rw [originRoles, mem_sortDedup]
  simp

/-- What is checked of a policy by itself, besides what every admitted policy satisfies. -/
structure PolicyValid (P : Platform) (p : PolicyRecord) : Prop where
  policyUuid : (P.parseUuid p.policyId).isSome
  origin : isBlank p.originRoleId = false
  committer : isBlank p.committedByRole = false
  readers_sorted : p.readerRoles.IsChain (· < ·)
  origin_reads : originRoles p.originRoleId ⊆ p.readerRoles

theorem validatePolicy_of_admits (hn : (revisions.map (·.revisionId)).Nodup) (h : PolicyAdmits P revisions log p)
    (hv : PolicyValid P p) :
    validatePolicy P revisions ⟨log.length, (log.map (·.policyId)).reverse⟩ p =
      .ok ⟨(log ++ [p]).length, ((log ++ [p]).map (·.policyId)).reverse⟩ := by
  obtain ⟨r, hr, hid, hmemory⟩ := h.effective
  have hfind := hid ▸ find?_of_nodup_map hn hr
  have howner : personalOwnerRoleId ∈ originRoles p.originRoleId := mem_originRoles.mpr (.inr rfl)
  have hfresh : p.policyId ∉ (log.map (·.policyId)).reverse := by
    simpa using h.fresh
  have hknown : p.effectiveFromRevisionId ∈ revisions.map (·.revisionId) := hid ▸ mem_map_of_mem hr
  have hwriters : (originRoles p.originRoleId).IsChain (· < ·) := isChain_sortDedup
  simp only [validatePolicy, seq_eq_ok, required_eq_ok, refuse_eq_ok, exists_const, not_or, not_and, not_not,
    Bool.not_eq_true, Bool.not_eq_false, Option.isNone_eq_false_iff]
  refine ⟨⟨h.schema, h.sequence, hv.policyUuid, hv.origin, hv.committer, hfresh, hknown⟩, ?_,
    ⟨h.writers, h.readers, fun _ => hv.origin_reads⟩, r, hfind, hmemory, by simp⟩
  rw [h.writers]
  exact ⟨ne_nil_of_mem h.owner_reads, ne_nil_of_mem howner, decide_eq_true hv.readers_sorted, decide_eq_true hwriters,
    h.owner_reads, howner⟩

/-- The sequence of the revision from which a policy is effective. -/
def effectiveSequence (revisions : List CanonicalRevision) (p : PolicyRecord) : Nat :=
  ((sequenceByRevision revisions).lookup p.effectiveFromRevisionId).getD 0

/-- `p` may come after `last`, the last policy of its memory if there is one. -/
def PolicyContinues (revisions : List CanonicalRevision) (last : Option PolicyRecord) (p : PolicyRecord) : Prop :=
  match last with
  | none => (rootByMemory revisions).lookup p.memoryId = some p.effectiveFromRevisionId
  | some previous => p.originRoleId = previous.originRoleId ∧
      effectiveSequence revisions previous ≤ effectiveSequence revisions p ∧ p.committedByRole ∈ previous.writerRoles

/-- What the history check keeps after the policies of `log`. -/
def LatestOf (revisions : List CanonicalRevision) (log : List PolicyRecord) (latest : LatestPolicies) : Prop :=
  ∀ memoryId, latest.lookup memoryId =
    (stream (·.memoryId) log memoryId).getLast?.map fun p => (p, effectiveSequence revisions p)

theorem validatePolicyHistory_of_continues (hlatest : LatestOf revisions log latest)
    (hknown : p.effectiveFromRevisionId ∈ revisions.map (·.revisionId))
    (h : PolicyContinues revisions (stream (·.memoryId) log p.memoryId).getLast? p) :
    ∃ latest', validatePolicyHistory revisions latest p = .ok latest' ∧ LatestOf revisions (log ++ [p]) latest' := by
  obtain ⟨effective, heffective⟩ : ∃ n, (sequenceByRevision revisions).lookup p.effectiveFromRevisionId = some n := by
    refine Option.isSome_iff_exists.mp (lookup_isSome.mpr ((mem_index _).mpr ?_))
    simpa using hknown
  have hseq : effectiveSequence revisions p = effective := by simp [effectiveSequence, heffective]
  have hcheck : checkPolicySuccession revisions latest p effective = .ok () := by
    unfold checkPolicySuccession
    rw [hlatest p.memoryId]
    cases hlast : (stream (·.memoryId) log p.memoryId).getLast? with
    | none =>
      rw [hlast] at h
      exact refuse_neg (not_not.mpr h)
    | some previous =>
      rw [hlast] at h
      obtain ⟨horigin, hle, hcommitter⟩ := h
      dsimp only [Option.map_some]
      rw [refuse_neg (by simp [horigin]), seq_ok, refuse_neg (by omega), seq_ok, refuse_neg (by simp [hcommitter])]
  refine ⟨latest.insert p.memoryId (p, effective), ?_, fun memoryId => ?_⟩
  · unfold validatePolicyHistory
    rw [heffective, required_some, seq_ok, hcheck]
    rfl
  · by_cases hk : p.memoryId = memoryId
    · subst hk
      rw [stream_concat_self (·.memoryId) log p]
      simp [hseq]
    · rw [lookup_insert_ne (Ne.symm hk), stream_concat_of_ne PolicyRecord.memoryId hk]
      exact hlatest memoryId

/-- The validator accepts policies that were admitted one after the other and succeed one another in each memory, if
every memory has one. -/
theorem validatePolicies_of_grown (hn : (revisions.map (·.revisionId)).Nodup)
    (hg : Grown (PolicyAdmits P revisions) policies) (hv : ∀ p ∈ policies, PolicyValid P p)
    (hc : Grown (fun pre p => PolicyContinues revisions (stream (·.memoryId) pre p.memoryId).getLast? p) policies)
    (hcover : ∀ r ∈ revisions, r.parentRevisionId = none → ∃ p ∈ policies, p.memoryId = r.memoryId) :
    validatePolicies P policies revisions = .ok () := by
  obtain ⟨scan, hscan, -⟩ := scan_total (f := validatePolicy P revisions)
    (A := fun log s => s = ⟨log.length, (log.map (·.policyId)).reverse⟩) rfl
    fun {pre p s} hpre hs => by
      subst hs
      exact ⟨_, validatePolicy_of_admits hn (hg pre p hpre) (hv p (hpre.subset (by simp))), rfl⟩
  have hstart : LatestOf revisions [] ∅ := fun memoryId => by simp
  obtain ⟨latest, hhistory, -⟩ := scan_total hstart
    fun {pre p s} hpre hs => by
      obtain ⟨r, hr, hid, -⟩ := (hg pre p hpre).effective
      exact validatePolicyHistory_of_continues hs (hid ▸ mem_map_of_mem hr) (hc pre p hpre)
  refine seq_eq_ok.mpr ⟨scan, hscan, seq_eq_ok.mpr ⟨latest, hhistory, refuse_neg ?_⟩⟩
  rintro ⟨memoryId, hroot, hnone⟩
  obtain ⟨r, hr, rfl⟩ := (mem_index _).mp (mem_keys.mpr hroot)
  obtain ⟨hr, hparent⟩ := mem_filter.mp hr
  refine hnone ((mem_latest_of_history hhistory).mpr (hcover r hr ?_))
  simpa using hparent

end Plico.Ledger
