import Plico.Proof.Ledger.Policies
import Plico.Proof.Ledger.Streams

/-!
# Who may write a memory

A memory gets one policy, in the commit of its root, and no commit adds another. `Governed` is the
invariant: the policy is the private one of the role that committed the root, and every revision of the
memory was committed by one of its writers. `Governed.step` shows that the writer keeps it for every
memory at once, and `runCommits_authority` adds that a role outside the writers of a memory changes
nothing of it.
-/

namespace Plico.Ledger

open List

variable {P : LedgerPlatform} {p : PolicyRecord} {l : CASCanonicalLedger}

/-! ## The roles of a private policy -/

/-- `roles` is the set of the origin and the owner, sorted and without duplicates. -/
structure IsPrivateRoles (roles : List String) (originRoleId : String) : Prop where
  sorted : roles.Pairwise (· < ·)
  mem : ∀ role, role ∈ roles ↔ role = originRoleId ∨ role = personalOwnerRoleId

theorem isPrivateRoles_privateRoles {roleId : String} : IsPrivateRoles (privateRoles roleId) roleId := by
  unfold privateRoles
  split
  · next h => exact ⟨by simp, fun role => by simp [h]⟩
  · rename_i h
    refine ⟨?_, fun role => ?_⟩
    · have hsort : [roleId, personalOwnerRoleId].insertionSort (· ≤ ·) =
          if roleId ≤ personalOwnerRoleId then [roleId, personalOwnerRoleId] else [personalOwnerRoleId, roleId] := rfl
      rw [hsort]
      split
      · next hle => simpa using lt_of_le_of_ne hle h
      · next hle => simpa using lt_of_not_ge hle
    · rw [mem_insertionSort]
      simp

/-! ## The batch, memory by memory -/

section

variable {s : LedgerState} {roleId : String} {tier : MemoryTier} {revisions : List CanonicalRevision}
  {expectedHeads : List ExpectedHead} {inputs : CommitInputs} {c : PreparedCommit}

variable {r : CanonicalRevision} {memoryId : MemoryId} {batch : List (CanonicalRevision × ExpectedHead)}
  {policyIds : Nat → String} {first : Nat} {now : Nat}

theorem stampAll_memoryIds : (stampAll s roleId now revisions).map (·.memoryId) = revisions.map (·.memoryId) := by
  refine ext_getElem (by simp [stampAll]) fun i hi hi' => ?_
  simp [stampAll, stamp]

theorem mem_stampAll (hr : r ∈ stampAll s roleId now revisions) : r.committedByRole = roleId := by
  obtain ⟨i, hi, rfl⟩ := mem_mapIdx.mp hr
  rfl

theorem newPolicies_memoryIds :
    (newPolicies roleId now first policyIds batch).map (·.memoryId) =
      (batch.filter fun item => item.2 = .absent).map (·.1.memoryId) := by
  refine ext_getElem (by simp [newPolicies]) fun i hi hi' => ?_
  simp [newPolicies, privatePolicy]

theorem mem_newPolicies (hp : p ∈ newPolicies roleId now first policyIds batch) :
    p.originRoleId = roleId ∧ p.writerRoles = privateRoles roleId ∧ p.readerRoles = privateRoles roleId := by
  obtain ⟨i, hi, rfl⟩ := mem_mapIdx.mp hp
  exact ⟨rfl, rfl, rfl⟩

variable (h : Prepared P s roleId tier revisions expectedHeads inputs c)

include h

namespace Prepared

/-- The items of an accepted batch are for distinct memories. -/
theorem memories_nodup : (revisions.map (·.memoryId)).Nodup := by
  have hn := Grown.nodup_map (h.batch.imp fun _ _ _ hadm => hadm.fresh)
  have hfst := map_fst_zip h.length.le
  rw [← hfst, map_map]
  exact hn

theorem exists_item (hr : r ∈ revisions) (he : r.memoryId = memoryId) :
    ∃ item ∈ revisions.zip expectedHeads, item.1.memoryId = memoryId := by
  have hzip : r ∈ (revisions.zip expectedHeads).map Prod.fst := by rwa [map_fst_zip h.length.le]
  obtain ⟨item, hitem, rfl⟩ := mem_map.mp hzip
  exact ⟨item, hitem, he⟩

theorem newRevisions_memoryIds : c.newRevisions.map (·.memoryId) = revisions.map (·.memoryId) := by
  rw [h.newRevisions, stampAll_memoryIds]

/-- A memory that is in the batch gets one revision, committed by the role of the request. -/
theorem touched (hr : r ∈ revisions) :
    ∃ r', r'.committedByRole = roleId ∧
      memoryRevisions c.revisions r.memoryId = memoryRevisions s.revisions r.memoryId ++ [r'] := by
  have hn := h.newRevisions_memoryIds ▸ h.memories_nodup
  have hmem := h.newRevisions_memoryIds ▸ mem_map_of_mem hr
  obtain ⟨r', hr', he⟩ := mem_map.mp hmem
  refine ⟨r', mem_stampAll (h.newRevisions ▸ hr'), ?_⟩
  rw [h.revisions, memoryRevisions, stream_append, ← he]
  exact congrArg _ (stream_eq_singleton _ hn hr')

/-- The items of the stamped batch that expect no memory. -/
theorem absent_mem :
    memoryId ∈ ((c.newRevisions.zip expectedHeads).filter fun item => item.2 = .absent).map (·.1.memoryId) ↔
      ∃ item ∈ revisions.zip expectedHeads, item.1.memoryId = memoryId ∧ item.2 = .absent := by
  have hzip : (c.newRevisions.zip expectedHeads).map (fun item => (item.1.memoryId, item.2)) =
      (revisions.zip expectedHeads).map (fun item => (item.1.memoryId, item.2)) := by
    have hsplit : ∀ l : List CanonicalRevision, (l.zip expectedHeads).map (fun item => (item.1.memoryId, item.2)) =
        (l.map (·.memoryId)).zip expectedHeads := fun l => by
      rw [← map_id expectedHeads, zip_map, map_id]
      rfl
    rw [hsplit, hsplit, h.newRevisions_memoryIds]
  have hmem : ∀ l : List (CanonicalRevision × ExpectedHead),
      memoryId ∈ (l.filter fun item => item.2 = .absent).map (·.1.memoryId) ↔
        (memoryId, ExpectedHead.absent) ∈ l.map (fun item => (item.1.memoryId, item.2)) := fun l => by
    simp only [mem_map, mem_filter, decide_eq_true_eq, Prod.mk.injEq]
    exact exists_congr fun item => ⟨fun h => ⟨h.1.1, h.2, h.1.2⟩, fun h => ⟨⟨h.1, h.2.2⟩, h.2.1⟩⟩
  rw [hmem, hzip]
  simp

theorem newPolicies_nodup :
    ((newPolicies roleId inputs.now first inputs.policyIds (c.newRevisions.zip expectedHeads)).map
      (·.memoryId)).Nodup := by
  have hlength : c.newRevisions.length ≤ expectedHeads.length := by
    rw [h.newRevisions, ← h.length]
    simp [stampAll]
  have hids : (c.newRevisions.zip expectedHeads).map (·.1.memoryId) = revisions.map (·.memoryId) := by
    rw [← h.newRevisions_memoryIds]
    conv_rhs => rw [← map_fst_zip hlength, map_map]
    rfl
  rw [newPolicies_memoryIds]
  exact (hids ▸ h.memories_nodup).sublist
    (filter_sublist.map _)

/-- A memory that the batch starts gets one policy, the private one of the role of the request. -/
theorem policies_of_absent {item : CanonicalRevision × ExpectedHead} (hitem : item ∈ revisions.zip expectedHeads)
    (ha : item.2 = .absent) :
    ∃ p, p.originRoleId = roleId ∧ p.writerRoles = privateRoles roleId ∧ p.readerRoles = privateRoles roleId ∧
      memoryPolicies c.policies item.1.memoryId = memoryPolicies s.policies item.1.memoryId ++ [p] := by
  have hmem := h.absent_mem.mpr ⟨item, hitem, rfl, ha⟩
  rw [← newPolicies_memoryIds] at hmem
  obtain ⟨p, hp, he⟩ := mem_map.mp hmem
  obtain ⟨horigin, hwriters, hreaders⟩ := mem_newPolicies hp
  refine ⟨p, horigin, hwriters, hreaders, ?_⟩
  rw [h.policies, memoryPolicies, stream_append, ← he]
  exact congrArg _ (stream_eq_singleton _ h.newPolicies_nodup hp)

/-- A memory that the batch does not start keeps its policies. -/
theorem policies_of_present (hm : ∀ item ∈ revisions.zip expectedHeads, item.1.memoryId = memoryId → item.2 ≠ .absent) :
    memoryPolicies c.policies memoryId = memoryPolicies s.policies memoryId := by
  have hnil : memoryPolicies (newPolicies roleId inputs.now (s.policies.length + 1) inputs.policyIds
      (c.newRevisions.zip expectedHeads)) memoryId = [] := by
    refine (stream_eq_nil _).mpr fun p hp he => ?_
    have hmem := mem_map_of_mem (f := fun p => p.memoryId) hp
    rw [newPolicies_memoryIds, h.absent_mem] at hmem
    obtain ⟨item, hitem, hie, ha⟩ := hmem
    exact hm item hitem (hie.trans he) ha
  rw [h.policies, memoryPolicies, stream_append]
  exact (congrArg _ hnil).trans (append_nil _)

/-- A memory that is not in the batch keeps its logs. -/
theorem untouched (hm : ∀ r ∈ revisions, r.memoryId ≠ memoryId) :
    memoryRevisions c.revisions memoryId = memoryRevisions s.revisions memoryId ∧
      memoryPolicies c.policies memoryId = memoryPolicies s.policies memoryId := by
  have hnil : memoryRevisions c.newRevisions memoryId = [] := by
    refine (stream_eq_nil _).mpr fun r hr he => ?_
    have hmem : r.memoryId ∈ c.newRevisions.map (·.memoryId) := mem_map_of_mem hr
    rw [h.newRevisions_memoryIds] at hmem
    obtain ⟨q, hq, hqe⟩ := mem_map.mp hmem
    exact hm q hq (hqe.trans he)
  refine ⟨?_, h.policies_of_present fun item hitem he => absurd he (hm item.1 (of_mem_zip hitem).1)⟩
  rw [h.revisions, memoryRevisions, stream_append]
  exact (congrArg _ hnil).trans (append_nil _)

/-- Whoever writes an existing memory is a writer of its policy. -/
theorem writer_mem (hs : Sound P s) (hr : r ∈ revisions) (hhead : (s.head r.memoryId).isSome)
    (hp : memoryPolicies s.policies r.memoryId = [p]) : roleId ∈ p.writerRoles := by
  have hview := hs.isViewOf_currentView
  have hcheck := h.writers r hr
  rw [checkWriter, if_pos (by rwa [hs.headFor_eq])] at hcheck
  obtain ⟨st, hst, hcheck⟩ := of_seq hcheck
  obtain ⟨q, hq, hcheck⟩ := of_seq hcheck
  simp only [required_eq_ok, refuse_eq_ok, not_not] at hst hq hcheck
  -- the view names the last policy of the memory, which is `p`
  obtain ⟨hmem, hid⟩ := (streamFor_eq_some hview).mp hst
  obtain ⟨_, policy, _, hlast, hste⟩ := (hview.mem st).mp hmem
  rw [hid, hp] at hlast
  obtain rfl : p = policy := by simpa using hlast
  have hqid : q.policyId = p.policyId := by
    rw [hste] at hq
    simpa using find?_some hq
  have hpm : p ∈ s.policies := ((mem_stream _).mp (hp ▸ mem_singleton_self p :
    p ∈ memoryPolicies s.policies r.memoryId)).1
  have hqp : q = p := inj_on_of_nodup_map (policyIds_nodup (validatePolicies_grown hs.policies))
    (mem_of_find?_eq_some hq) hpm hqid
  exact hqp ▸ hcheck

end Prepared

end

/-! ## The invariant -/

/-- The revisions and the policies of one memory, in a ledger whose writer checks authority. -/
inductive Governed : List CanonicalRevision → List PolicyRecord → Prop where
  | absent : Governed [] []
  | present {root : CanonicalRevision} {rest : List CanonicalRevision} {p : PolicyRecord} :
      p.originRoleId = root.committedByRole →
      p.writerRoles = privateRoles p.originRoleId →
      p.readerRoles = privateRoles p.originRoleId →
      (∀ r ∈ root :: rest, r.committedByRole ∈ p.writerRoles) →
      Governed (root :: rest) [p]

variable {memoryId : MemoryId}

section

variable {s : LedgerState} {roleId : String} {tier : MemoryTier} {revisions : List CanonicalRevision}
  {expectedHeads : List ExpectedHead} {inputs : CommitInputs} {c : PreparedCommit}
  {item : CanonicalRevision × ExpectedHead}

variable (hs : Sound P s) (h : Prepared P s roleId tier revisions expectedHeads inputs c)
include hs h

theorem Prepared.head_eq (hitem : item ∈ revisions.zip expectedHeads) : s.head item.1.memoryId = item.2.id := by
  obtain ⟨pre, post, hsplit⟩ := append_of_mem hitem
  have hadm := h.batch pre item ⟨post, by rw [hsplit, append_assoc]; rfl⟩
  rw [← hs.headFor_eq]
  exact (headMatches_iff.mp hadm.head).1

theorem Governed.start (hitem : item ∈ revisions.zip expectedHeads) (ha : item.2 = .absent)
    (hg : Governed (memoryRevisions s.revisions item.1.memoryId) (memoryPolicies s.policies item.1.memoryId)) :
    Governed (memoryRevisions c.revisions item.1.memoryId) (memoryPolicies c.policies item.1.memoryId) := by
  obtain ⟨r', hrole, hrev⟩ := h.touched (of_mem_zip hitem).1
  obtain ⟨p, horigin, hwriters, hreaders, hpol⟩ := h.policies_of_absent hitem ha
  have hnil : memoryRevisions s.revisions item.1.memoryId = [] := by
    simpa [LedgerState.head, headIn, ha, ExpectedHead.id] using h.head_eq hs hitem
  have hpnil : memoryPolicies s.policies item.1.memoryId = [] := by
    rw [hnil] at hg
    cases hp : memoryPolicies s.policies item.1.memoryId with
    | nil => rfl
    | cons q qs => rw [hp] at hg; cases hg
  rw [hrev, hpol, hnil, hpnil]
  refine .present (horigin.trans hrole.symm) (horigin ▸ hwriters) (horigin ▸ hreaders) fun r hr => ?_
  obtain rfl : r = r' := by simpa using hr
  rw [hwriters, hrole, isPrivateRoles_privateRoles.mem]
  exact .inl rfl

theorem Governed.update (hitem : item ∈ revisions.zip expectedHeads) (ha : item.2 ≠ .absent)
    (hg : Governed (memoryRevisions s.revisions item.1.memoryId) (memoryPolicies s.policies item.1.memoryId)) :
    Governed (memoryRevisions c.revisions item.1.memoryId) (memoryPolicies c.policies item.1.memoryId) := by
  have hr : item.1 ∈ revisions := (of_mem_zip hitem).1
  obtain ⟨r', hrole, hrev⟩ := h.touched hr
  have hsome : (s.head item.1.memoryId).isSome := by
    rw [h.head_eq hs hitem]
    cases he : item.2 with
    | absent => exact absurd he ha
    | revision id => rfl
  have hpol : memoryPolicies c.policies item.1.memoryId = memoryPolicies s.policies item.1.memoryId := by
    refine h.policies_of_present fun other hother hid hoa => ha ?_
    -- there is one item for the memory
    have hn := Grown.nodup_map (h.batch.imp fun _ _ _ hadm => hadm.fresh)
    rwa [← inj_on_of_nodup_map hn hother hitem hid]
  rw [hrev, hpol]
  generalize hrs : memoryRevisions s.revisions item.1.memoryId = rs at hg
  generalize hps : memoryPolicies s.policies item.1.memoryId = ps at hg
  cases hg with
  | absent => simp [LedgerState.head, headIn, hrs] at hsome
  | @present root rest p horigin hwriters hreaders hauthors =>
    refine .present horigin hwriters hreaders fun r hmem => ?_
    rcases mem_concat.mp (show r ∈ (root :: rest) ++ [r'] from hmem) with hmem | rfl
    · exact hauthors r hmem
    · exact hrole ▸ h.writer_mem hs hr hsome hps

theorem Governed.apply (hg : Governed (memoryRevisions s.revisions memoryId) (memoryPolicies s.policies memoryId)) :
    Governed (memoryRevisions c.revisions memoryId) (memoryPolicies c.policies memoryId) := by
  by_cases hin : ∃ item ∈ revisions.zip expectedHeads, item.1.memoryId = memoryId
  · obtain ⟨item, hitem, rfl⟩ := hin
    by_cases ha : item.2 = .absent
    · exact hg.start hs h hitem ha
    · exact hg.update hs h hitem ha
  · obtain ⟨hrev, hpol⟩ := h.untouched fun r hr he => hin (h.exists_item hr he)
    rw [hrev, hpol]
    exact hg

end

theorem Governed.run (hs : Sound P l.state)
    (hg : ∀ memoryId, Governed (memoryRevisions l.state.revisions memoryId) (memoryPolicies l.state.policies memoryId))
    (calls : List (CommitCall × CommitInputs)) (memoryId : MemoryId) :
    Governed (memoryRevisions (runCommits P l calls).state.revisions memoryId)
      (memoryPolicies (runCommits P l calls).state.policies memoryId) := by
  induction calls generalizing l with
  | nil => exact hg memoryId
  | cons call rest ih =>
    refine ih (hs.step call.1 call.2) fun memoryId => ?_
    rcases run_cases l call.1 call.2 with ⟨c, hc, hstate, -⟩ | ⟨e, -, hr, hp⟩
    · rw [hstate]
      exact (hg memoryId).apply hs hc
    · rw [hr, hp]
      exact hg memoryId

/-! ## Authority -/

/-- Who may write the memory, and who has. -/
structure StreamAuthority (s : LedgerState) (memoryId : MemoryId) (p : PolicyRecord) : Prop where
  only_policy : memoryPolicies s.policies memoryId = [p]
  /-- The policy the view shows. -/
  shown : (streamFor s.currentView memoryId).map (·.policyId) = some p.policyId
  origin : ∃ root, (memoryRevisions s.revisions memoryId).head? = some root ∧ p.originRoleId = root.committedByRole
  writers : IsPrivateRoles p.writerRoles p.originRoleId
  readers : IsPrivateRoles p.readerRoles p.originRoleId
  authors : ∀ r ∈ memoryRevisions s.revisions memoryId, r.committedByRole ∈ p.writerRoles

/-- Nothing of the memory differs between the two states. -/
structure SameStream (memoryId : MemoryId) (s s' : LedgerState) : Prop where
  revisions : memoryRevisions s'.revisions memoryId = memoryRevisions s.revisions memoryId
  policies : memoryPolicies s'.policies memoryId = memoryPolicies s.policies memoryId
  /-- Head, tombstone mark and policy id as the view shows them. -/
  shown : streamFor s'.currentView memoryId = streamFor s.currentView memoryId

structure WriteAuthority (P : LedgerPlatform) (l : CASCanonicalLedger) : Prop where
  governed : ∀ memoryId, memoryRevisions l.state.revisions memoryId ≠ [] → ∃ p, StreamAuthority l.state memoryId p
  /-- A request of a role that is no writer of the memory changes nothing of it. -/
  isolated : ∀ memoryId p, StreamAuthority l.state memoryId p →
    ∀ (call : CommitCall) inputs, call.roleId ∉ p.writerRoles →
      SameStream memoryId l.state (call.run P l inputs).1.state

theorem Governed.streamAuthority {s : LedgerState} (hs : Sound P s)
    (hg : Governed (memoryRevisions s.revisions memoryId) (memoryPolicies s.policies memoryId))
    (hne : memoryRevisions s.revisions memoryId ≠ []) : ∃ p, StreamAuthority s memoryId p := by
  generalize hrs : memoryRevisions s.revisions memoryId = rs at hg
  generalize hps : memoryPolicies s.policies memoryId = ps at hg
  cases hg with
  | absent => exact absurd hrs hne
  | @present root rest p horigin hwriters hreaders hauthors =>
    refine ⟨p, hps, ?_, ⟨root, by rw [hrs]; rfl, horigin⟩, hwriters ▸ isPrivateRoles_privateRoles,
      hreaders ▸ isPrivateRoles_privateRoles, hrs ▸ hauthors⟩
    rw [streamFor_eq hs.isViewOf_currentView, hrs, hps]
    rfl

theorem sameStream_of_run (hs : Sound P l.state)
    (hp : StreamAuthority l.state memoryId p) {call : CommitCall} (hrole : call.roleId ∉ p.writerRoles)
    {inputs : CommitInputs} : SameStream memoryId l.state (call.run P l inputs).1.state := by
  have hlogs : memoryRevisions (call.run P l inputs).1.state.revisions memoryId =
        memoryRevisions l.state.revisions memoryId ∧
      memoryPolicies (call.run P l inputs).1.state.policies memoryId = memoryPolicies l.state.policies memoryId := by
    rcases run_cases l call inputs with ⟨c, hc, hstate, -⟩ | ⟨e, -, hr, hpol⟩
    · rw [hstate]
      refine hc.untouched fun r hr he => hrole ?_
      subst he
      obtain ⟨root, hroot, -⟩ := hp.origin
      have hsome : (l.state.head r.memoryId).isSome := by
        rw [LedgerState.head, headIn, Option.isSome_map, getLast?_isSome]
        rintro hnil
        rw [hnil] at hroot
        cases hroot
      exact hc.writer_mem hs hr hsome hp.only_policy
    · rw [hr, hpol]
      exact ⟨rfl, rfl⟩
  refine ⟨hlogs.1, hlogs.2, ?_⟩
  rw [streamFor_eq (hs.step call inputs).isViewOf_currentView, streamFor_eq hs.isViewOf_currentView, hlogs.1, hlogs.2]

/-- In every state reached from genesis each memory is governed by its one policy, and a role outside
its writers cannot touch it. -/
theorem runCommits_authority (P : LedgerPlatform) (st : LedgerStorage) (rootHash viewHash : String)
    (calls : List (CommitCall × CommitInputs)) :
    WriteAuthority P (runCommits P ⟨st, .genesis rootHash viewHash⟩ calls) := by
  have hgenesis := sound_genesis (P := P) rootHash viewHash
  have hs := Sound.run (l := ⟨st, .genesis rootHash viewHash⟩) hgenesis calls
  refine ⟨fun memoryId hne => ?_, fun memoryId p hp call inputs hrole => sameStream_of_run hs hp hrole⟩
  have hg := Governed.run (l := ⟨st, .genesis rootHash viewHash⟩) hgenesis (fun _ => .absent) calls memoryId
  exact hg.streamAuthority hs hne

end Plico.Ledger
