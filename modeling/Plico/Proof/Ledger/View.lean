import Plico.Proof.Ledger.Revisions

/-!
# The current view agrees with the chains

`rebuildCurrentView` fills two maps, the later record of a memory replacing the earlier one, and sorts
what they hold. `isViewOf_rebuild` states the result without the maps: one stream for each memory,
whose head is the last revision of that memory and whose policy is the last policy of that memory.
-/

namespace Plico.Ledger

open Option

/-- The policies of one memory, oldest first. -/
def memoryPolicies (policies : List PolicyRecord) (memoryId : MemoryId) : List PolicyRecord :=
  stream (·.memoryId) policies memoryId

/-- `v` shows the last revision and the last policy of every memory of the logs. -/
structure IsViewOf (revisions : List CanonicalRevision) (policies : List PolicyRecord) (v : CurrentView) :
    Prop where
  nodup : (v.streams.map (·.memoryId)).Nodup
  mem : ∀ st, st ∈ v.streams ↔ ∃ head policy,
    (memoryRevisions revisions st.memoryId).getLast? = some head ∧
    (memoryPolicies policies st.memoryId).getLast? = some policy ∧
    st = ⟨st.memoryId, head.revisionId, head.deletedAt.isSome, policy.policyId⟩
  /-- Every memory of the log has a stream. -/
  total : ∀ r ∈ revisions, ∃ st ∈ v.streams, st.memoryId = r.memoryId

variable {memoryId : MemoryId} {head : CanonicalRevision} {st : CurrentStream}

theorem currentStream_eq_ok {policyByMemory : AList (fun _ : MemoryId => PolicyRecord)} :
    currentStream policyByMemory memoryId head = .ok st ↔ ∃ policy,
      policyByMemory.lookup memoryId = some policy ∧
      st = ⟨memoryId, head.revisionId, head.deletedAt.isSome, policy.policyId⟩ := by
  unfold currentStream
  rw [seq_eq_ok]
  simp only [required_eq_ok, pure_ok_inj]
  exact exists_congr fun _ => and_congr_right fun _ => eq_comm

variable {revisions : List CanonicalRevision} {policies : List PolicyRecord} {relationWatermark generation : Nat}
  {v : CurrentView}

/-- The entries of the head map are the last revisions of the memories. -/
theorem mem_entries_index :
    ⟨memoryId, head⟩ ∈ (index (·.memoryId) id revisions).entries ↔
      (memoryRevisions revisions memoryId).getLast? = some head := by
  rw [← AList.mem_lookup_iff, lookup_index, map_id]
  rfl

theorem rebuildCurrentView_eq_ok (h : rebuildCurrentView generation revisions policies relationWatermark = .ok v) :
    ∃ streams, (index (·.memoryId) id revisions).entries.mapM
        (fun entry => currentStream (index (·.memoryId) id policies) entry.1 entry.2) = .ok streams ∧
      v = { schema := currentViewSchema
            generation
            revisionWatermark := revisions.getLast?.elim 0 (·.sequence)
            policyWatermark := policies.getLast?.elim 0 (·.sequence)
            relationWatermark
            streams := streams.insertionSort fun left right => left.memoryId ≤ right.memoryId } := by
  obtain ⟨streams, hs, hv⟩ := of_seq h
  exact ⟨streams, hs, (pure_ok_inj.mp hv).symm⟩

theorem isViewOf_rebuild (h : rebuildCurrentView generation revisions policies relationWatermark = .ok v) :
    IsViewOf revisions policies v := by
  obtain ⟨streams, hs, rfl⟩ := rebuildCurrentView_eq_ok h
  have hperm := List.perm_insertionSort (fun left right => left.memoryId ≤ right.memoryId) streams
  have hkeys : streams.map (·.memoryId) = (index (·.memoryId) id revisions).keys := by
    refine map_of_mapM hs fun entry st hst => ?_
    obtain ⟨policy, -, rfl⟩ := currentStream_eq_ok.mp hst
    rfl
  refine ⟨?_, fun st => ?_, fun r hr => ?_⟩
  · rw [(hperm.map _).nodup_iff, hkeys]
    exact AList.keys_nodup _
  · rw [hperm.mem_iff, mem_of_mapM hs]
    constructor
    · rintro ⟨⟨memoryId, head⟩, hentry, hok⟩
      obtain ⟨policy, hpolicy, rfl⟩ := currentStream_eq_ok.mp hok
      rw [lookup_index, map_id] at hpolicy
      exact ⟨head, policy, mem_entries_index.mp hentry, hpolicy, rfl⟩
    · rintro ⟨head, policy, hhead, hpolicy, hst⟩
      refine ⟨⟨st.memoryId, head⟩, mem_entries_index.mpr hhead, currentStream_eq_ok.mpr ⟨policy, ?_, hst⟩⟩
      rw [lookup_index, map_id]
      exact hpolicy
  · have hm : r.memoryId ∈ streams.map (·.memoryId) := by
      rw [hkeys, ← AList.mem_keys, mem_index]
      exact ⟨r, hr, rfl⟩
    obtain ⟨st, hst, he⟩ := List.mem_map.mp hm
    exact ⟨st, hperm.mem_iff.mpr hst, he⟩

/-! ## Reading the view -/

section

variable {revisions : List CanonicalRevision} {policies : List PolicyRecord} {v : CurrentView}

section

variable (h : IsViewOf revisions policies v)
include h

theorem streamFor_eq_some : streamFor v memoryId = some st ↔ st ∈ v.streams ∧ st.memoryId = memoryId := by
  constructor
  · intro hst
    exact ⟨List.mem_of_find?_eq_some hst, by simpa using List.find?_some hst⟩
  · rintro ⟨hst, rfl⟩
    cases hf : streamFor v st.memoryId with
    | none => simpa using List.find?_eq_none.mp hf st hst
    | some st' =>
      have hm := List.mem_of_find?_eq_some hf
      have he : st'.memoryId = st.memoryId := by simpa using List.find?_some hf
      rw [List.inj_on_of_nodup_map h.nodup hm hst he]

/-- The stream of a memory is made of its last revision and its last policy. -/
theorem streamFor_eq :
    streamFor v memoryId = (memoryRevisions revisions memoryId).getLast?.bind fun head =>
      (memoryPolicies policies memoryId).getLast?.map fun policy =>
        ⟨memoryId, head.revisionId, head.deletedAt.isSome, policy.policyId⟩ := by
  ext st
  rw [streamFor_eq_some h, h.mem, bind_eq_some_iff]
  constructor
  · rintro ⟨⟨head, policy, hhead, hpolicy, hst⟩, rfl⟩
    exact ⟨head, hhead, map_eq_some_iff.mpr ⟨policy, hpolicy, hst.symm⟩⟩
  · rintro ⟨head, hhead, hst⟩
    obtain ⟨policy, hpolicy, rfl⟩ := map_eq_some_iff.mp hst
    exact ⟨⟨head, policy, hhead, hpolicy, rfl⟩, rfl⟩

/-- The head the view shows is the last revision of the memory. -/
theorem headFor_eq (memoryId : MemoryId) :
    headFor v memoryId = (memoryRevisions revisions memoryId).getLast?.map (·.revisionId) := by
  cases hl : (memoryRevisions revisions memoryId).getLast? with
  | none =>
    have hnone : streamFor v memoryId = none := by
      rw [eq_none_iff_forall_ne_some]
      intro st hst
      obtain ⟨hm, rfl⟩ := (streamFor_eq_some h).mp hst
      obtain ⟨head, _, hhead, _⟩ := (h.mem st).mp hm
      rw [hl] at hhead
      cases hhead
    rw [headFor, hnone]
    rfl
  | some head =>
    have hr := (mem_stream _).mp (List.mem_of_getLast? hl)
    obtain ⟨st, hst, he⟩ := h.total head hr.1
    rw [hr.2] at he
    have hs : streamFor v memoryId = some st := (streamFor_eq_some h).mpr ⟨hst, he⟩
    obtain ⟨head', _, hhead, _, hst'⟩ := (h.mem st).mp hst
    rw [he, hl] at hhead
    rw [headFor, hs, map_some, map_some, hst', some.inj hhead]

end

end

end Plico.Ledger
