import Plico.Proof.Ledger.Restart
import Plico.Proof.Ledger.Streams

/-!
# Compare and commit

Requests of any number of clients reach the writer in some order; a run is that order. Every revision
id is the parent of at most one revision (`parents_nodup`) and every memory has one root
(`roots_nodup`), and a successful request adds a revision for each head it carries, so no head is
consumed twice (`successes_le_count`). `runCommits_compareAndCommit` states this with what happens to a
request that carries a stale head and with the immutability of the logs.
-/

namespace Plico.Ledger

open Option List

/-! ## Each revision is the parent of one revision -/

section

variable {P : Platform} {r : CanonicalRevision} {memoryId : MemoryId}

theorem headIn_concat {log : List CanonicalRevision} :
    headIn (log ++ [r]) memoryId = if r.memoryId = memoryId then some r.revisionId else headIn log memoryId := by
  unfold headIn memoryRevisions
  split
  · rename_i h
    subst h
    rw [stream_concat_self, getLast?_concat, map_some]
  · next h => rw [stream_concat_of_ne _ h]

variable {log : List CanonicalRevision} {id : MemoryRevisionId}

theorem mem_of_headIn (h : headIn log memoryId = some id) : ∃ p ∈ log, p.memoryId = memoryId ∧ p.revisionId = id := by
  obtain ⟨p, hp, rfl⟩ := map_eq_some_iff.mp h
  obtain ⟨hm, hk⟩ := (mem_stream _).mp (mem_of_getLast? hp)
  exact ⟨p, hm, hk, rfl⟩

/-- A revision that has a parent has the head of its memory for parent. -/
theorem Admits.parent_eq (h : Admits P log r)
    (hp : r.parentRevisionId = some id) : headIn log r.memoryId = some id := by
  have hc := h.continues
  unfold headIn
  cases hl : (memoryRevisions log r.memoryId).getLast? with
  | none =>
    rw [hl] at hc
    exact absurd (hp.symm.trans hc.parentless) (by simp)
  | some parent =>
    rw [hl] at hc
    rw [map_some, ← hc.link, hp]

/-- Parents are in the log, are no heads any more, and are used once. -/
structure ParentsUsed (log : List CanonicalRevision) : Prop where
  known : ∀ q ∈ log, ∀ id, q.parentRevisionId = some id → ∃ p ∈ log, p.revisionId = id
  passed : ∀ q ∈ log, ∀ id, q.parentRevisionId = some id → ∀ memoryId, headIn log memoryId ≠ some id
  nodup : (log.filterMap (·.parentRevisionId)).Nodup

theorem ParentsUsed.concat (hn : (log.map (·.revisionId)).Nodup) (h : ParentsUsed log)
    (hr : Admits P log r) : ParentsUsed (log ++ [r]) := by
  have hknown : ∀ q ∈ log ++ [r], ∀ id, q.parentRevisionId = some id → ∃ p ∈ log, p.revisionId = id := by
    intro q hq id hid
    rcases mem_concat.mp hq with hq | rfl
    · exact h.known q hq id hid
    · obtain ⟨p, hp, -, he⟩ := mem_of_headIn (hr.parent_eq hid)
      exact ⟨p, hp, he⟩
  refine ⟨fun q hq id hid => ?_, fun q hq id hid memoryId => ?_, ?_⟩
  · obtain ⟨p, hp, he⟩ := hknown q hq id hid
    exact ⟨p, mem_append_left _ hp, he⟩
  · rw [headIn_concat]
    split
    · -- the new head is fresh, a parent is not
      obtain ⟨p, hp, he⟩ := hknown q hq id hid
      exact fun hi => hr.fresh p hp (he.trans (some.inj hi).symm)
    · rename_i hne
      rcases mem_concat.mp hq with hq | rfl
      · exact h.passed q hq id hid memoryId
      · intro hi
        obtain ⟨p, hp, hpm, hpi⟩ := mem_of_headIn hi
        obtain ⟨p', hp', hpm', hpi'⟩ := mem_of_headIn (hr.parent_eq hid)
        obtain rfl := eq_of_revisionId_eq hn hp hp' (hpi.trans hpi'.symm)
        exact hne (hpm'.symm.trans hpm)
  · rw [filterMap_append, nodup_append]
    refine ⟨h.nodup, ?_, fun a ha b hb => ?_⟩
    · cases hp : r.parentRevisionId <;> simp [hp]
    · rintro rfl
      obtain ⟨q, hq, hqa⟩ := mem_filterMap.mp ha
      have hra : r.parentRevisionId = some a := by simpa using hb
      exact h.passed q hq a hqa r.memoryId (hr.parent_eq hra)

theorem parentsUsed_of_grown (h : Grown (Admits P) log) : ParentsUsed log :=
  Grown.induction ⟨by simp, by simp, by simp⟩
    (fun _ _ hl ih hr => ih.concat (nodup_of_grown hl) hr) h

/-- The memory that a revision without parent starts. -/
def startedMemory (r : CanonicalRevision) : Option MemoryId :=
  if r.parentRevisionId = none then some r.memoryId else none

theorem roots_nodup (h : Grown (Admits P) log) : (log.filterMap startedMemory).Nodup := by
  have heq : log.filterMap startedMemory =
      (log.filter fun r => r.parentRevisionId = none).map (·.revisionId) := by
    rw [← filterMap_eq_filter, map_filterMap]
    refine filterMap_congr fun r hr => ?_
    by_cases hp : r.parentRevisionId = none
    · simp [startedMemory, hp, (starts_of_grown h hr hp).revisionId]
    · simp [startedMemory, hp]
  rw [heq]
  exact (nodup_of_grown h).sublist (filter_sublist.map _)

end

/-! ## Requests -/

variable {P : LedgerPlatform}

namespace CommitCall

/-- The request carries `ExpectedHead::Revision(id)`. -/
def updates (call : CommitCall) (id : MemoryRevisionId) : Bool :=
  call.items.any fun item => item.2 = .revision id

/-- The request carries `ExpectedHead::Absent` for the memory. -/
def creates (call : CommitCall) (memoryId : MemoryId) : Bool :=
  call.items.any fun item => item.1.memoryId = memoryId ∧ item.2 = .absent

end CommitCall

/-! ## Immutability -/

theorem run_prefix (l : CASCanonicalLedger) (call : CommitCall) (inputs : CommitInputs) :
    l.state.revisions <+: (call.run P l inputs).1.state.revisions ∧
      l.state.policies <+: (call.run P l inputs).1.state.policies := by
  rcases run_cases l call inputs with ⟨c, hc, hs, -⟩ | ⟨e, -, hr, hp⟩
  · rw [hs]
    exact ⟨⟨_, hc.revisions.symm⟩, ⟨_, hc.policies.symm⟩⟩
  · exact ⟨hr ▸ prefix_refl _, hp ▸ prefix_refl _⟩

theorem runCommits_prefix (l : CASCanonicalLedger) (calls : List (CommitCall × CommitInputs)) :
    l.state.revisions <+: (runCommits P l calls).state.revisions ∧
      l.state.policies <+: (runCommits P l calls).state.policies := by
  induction calls generalizing l with
  | nil => exact ⟨prefix_refl _, prefix_refl _⟩
  | cons call rest ih =>
    obtain ⟨hr, hp⟩ := run_prefix l call.1 call.2
    obtain ⟨hr', hp'⟩ := ih (call.1.run P l call.2).1
    exact ⟨hr.trans hr', hp.trans hp'⟩

/-! ## Successes -/

/-- The requests of a run that succeed, in order. -/
def successes (P : LedgerPlatform) : CASCanonicalLedger → List (CommitCall × CommitInputs) → List CommitCall
  | _, [] => []
  | l, call :: calls =>
    (if (call.1.run P l call.2).2.isOk then [call.1] else []) ++ successes P (call.1.run P l call.2).1 calls

variable {inputs : CommitInputs} {tier : MemoryTier} {roleId : String} {view : CurrentView} {κ : Type}
  {f : CanonicalRevision → Option κ}

/-- What the batch of a successful request adds to a log, read through a function of the revision
that stamping does not change. -/
theorem Prepared.filterMap_stamped {s : LedgerState}
    {revisions : List CanonicalRevision} {expectedHeads : List ExpectedHead} {c : PreparedCommit}
    (h : Prepared P s roleId tier revisions expectedHeads inputs c)
    (hf : ∀ roleId now sequence r, f (stamp roleId now sequence r) = f r) :
    c.revisions.filterMap f = s.revisions.filterMap f ++ revisions.filterMap f := by
  have hmap : (stampAll s roleId inputs.now revisions).map f = revisions.map f := by
    refine ext_getElem (by simp [stampAll]) fun i hi hi' => ?_
    simp [stampAll, hf]
  rw [h.revisions, h.newRevisions, filterMap_append]
  congr 1
  simpa only [filterMap_map, Function.id_comp] using congrArg (filterMap id) hmap

/-- If every admissible batch that carries `k` has a revision read as `k`, then at most as many requests
carrying `k` succeed as the log has such revisions in the end. -/
theorem successes_le_count [DecidableEq κ]
    (hf : ∀ roleId now sequence r, f (stamp roleId now sequence r) = f r) {p : CommitCall → Bool} {k : κ}
    (hcarries : ∀ call, p call = true →
      (∀ item ∈ call.items, item.1.parentRevisionId = item.2.id) → ∃ item ∈ call.items, f item.1 = some k)
    (l : CASCanonicalLedger) (calls : List (CommitCall × CommitInputs)) :
    (l.state.revisions.filterMap f).count k + (successes P l calls).countP p ≤
      ((runCommits P l calls).state.revisions.filterMap f).count k := by
  induction calls generalizing l with
  | nil => simp [successes, runCommits]
  | cons call rest ih =>
    rw [successes, countP_append]
    refine le_trans ?_ (ih (call.1.run P l call.2).1)
    rw [← Nat.add_assoc]
    refine Nat.add_le_add_right ?_ _
    rcases run_cases l call.1 call.2 with ⟨c, hc, hs, hok⟩ | ⟨e, herr, hr, -⟩
    · rw [hs, hok]
      show _ + List.countP p [call.1] ≤ (c.revisions.filterMap f).count k
      rw [hc.filterMap_stamped hf]
      by_cases hcarry : p call.1 = true
      · have hparents : ∀ item ∈ call.1.items, item.1.parentRevisionId = item.2.id := by
          intro item hitem
          obtain ⟨pre, post, heq⟩ := append_of_mem hitem
          have hadm := hc.batch pre item ⟨post, by rw [append_assoc]; exact heq.symm⟩
          exact (headMatches_iff.mp hadm.head).2
        obtain ⟨item, hitem, hk⟩ := hcarries call.1 hcarry hparents
        have hmem := mem_filterMap.mpr ⟨item.1, (of_mem_zip hitem).1, hk⟩
        simpa [hcarry] using count_pos_iff.mpr hmem
      · simp [hcarry]
    · rw [herr, hr]
      simp [Except.toBool]

/-! ## Stale heads -/

/-- The checks made before the head of `item` is compared pass: the request is for a durable tier, the
writer is healthy, the items before it are admitted, and it is on the boundary of the request. -/
structure ReachesHeadCheck (s : LedgerState) (call : CommitCall) (pre : List (CanonicalRevision × ExpectedHead))
    (item : CanonicalRevision × ExpectedHead) : Prop where
  durable : call.tier ≠ .ephemeral
  healthy : s.poisoned = false
  before : Grown (BatchAdmits call.roleId call.tier s.currentView) pre
  tier : item.1.cognitiveTier = call.tier
  author : item.2 = .absent → item.1.committedByRole = call.roleId
  fresh : ∀ q ∈ pre, q.1.memoryId ≠ item.1.memoryId

/-- An item on the boundary of the request is decided by its head. -/
theorem checkBatchItem_eq {pre : List (CanonicalRevision × ExpectedHead)} {item : CanonicalRevision × ExpectedHead}
    (htier : item.1.cognitiveTier = tier) (hauthor : item.2 = .absent → item.1.committedByRole = roleId)
    (hfresh : ∀ q ∈ pre, q.1.memoryId ≠ item.1.memoryId) :
    checkBatchItem roleId tier view (pre.map (·.1.memoryId)).reverse item =
      if headMatches item.1 (headFor view item.1.memoryId) item.2 = true then
        .ok ((pre ++ [item]).map (·.1.memoryId)).reverse
      else .error (.headConflict item.1.memoryId item.2 (headFor view item.1.memoryId)) := by
  have hbound : ¬ (item.1.cognitiveTier ≠ tier ∨ (item.2 = .absent ∧ item.1.committedByRole ≠ roleId)) := by
    simpa [htier] using hauthor
  have hseen : item.1.memoryId ∉ (pre.map (·.1.memoryId)).reverse := by
    simpa using fun r expected hq => hfresh (r, expected) hq
  rw [checkBatchItem, refuse_neg hbound, seq_ok, refuse_neg hseen, seq_ok]
  dsimp only
  split
  · rename_i hm
    rw [refuse_neg (by simp [hm]), map_append, reverse_append]
    rfl
  · next hm => rw [refuse_pos (by simpa using hm), seq_error]

theorem checkBatch_of_grown
    {batch : List (CanonicalRevision × ExpectedHead)} (h : Grown (BatchAdmits roleId tier view) batch) :
    batch.foldlM (checkBatchItem roleId tier view) [] = .ok (batch.map (·.1.memoryId)).reverse := by
  refine Grown.induction (I := fun batch => batch.foldlM (checkBatchItem roleId tier view) [] =
    .ok (batch.map (·.1.memoryId)).reverse) rfl (fun pre item _ ih hadm => ?_) h
  rw [foldlM_append, ih, seq_ok, foldlM_cons,
    checkBatchItem_eq hadm.tier hadm.author hadm.fresh, if_pos hadm.head]
  rfl

section

variable {s : LedgerState} {call : CommitCall} {pre post : List (CanonicalRevision × ExpectedHead)}
  {item : CanonicalRevision × ExpectedHead}

theorem prepareCommit_stale (hs : Sound P s) (hitems : call.items = pre ++ item :: post)
    (hstale : item.2.id ≠ s.head item.1.memoryId) :
    ∃ e, prepareCommit P s call.roleId call.tier call.revisions call.expectedHeads inputs = .error e := by
  cases hp : prepareCommit P s call.roleId call.tier call.revisions call.expectedHeads inputs with
  | error e => exact ⟨e, rfl⟩
  | ok c =>
    have hadm := (prepared_of_ok hp).batch pre item ⟨post, by rw [append_assoc]; exact hitems.symm⟩
    have hhead := (headMatches_iff.mp hadm.head).1
    rw [hs.headFor_eq] at hhead
    exact absurd hhead.symm hstale

theorem prepareCommit_headConflict (hs : Sound P s) (hitems : call.items = pre ++ item :: post)
    (hstale : item.2.id ≠ s.head item.1.memoryId) (hr : ReachesHeadCheck s call pre item) :
    prepareCommit P s call.roleId call.tier call.revisions call.expectedHeads inputs =
      .error (.headConflict item.1.memoryId item.2 (s.head item.1.memoryId)) := by
  have hne : call.revisions.isEmpty = false := by
    rw [isEmpty_eq_false_iff]
    rintro hnil
    rw [CommitCall.items, hnil] at hitems
    simp at hitems
  have hshape : ¬ (call.revisions.length ≠ call.expectedHeads.length ∨ call.revisions.isEmpty = true) := by
    simp [call.length_expectedHeads, hne]
  have hhead : ¬ headMatches item.1 (headFor s.currentView item.1.memoryId) item.2 = true := by
    rw [headMatches_iff, hs.headFor_eq]
    exact fun h => hstale h.1.symm
  -- the loop gets to the item and stops there
  have hloop : (call.revisions.zip call.expectedHeads).foldlM
      (checkBatchItem call.roleId call.tier s.currentView) [] =
      .error (.headConflict item.1.memoryId item.2 (s.head item.1.memoryId)) := by
    rw [show call.revisions.zip call.expectedHeads = pre ++ item :: post from hitems, foldlM_append,
      checkBatch_of_grown hr.before, seq_ok, foldlM_cons,
      checkBatchItem_eq hr.tier hr.author hr.fresh, if_neg hhead, seq_error, hs.headFor_eq]
  rw [prepareCommit, refuse_neg hshape, refuse_neg hr.durable,
    refuse_neg (by simp [hr.healthy])]
  show (List.foldlM (checkBatchItem call.roleId call.tier s.currentView) []
    (call.revisions.zip call.expectedHeads) >>= _) = _
  rw [hloop, seq_error]

end

variable {l : CASCanonicalLedger} {call : CommitCall}

theorem run_of_prepare_error {e : LedgerError}
    (h : prepareCommit P l.state call.roleId call.tier call.revisions call.expectedHeads inputs = .error e) :
    call.run P l inputs = (l, .error e) := by
  rw [run_eq_commitRecords, commitRecords, h]

/-! ## Compare and commit -/

/-- What holds of a run of requests from any number of clients, and of the next request after it. -/
structure CompareAndCommit (P : LedgerPlatform) (l : CASCanonicalLedger) (calls : List (CommitCall × CommitInputs)) :
    Prop where
  /-- At most one request that expects a given revision succeeds. -/
  one_update : ∀ id, (successes P l calls).countP (·.updates id) ≤ 1
  /-- At most one request that expects a memory to be absent succeeds. -/
  one_root : ∀ memoryId, (successes P l calls).countP (·.creates memoryId) ≤ 1
  /-- A request with a stale head changes nothing, and reports the head it lost against if it gets that far. -/
  stale : ∀ (call : CommitCall) inputs pre item post, call.items = pre ++ item :: post →
    item.2.id ≠ (runCommits P l calls).state.head item.1.memoryId →
    ∃ e, call.run P (runCommits P l calls) inputs = (runCommits P l calls, .error e) ∧
      (ReachesHeadCheck (runCommits P l calls).state call pre item →
        e = .headConflict item.1.memoryId item.2 ((runCommits P l calls).state.head item.1.memoryId))
  /-- The logs of every earlier state are prefixes of the logs of the state reached. -/
  immutable : ∀ pre post, calls = pre ++ post →
    (runCommits P l pre).state.revisions <+: (runCommits P l calls).state.revisions ∧
      (runCommits P l pre).state.policies <+: (runCommits P l calls).state.policies
  /-- What a request acknowledges is in the log. -/
  acknowledged : ∀ (call : CommitCall) inputs commits, (call.run P (runCommits P l calls) inputs).2 = .ok commits →
    ∀ commit ∈ commits, ∃ r ∈ (call.run P (runCommits P l calls) inputs).1.state.revisions,
      r.revisionId = commit.revisionId ∧ r.sequence = commit.revisionSequence ∧ r.committedAt = commit.committedAt

theorem run_acknowledged {commits : List LedgerCommit}
    (h : (call.run P l inputs).2 = .ok commits) {commit : LedgerCommit} (hc : commit ∈ commits) :
    ∃ r ∈ (call.run P l inputs).1.state.revisions,
      r.revisionId = commit.revisionId ∧ r.sequence = commit.revisionSequence ∧
        r.committedAt = commit.committedAt := by
  rcases run_cases l call inputs with ⟨c, hprep, hs, hok⟩ | ⟨e, herr, -⟩
  · rw [hok] at h
    cases h
    obtain ⟨r, hr, rfl⟩ := mem_map.mp hc
    refine ⟨r, ?_, rfl, rfl, ?_⟩
    · rw [hs]
      show r ∈ c.revisions
      exact hprep.revisions ▸ mem_append_right _ hr
    · rw [hprep.newRevisions] at hr
      obtain ⟨i, hi, rfl⟩ := mem_mapIdx.mp hr
      rfl
  · rw [herr] at h
    cases h

/-- Over any interleaving, heads are compared and consumed once and nothing committed changes. -/
theorem runCommits_compareAndCommit (P : LedgerPlatform) (st : LedgerStorage) (rootHash viewHash : String)
    (calls : List (CommitCall × CommitInputs)) : CompareAndCommit P ⟨st, .genesis rootHash viewHash⟩ calls := by
  have hs := Sound.run (l := ⟨st, .genesis rootHash viewHash⟩) (sound_genesis (P := P) rootHash viewHash) calls
  refine ⟨fun id => ?_, fun memoryId => ?_, fun call inputs pre item post hitems hstale => ?_, ?_,
    fun _ _ _ h _ => run_acknowledged h⟩
  · have hle := successes_le_count (P := P) (f := (·.parentRevisionId)) (fun _ _ _ _ => rfl)
      (p := fun call => call.updates id) (k := id) (fun call hcarry hparents => ?_)
      ⟨st, .genesis rootHash viewHash⟩ calls
    · have := nodup_iff_count_le_one.mp (parentsUsed_of_grown hs.grown).nodup id
      omega
    · obtain ⟨item, hitem, he⟩ := any_eq_true.mp hcarry
      refine ⟨item, hitem, ?_⟩
      rw [hparents item hitem, of_decide_eq_true he]
      rfl
  · have hle := successes_le_count (P := P) (f := startedMemory) (fun _ _ _ _ => rfl)
      (p := fun call => call.creates memoryId) (k := memoryId) (fun call hcarry hparents => ?_)
      ⟨st, .genesis rootHash viewHash⟩ calls
    · have := nodup_iff_count_le_one.mp (roots_nodup hs.grown) memoryId
      omega
    · obtain ⟨item, hitem, he⟩ := any_eq_true.mp hcarry
      obtain ⟨hm, ha⟩ := of_decide_eq_true he
      have hp := hparents item hitem
      rw [ha] at hp
      exact ⟨item, hitem, by simp [startedMemory, hp, ExpectedHead.id, hm]⟩
  · obtain ⟨e, he⟩ := prepareCommit_stale hs hitems hstale
    refine ⟨e, run_of_prepare_error he, fun hr => ?_⟩
    rw [prepareCommit_headConflict hs hitems hstale hr] at he
    exact (Except.error.inj he).symm
  · rintro pre post rfl
    rw [runCommits_append]
    exact runCommits_prefix _ post

/-- A stale head is not what a request for an ephemeral tier is told about. -/
theorem ephemeral_before_headConflict :
    (ExpectedHead.revision sampleMemory).id ≠ sampleGenesis.head sampleMemory ∧
      (CommitCall.run sampleObjects.platform ⟨.empty, sampleGenesis⟩
        (.expected "role-a" .ephemeral (.revision sampleMemory) sampleRevision) sampleInputs).2 =
          .error (.invalid "ephemeral_revision_not_durable") :=
  ⟨by decide, rfl⟩

end Plico.Ledger
