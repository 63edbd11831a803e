import Plico.Framework.Run
import Plico.Model.Layered.Recall
import Plico.Model.Projection.Snapshot
import Plico.Proof.Layered.Runtime
import Plico.Proof.Ledger.Loader

/-!
# Who may read a revision

`ReadableHead` is the rule: the last revision of a memory, unless it is a tombstone, for the readers of
the memory's last policy. Three functions decide it in three ways, and on every ledger whose logs
validate (`Validated`) each decides exactly this rule. The proof that `withAuthorizedCurrentRevision`
hands out carries the roots back to genesis, so it also needs them to be readable (`Rooted`); a poisoned
ledger hands out none, while the other two go on answering.
-/

namespace Plico.Layered

open ObjectStore Option List Plico.Ledger Plico.Projection CASCanonicalLedger

variable {P : LedgerPlatform} {s : LedgerState} {l : CASCanonicalLedger} {st : LedgerStorage}
  {roleId : String} {id : MemoryRevisionId}

/-! ## The rule -/

def IsHead (s : LedgerState) (r : CanonicalRevision) : Prop :=
  (memoryRevisions s.revisions r.memoryId).getLast? = some r

/-- The role may read the revision `id`. -/
def ReadableHead (s : LedgerState) (roleId : String) (id : MemoryRevisionId) : Prop :=
  ∃ r, r.revisionId = id ∧ IsHead s r ∧ r.deletedAt = none ∧
    ∃ policy, (memoryPolicies s.policies r.memoryId).getLast? = some policy ∧ roleId ∈ policy.readerRoles

/-- The view shows `id` as the head of a stream that is not deleted. -/
def ShownHead (s : LedgerState) (id : MemoryRevisionId) : Prop :=
  ∃ view, s.view = some view ∧ ∃ stream ∈ view.streams, stream.headRevisionId = id ∧ stream.deleted = false

/-- The logs are valid and the view shows them. -/
structure Validated (P : LedgerPlatform) (s : LedgerState) : Prop where
  revisions : Grown (Admits P.toPlatform) s.revisions
  policies : Grown (PolicyAdmits P.toPlatform s.revisions) s.policies
  view : ∃ view, s.view = some view ∧ IsViewOf s.revisions s.policies view

variable {r : CanonicalRevision} {q : CanonicalRevision}

theorem IsHead.mem (h : IsHead s r) : r ∈ s.revisions :=
  ((mem_stream _).mp (mem_of_getLast? h)).1

section

variable (h : Validated P s)
include h

theorem Validated.find_revision (hr : r ∈ s.revisions) :
    (s.revisions.find? fun q => q.revisionId = r.revisionId) = some r :=
  find?_of_nodup_map (nodup_of_grown h.revisions) hr

theorem Validated.eq_of_id (hr : r ∈ s.revisions) (hq : q ∈ s.revisions) (he : r.revisionId = q.revisionId) : r = q :=
  inj_on_of_nodup_map (nodup_of_grown h.revisions) hr hq he

/-- A stream of the view is the head of a memory with the memory's last policy, which its id finds. -/
structure Shows (s : LedgerState) (r : CanonicalRevision) (policy : PolicyRecord) (stream : CurrentStream) : Prop where
  head : IsHead s r
  last : (memoryPolicies s.policies r.memoryId).getLast? = some policy
  found : (s.policies.find? fun p => p.policyId = policy.policyId) = some policy
  eq : stream = ⟨r.memoryId, r.revisionId, r.deletedAt.isSome, policy.policyId⟩

theorem Validated.shows {view : CurrentView} (hview : s.view = some view) {stream : CurrentStream}
    (hstream : stream ∈ view.streams) : ∃ r policy, Shows s r policy stream := by
  obtain ⟨_, hv, hshows⟩ := h.view
  cases hview.symm.trans hv
  obtain ⟨head, policy, hhead, hpolicy, heq⟩ := (hshows.mem stream).mp hstream
  have hmemory := ((mem_stream _).mp (mem_of_getLast? hhead)).2
  have hmem := ((mem_stream _).mp (mem_of_getLast? hpolicy)).1
  rw [← hmemory] at hhead hpolicy heq
  exact ⟨head, policy, hhead, hpolicy, find?_of_nodup_map (policyIds_nodup h.policies) hmem, heq⟩

/-- What the paths look up for a revision: the stream of its memory. -/
theorem Validated.stream (hr : r ∈ s.revisions) :
    ∃ view stream head policy, s.view = some view ∧ stream ∈ view.streams ∧ Shows s head policy stream ∧
      head.memoryId = r.memoryId ∧ (s.view.bind fun view => streamFor view r.memoryId) = some stream := by
  obtain ⟨view, hview, hshows⟩ := h.view
  obtain ⟨stream, hstream, hmemory⟩ := hshows.total r hr
  obtain ⟨head, policy, hs⟩ := h.shows hview hstream
  refine ⟨view, stream, head, policy, hview, hstream, hs, by rw [← hmemory, hs.eq], ?_⟩
  rw [hview]
  exact (streamFor_eq_some hshows).mpr ⟨hstream, hmemory⟩

end

theorem IsHead.eq (hr : IsHead s r) (hq : IsHead s q) (he : r.memoryId = q.memoryId) : r = q := by
  rw [IsHead, he, hq] at hr
  exact (some.inj hr).symm

/-- A head is shown by the stream of its memory. -/
theorem Validated.shows_head (h : Validated P s) (hhead : IsHead s r) :
    ∃ view stream policy, s.view = some view ∧ stream ∈ view.streams ∧ Shows s r policy stream ∧
      (s.view.bind fun view => streamFor view r.memoryId) = some stream := by
  obtain ⟨view, stream, head, policy, hview, hstream, hs, hmemory, hfor⟩ := h.stream hhead.mem
  obtain rfl := hs.head.eq hhead hmemory
  exact ⟨view, stream, policy, hview, hstream, hs, hfor⟩

theorem Validated.shownHead_iff (h : Validated P s) :
    ShownHead s id ↔ ∃ r, r.revisionId = id ∧ IsHead s r ∧ r.deletedAt = none := by
  constructor
  · rintro ⟨view, hview, stream, hstream, rfl, hlive⟩
    obtain ⟨r, policy, hs⟩ := h.shows hview hstream
    rw [hs.eq] at hlive
    exact ⟨r, by rw [hs.eq], hs.head, by simpa using hlive⟩
  · rintro ⟨r, rfl, hhead, hlive⟩
    obtain ⟨view, stream, policy, hview, hstream, hs, -⟩ := h.shows_head hhead
    exact ⟨view, hview, stream, hstream, by rw [hs.eq], by rw [hs.eq, hlive]; rfl⟩

/-! ## The list of readable revisions -/

/-- The ids a role may read, in order and each once. -/
structure ListsReadable (s : LedgerState) (roleId : String) (ids : List MemoryRevisionId) : Prop where
  sorted : ids.Pairwise (· ≤ ·)
  nodup : ids.Nodup
  mem : ∀ id, id ∈ ids ↔ ReadableHead s roleId id

theorem Validated.listed (h : Validated P s) (roleId : String) :
    ∃ ids, readableActiveRevisionIds s roleId = .ok ids ∧ ListsReadable s roleId ids := by
  obtain ⟨view, hview, hshows⟩ := h.view
  unfold readableActiveRevisionIds
  rw [hview]
  refine ⟨_, rfl, ?_, ?_, fun id => ?_⟩
  · refine (pairwise_mergeSort (fun a b c hab hbc => ?_) (fun a b => ?_) _).imp fun hab => by simpa using hab
    · simp only [decide_eq_true_eq] at hab hbc ⊢
      exact le_trans hab hbc
    · simpa using le_total a b
  · rw [(mergeSort_perm _ _).nodup_iff, List.Nodup, pairwise_filterMap]
    have hstreams := (List.Nodup.of_map _ hshows.nodup).filter fun stream => !stream.deleted
    refine hstreams.imp_of_mem fun {a b} ha hb hne x hx y hy hxy => hne ?_
    obtain ⟨_, -, rfl⟩ := map_eq_some_iff.mp hx
    obtain ⟨_, -, rfl⟩ := map_eq_some_iff.mp hy
    -- two streams with one head are the streams of one memory
    have hma := (mem_filter.mp ha).1
    have hmb := (mem_filter.mp hb).1
    obtain ⟨r, policy, hs⟩ := h.shows hview hma
    obtain ⟨r', policy', hs'⟩ := h.shows hview hmb
    rw [hs.eq, hs'.eq] at hxy
    obtain rfl := h.eq_of_id hs.head.mem hs'.head.mem hxy
    exact inj_on_of_nodup_map hshows.nodup hma hmb (by rw [hs.eq, hs'.eq])
  · rw [mem_mergeSort, mem_filterMap]
    constructor
    · rintro ⟨stream, hstream, hsome⟩
      obtain ⟨hstream, hlive⟩ := mem_filter.mp hstream
      obtain ⟨policy, hpolicy, rfl⟩ := map_eq_some_iff.mp hsome
      obtain ⟨hfind, hreader⟩ := filter_eq_some_iff.mp hpolicy
      obtain ⟨r, policy', hs⟩ := h.shows hview hstream
      rw [hs.eq, hs.found] at hfind
      cases hfind
      rw [hs.eq] at hlive ⊢
      exact ⟨r, rfl, hs.head, by simpa using hlive, _, hs.last, by simpa using hreader⟩
    · rintro ⟨r, rfl, hhead, hlive, policy, hpolicy, hreader⟩
      obtain ⟨_, stream, policy', hv, hstream, hs, -⟩ := h.shows_head hhead
      cases hview.symm.trans hv
      cases hpolicy.symm.trans hs.last
      refine ⟨stream, mem_filter.mpr ⟨hstream, by rw [hs.eq, hlive]; rfl⟩, ?_⟩
      rw [hs.eq, hs.found, filter_some_pos (by simpa using hreader)]
      rfl

/-! ## The origin of a revision -/

theorem Validated.origin_iff (h : Validated P s) :
    ((∃ origin, originForRevision s roleId id false = .ok (some origin)) ∧ ShownHead s id) ↔
      ReadableHead s roleId id := by
  rw [h.shownHead_iff]
  constructor
  · rintro ⟨⟨origin, horigin⟩, r, rfl, hhead, hlive⟩
    obtain ⟨_, stream, policy, -, -, hs, hstream⟩ := h.shows_head hhead
    simp only [originForRevision, h.find_revision hhead.mem, hstream, hs.eq, hs.found, required_some, seq_ok,
      pure_ok_inj, ite_none_right_eq_some] at horigin
    exact ⟨r, rfl, hhead, hlive, policy, hs.last, horigin.1⟩
  · rintro ⟨r, rfl, hhead, hlive, policy, hpolicy, hreader⟩
    obtain ⟨_, stream, policy', -, -, hs, hstream⟩ := h.shows_head hhead
    cases hpolicy.symm.trans hs.last
    refine ⟨⟨policy.originRoleId, ?_⟩, r, rfl, hhead, hlive⟩
    simp only [originForRevision, h.find_revision hhead.mem, hstream, hs.eq, hs.found, required_some, seq_ok,
      Bool.false_eq_true, if_false, if_pos hreader]
    rfl

/-! ## The proof of a current revision -/

/-- A proof is granted, and it is about the revision `id`. -/
def Granted (P : LedgerPlatform) (l : CASCanonicalLedger) (roleId : String) (id : MemoryRevisionId) : Prop :=
  ∃ proof, withAuthorizedCurrentRevision P l roleId id (fun proof => proof) = .ok (some proof) ∧
    proof.source.revisionId = id

theorem Validated.granted_iff (h : Validated P l.state) (hp : l.state.poisoned = false)
    (hsnap : ∃ c, projectionSnapshotFromState P l.storage l.state = .ok c) :
    Granted P l roleId id ↔ ReadableHead l.state roleId id := by
  obtain ⟨c, hsnap⟩ := hsnap
  unfold Granted withAuthorizedCurrentRevision
  rw [refuse_neg (by simp [hp])]
  constructor
  · rintro ⟨proof, hproof, -⟩
    split at hproof
    · cases hproof
    rename_i r hfind
    have hr := mem_of_find?_eq_some hfind
    have hid : r.revisionId = id := by simpa using find?_some hfind
    obtain ⟨_, stream, head, policy, -, -, hs, hmemory, hstream⟩ := h.stream hr
    simp only [hstream, hs.eq] at hproof
    split at hproof
    · cases hproof
    rename_i hcurrent
    simp only [not_or, not_not, not_isSome_iff_eq_none] at hcurrent
    obtain rfl := h.eq_of_id hs.head.mem hr hcurrent.2.1
    split at hproof
    · rename_i hpolicy
      obtain ⟨p, hpm, hpid, -, hreader⟩ := hpolicy
      obtain rfl := inj_on_of_nodup_map (policyIds_nodup h.policies) hpm
        (mem_of_find?_eq_some hs.found) hpid
      exact ⟨head, hid, hs.head, hcurrent.2.2, p, hs.last, hreader⟩
    · cases hproof
  · rintro ⟨r, rfl, hhead, hlive, policy, hpolicy, hreader⟩
    obtain ⟨_, stream, policy', -, -, hs, hstream⟩ := h.shows_head hhead
    cases hpolicy.symm.trans hs.last
    have hpm := (mem_stream _).mp (mem_of_getLast? hs.last)
    simp only [h.find_revision hhead.mem, hstream, hs.eq]
    rw [if_neg (by simp [hlive]), if_pos ⟨policy, hpm.1, rfl, hpm.2, hreader⟩, hsnap]
    exact ⟨_, rfl, rfl⟩

/-! ## The roots of a ledger -/

/-- The roots back to genesis can be read from the store. -/
def Rooted (P : LedgerPlatform) (st : LedgerStorage) (s : LedgerState) : Prop :=
  ∃ hash root older, s.rootHash = some hash ∧ s.root = some root ∧
    Linked (readRoot P st) (·.previousRootHash) (some hash) ((hash, root) :: older) ∧
    ((hash, root) :: older).Pairwise fun x y => y.2.generation < x.2.generation

variable {st' : LedgerStorage} {root : LedgerRoot} {inputs : CommitInputs} {hash : String}

theorem readRoot_mono (he : st.Extends st') (h : readRoot P st hash = .ok root) : readRoot P st' hash = .ok root := by
  obtain ⟨value, hread, h⟩ := of_seq h
  exact seq_eq_ok.mpr ⟨value, readHashedObject_mono he hread, h⟩

theorem mem_keys_of_readRoot (h : readRoot P st hash = .ok root) : hash ∈ st.keys := by
  obtain ⟨value, hread, -⟩ := of_seq h
  obtain ⟨bytes, hget, -⟩ := of_seq hread
  rw [mapError_ok_iff] at hget
  obtain ⟨_, -, hget⟩ := of_seq hget
  rw [mapError_ok_iff, get_eq_ok] at hget
  exact mem_keys_of_lookup hget

theorem Rooted.mono (h : Rooted P st s) (he : st.Extends st') : Rooted P st' s := by
  obtain ⟨hash, root, older, hhash, hroot, hlinked, hfalling⟩ := h
  exact ⟨hash, root, older, hhash, hroot, hlinked.mono fun _ _ => readRoot_mono he, hfalling⟩

theorem Rooted.snapshot (h : Rooted P st s) : ∃ c, projectionSnapshotFromState P st s = .ok c := by
  obtain ⟨hash, root, older, hhash, hroot, hlinked, hfalling⟩ := h
  obtain _ | ⟨-, hlinked⟩ := hlinked
  have hnodup := hlinked.nodup_keys (pairwise_cons.mp hfalling).2
  have hlength := hlinked.length_le hnodup fun _ _ => mem_keys_of_readRoot
  unfold projectionSnapshotFromState
  rw [hhash, required_some, seq_ok, hroot, required_some, seq_ok,
    walk_of_linked hlinked hnodup (Nat.le_succ_of_le hlength), seq_ok]
  obtain ⟨genesis, hgenesis⟩ := isSome_iff_exists.mp
    (show (((hash, root) :: older).reverse).head?.isSome by simp)
  simp only [hgenesis]
  exact ⟨_, rfl⟩

theorem falling_cons {x y : String × LedgerRoot} {l : List (String × LedgerRoot)}
    (hlt : y.2.generation < x.2.generation) (h : (y :: l).Pairwise fun x y => y.2.generation < x.2.generation) :
    (x :: y :: l).Pairwise fun x y => y.2.generation < x.2.generation :=
  have : IsTrans _ fun x y : String × LedgerRoot => y.2.generation < x.2.generation :=
    ⟨fun _ _ _ hxy hyz => hyz.trans hxy⟩
  pairwise_cons_cons_iff_of_trans.mpr ⟨hlt, h⟩

/-- The chain that the loader validates is readable, and its generations count down. -/
theorem linked_of_validate {generation : Nat} {seen : List String} {u : Unit}
    (h : validateRootChain P st generation seen hash root = .ok u) (hread : readRoot P st hash = .ok root) :
    root.generation = generation ∧ ∃ older,
      Linked (readRoot P st) (·.previousRootHash) (some hash) ((hash, root) :: older) ∧
        ((hash, root) :: older).Pairwise fun x y => y.2.generation < x.2.generation := by
  induction generation generalizing seen hash root with
  | zero =>
    obtain ⟨_, hshape, h⟩ := of_seq h
    obtain ⟨⟨⟩, -, h⟩ := of_seq h
    rw [refuse_eq_ok, not_or, not_or, not_not, not_not] at hshape
    split at h
    · cases h
    · next hprevious => exact ⟨hshape.2.2, [], .cons hread (by rw [hprevious]; exact .nil), by simp⟩
  | succ generation ih =>
    obtain ⟨_, hshape, h⟩ := of_seq h
    obtain ⟨⟨⟩, -, h⟩ := of_seq h
    rw [refuse_eq_ok, not_or, not_or, not_not, not_not] at hshape
    split at h
    · rename_i previousHash hprevious
      obtain ⟨previous, hstored, ⟨⟩, hverified, ⟨⟩, -, h⟩ := of_seq₃ h
      obtain ⟨⟨⟩, -, h⟩ := of_seq h
      have hread' : readRoot P st previousHash = .ok previous := by
        rw [readRoot, hstored, seq_ok, hverified]
        rfl
      obtain ⟨hgeneration, older, hlinked, hfalling⟩ := ih h hread'
      exact ⟨hshape.2.2, _, .cons hread (by rw [hprevious]; exact hlinked),
        falling_cons (by rw [hshape.2.2, hgeneration]; exact Nat.lt_succ_self _) hfalling⟩
    · cases h

/-! ## Runs -/

/-- What opening a ledger establishes and every request keeps. -/
structure Readable (P : LedgerPlatform) (l : CASCanonicalLedger) : Prop where
  validated : Validated P l.state
  rooted : Rooted P l.storage l.state

theorem readable_of_new (hviews : FaithfulViews P) (h : new P st = .ok l) : Readable P l := by
  obtain ⟨storage, -, h⟩ := of_seq h
  obtain ⟨state, hload, h⟩ := of_seq h
  cases h
  obtain ⟨hash, root, logs, view, h⟩ := loaded_of_ok hviews hload
  have hread : readRoot P storage hash = .ok root := by
    rw [readRoot, h.stored, seq_ok, h.verified]
    rfl
  obtain ⟨-, older, hlinked, hfalling⟩ := linked_of_validate h.chain hread
  obtain rfl := h.state
  exact ⟨⟨validateRevisions_grown h.validRevisions, validatePolicies_grown h.validPolicies, view, rfl,
    isViewOf_rebuild h.loads.rebuilt⟩, _, root, older, rfl, rfl, hlinked, hfalling⟩

/-- A commit whose objects are written puts its root before the others. -/
theorem Rooted.commit {tier : MemoryTier} {revisions : List CanonicalRevision} {expectedHeads : List ExpectedHead}
    {c : PreparedCommit} (h : Rooted P st s)
    (hc : Prepared P s roleId tier revisions expectedHeads inputs c) (hrt : P.root.RoundTrips c.root)
    (hw : writeObjects st c.objects inputs.putFaults = (st', .ok ())) : Rooted P st' (c.apply s) := by
  obtain ⟨hash, root, older, hhash, hroot, hlinked, hfalling⟩ := h.mono (writeObjects_extends hw).1
  obtain ⟨_, _, _, rootBytes, henc⟩ := encoded_of_ok hc.encoded
  have hwritten := lookup_of_writeObjects hw (by rw [henc.objects]; simp : (c.rootHash, rootBytes) ∈ c.objects)
  rw [henc.rootHash] at hwritten
  have hstored : Stored P Ledger.rootDomain P.root st' c.rootHash c.root := by
    rw [henc.rootHash]
    exact Stored.of_lookup henc.root_bytes hrt hwritten.1 hwritten.2
  have hread : readRoot P st' c.rootHash = .ok c.root := by
    rw [readRoot, readHashedObject_of_stored hstored, seq_ok, verifyRootHash, verifyHash_of_stored hstored]
    rfl
  have hprevious : c.root.previousRootHash = some hash := by rw [henc.root, ← hhash]; rfl
  have hgeneration : c.root.generation = root.generation + 1 := by
    rw [henc.root]
    rw [henc.generation, hroot]
    rfl
  exact ⟨c.rootHash, c.root, _, rfl, rfl, .cons hread (by rw [hprevious]; exact hlinked),
    falling_cons (hgeneration ▸ Nat.lt_succ_self _) hfalling⟩

/-- Decoding gives back the root of the commit. -/
def RootRoundTrips (P : LedgerPlatform) (l : CASCanonicalLedger) (call : CommitCall × CommitInputs) : Prop :=
  ∀ c, prepareCommit P l.state call.1.roleId call.1.tier call.1.revisions call.1.expectedHeads call.2 = .ok c →
    P.root.RoundTrips c.root

theorem Readable.step (l : CASCanonicalLedger) (call : CommitCall × CommitInputs) (h : Readable P l)
    (hrt : RootRoundTrips P l call) : Readable P (call.1.run P l call.2).1 := by
  have hout := run_outcome (P := P) l call.1 call.2
  generalize call.1.run P l call.2 = out at hout ⊢
  cases hout with
  | refused _ => exact h
  | interrupted _ hw | unpublished _ hw => exact ⟨h.validated, h.rooted.mono (writeObjects_extends hw).1⟩
  | indeterminate _ hw _ _ =>
    obtain ⟨hash, root, older, hroots⟩ := (h.rooted.mono (writeObjects_extends hw).1).mono (publish_extends _ _ _)
    exact ⟨⟨h.validated.revisions, h.validated.policies, h.validated.view⟩, hash, root, older, hroots⟩
  | committed hprep hw _ _ =>
    have hc := prepared_of_ok hprep
    obtain ⟨_, _, _, _, henc⟩ := encoded_of_ok hc.encoded
    refine ⟨⟨validateRevisions_grown hc.validRevisions, validatePolicies_grown hc.validPolicies, _, rfl,
      isViewOf_rebuild henc.view⟩, ?_⟩
    exact (h.rooted.commit hc (hrt _ hprep) hw).mono (publish_extends _ _ _)

/-- The ids that a role may read, and what the other two paths say of them. -/
structure ReadPathsAgree (P : LedgerPlatform) (l : CASCanonicalLedger) (roleId : String)
    (ids : List MemoryRevisionId) : Prop where
  sorted : ids.Pairwise (· ≤ ·)
  nodup : ids.Nodup
  one_per_memory : ∀ r ∈ l.state.revisions, ∀ q ∈ l.state.revisions, r.revisionId ∈ ids → q.revisionId ∈ ids →
    r.memoryId = q.memoryId → r = q
  origin : ∀ id, id ∈ ids ↔
    (∃ origin, originForRevision l.state roleId id false = .ok (some origin)) ∧ ShownHead l.state id
  granted : l.state.poisoned = false → ∀ id, id ∈ ids ↔ Granted P l roleId id
  poisoned : l.state.poisoned = true → ∀ id,
    withAuthorizedCurrentRevision P l roleId id (fun proof => proof) = .error .writerPoisoned

/-- In every state that is reached from an opened ledger the paths agree, as long as it is not poisoned. A poisoned one
grants no proof, and the other two paths go on agreeing. -/
theorem readPaths_agree (hviews : FaithfulViews P) (hopen : new P st = .ok l)
    (calls : List (CommitCall × CommitInputs))
    (hrt : Throughout (fun l call => (call.1.run P l call.2).1) (RootRoundTrips P) l calls) (roleId : String) :
    ∃ ids, readableActiveRevisionIds (runCommits P l calls).state roleId = .ok ids ∧
      ReadPathsAgree P (runCommits P l calls) roleId ids := by
  have h : Readable P (runCommits P l calls) := hrt.invariant Readable.step (readable_of_new hviews hopen)
  obtain ⟨ids, hids, hlists⟩ := h.validated.listed roleId
  refine ⟨ids, hids, hlists.sorted, hlists.nodup, fun r hr q hq hrid hqid hmemory => ?_, fun id => ?_,
    fun hp id => ?_, fun hp id => ?_⟩
  · obtain ⟨r', hrid, hrhead, -⟩ := (hlists.mem _).mp hrid
    obtain ⟨q', hqid, hqhead, -⟩ := (hlists.mem _).mp hqid
    obtain rfl := h.validated.eq_of_id hrhead.mem hr hrid
    obtain rfl := h.validated.eq_of_id hqhead.mem hq hqid
    exact hrhead.eq hqhead hmemory
  · exact (hlists.mem id).trans h.validated.origin_iff.symm
  · exact (hlists.mem id).trans (h.validated.granted_iff hp h.rooted.snapshot).symm
  · rw [withAuthorizedCurrentRevision, refuse_pos hp]
    rfl

/-- The role that wrote the sample memory may read it, by all three paths. -/
theorem readPaths_agree_sample :
    Granted sampleObjects.platform (runCommits sampleObjects.platform sampleLedger [(sampleCall, sampleInputs)])
      "role-a" sampleMemory := by
  obtain ⟨ids, hids, hagree⟩ := readPaths_agree sampleObjects_distinct.faithfulViews sampleLedger_eq
    [(sampleCall, sampleInputs)] ⟨fun _ _ => Serde.listed_roundTrips sampleObjects_distinct.roots _, trivial⟩ "role-a"
  refine (hagree.granted sample_committed.2 sampleMemory).mp ?_
  have hlisted : (readableActiveRevisionIds (runCommits sampleObjects.platform sampleLedger
      [(sampleCall, sampleInputs)]).state "role-a").toOption = some [sampleMemory] := by
    decide +kernel
  rw [hids] at hlisted
  rw [some.inj hlisted]
  exact mem_singleton_self _

/-- The deletion of the sample memory, whose publication is not known to have reached the disk. -/
def indeterminateDelete : CommitCall × CommitInputs :=
  (.expected "role-a" .working (.revision sampleMemory)
    { sampleRevision with
      revisionId := tombstoneId
      parentRevisionId := some sampleMemory
      deletedAt := some tombstoneInputs.now },
    { tombstoneInputs with publishFault := .unsynced })

/-- The ledger is poisoned: the memory is still listed and has its origin, but no proof is granted. -/
theorem poisoned_grants_no_proof :
    (new tombstoneObjects.platform .empty).toOption.map (fun l =>
      let poisoned := runCommits tombstoneObjects.platform l [(sampleCall, sampleInputs), indeterminateDelete]
      ((readableActiveRevisionIds poisoned.state "role-a").toOption,
        (originForRevision poisoned.state "role-a" sampleMemory false).toOption,
        (withAuthorizedCurrentRevision tombstoneObjects.platform poisoned "role-a" sampleMemory
          fun proof => proof.source.revisionId).toOption)) =
      some (some [sampleMemory], some (some "role-a"), none) := by
  decide +kernel

end Plico.Layered
