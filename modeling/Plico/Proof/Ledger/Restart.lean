import Plico.Model.Ledger.Json
import Plico.Proof.Ledger.History

/-!
# Restart refines the writer

The writer extends its state generation by generation; the loader rebuilds it from the objects alone.
`restart_refines`: after any run of requests, whichever writes fail, a writer that is not poisoned and
a loader agree on everything, and a crash at any point of a commit leaves a store that loads as the
state before that commit or as the state after it.

The JSON codecs are assumed to decode the objects that the run writes (`RunRoundTrips`). Hashes need
no assumption: a write under a taken hash succeeds only with the same bytes.
-/

namespace Plico.Ledger

open Option ObjectStore List Stored Serde CASCanonicalLedger

variable {P : LedgerPlatform}

/-! ## The codecs on the objects written -/

/-- Decoding gives back the objects of a commit. -/
structure CommitRoundTrips (P : LedgerPlatform) (s : LedgerState) (c : PreparedCommit) : Prop where
  revisions : P.revisionSegment.RoundTrips (revisionSegmentOf s c.newRevisions)
  policies : P.policySegment.RoundTrips (policySegmentOf s (c.policies.drop s.policies.length))
  view : P.view.RoundTrips c.view
  root : P.root.RoundTrips c.root
  pointer : P.pointer.RoundTrips (activePointer c.rootHash)

def CallRoundTrips (P : LedgerPlatform) (l : CASCanonicalLedger) (call : CommitCall) (inputs : CommitInputs) : Prop :=
  ∀ c, prepareCommit P l.state call.roleId call.tier call.revisions call.expectedHeads inputs = .ok c →
    CommitRoundTrips P l.state c

/-- Decoding gives back the objects of every commit of the run. -/
def RunRoundTrips (P : LedgerPlatform) : CASCanonicalLedger → List (CommitCall × CommitInputs) → Prop :=
  Throughout (fun l call => (call.1.run P l call.2).1) fun l call => CallRoundTrips P l call.1 call.2

/-- Decoding gives back the objects of genesis. -/
structure GenesisRoundTrips (P : LedgerPlatform) : Prop where
  view : P.view.RoundTrips genesisView
  root : ∀ viewHash, P.root.RoundTrips (genesisRoot viewHash)
  pointer : ∀ rootHash, P.pointer.RoundTrips (activePointer rootHash)

/-! ## Committing extends the history -/

variable {st : LedgerStorage} {hash : String} {bytes : Bytes} {st' : LedgerStorage}

theorem points_of_publish {fault : PublishFault}
    (hv : P.pointer.toVec (activePointer hash) = some bytes) (hr : P.pointer.RoundTrips (activePointer hash))
    (hf : fault ≠ .lost) : Points P (st.publish bytes fault) hash := by
  have hd := hr bytes hv
  have hne : bytes ≠ [] := by
    rintro rfl
    rw [P.pointer.fromSlice_nil] at hd
    cases hd
  refine ⟨bytes, ?_, hv, hd⟩
  cases fault <;> simp_all [publish, readActive]

theorem Points.of_active (h : Points P st hash) (ha : st'.active = st.active) : Points P st' hash := by
  obtain ⟨bytes, hactive, hrest⟩ := h.pointer
  exact ⟨bytes, by rwa [readActive, ha], hrest⟩

section

variable {st st' : LedgerStorage} {s : LedgerState} {hash : String} {root : LedgerRoot} {view : CurrentView}
  {roleId : String} {tier : MemoryTier} {revisions : List CanonicalRevision} {expectedHeads : List ExpectedHead}
  {inputs : CommitInputs} {c : PreparedCommit} {faults : Nat → PutFault} {u : Unit}
  {policy : Option (Nat × Bytes × String)} {policies : List PolicyRecord}

theorem Snapshot.root_eq (h : Snapshot P st s hash root view) : s.root = some root := by rw [h.state]

theorem Snapshot.rootHash_eq (h : Snapshot P st s hash root view) : s.rootHash = some hash := by rw [h.state]

theorem revisionSegmentOf_eq (h : s.root = some root) {records : List CanonicalRevision} :
    revisionSegmentOf s records = segmentOf .revision root.revisionHead s.revisions records := by
  simp [revisionSegmentOf, segmentOf, segmentSchema, h]

theorem policySegmentOf_eq (h : s.root = some root) {records : List PolicyRecord} :
    policySegmentOf s records = segmentOf .policy root.policyHead s.policies records := by
  simp [policySegmentOf, segmentOf, segmentSchema, h]

/-- What the policy object of a commit is. -/
theorem policyObject_eq_ok (h : policyObject P s policies = .ok policy) :
    (policies = [] ∧ policy = none) ∨ (policies ≠ [] ∧ ∃ bytes,
      P.policySegment.toVec (policySegmentOf s policies) = some bytes ∧
      policy = some ((policySegmentOf s policies).lastSequence, bytes, domainHash P segmentDomain bytes)) := by
  unfold policyObject at h
  split at h
  · next he => exact .inl ⟨isEmpty_iff.mp he, (Except.ok.inj h).symm⟩
  · rename_i he
    obtain ⟨⟨bytes, hash⟩, hb, h⟩ := of_seq h
    obtain ⟨hv, rfl⟩ := canonicalBytesAndHash_eq_ok hb
    exact .inr ⟨by simpa using he, bytes, hv, (pure_ok_inj.mp h).symm⟩

/-- The policies of the new generation are stored under the policy head of its root. -/
theorem policies_of_commit (h : Snapshot P st s hash root view) (he : st.Extends st')
    (hpolicy : policyObject P s policies = .ok policy) (hrt : P.policySegment.RoundTrips (policySegmentOf s policies))
    (hw : ∀ p ∈ policy, isLowerHash p.2.2 = true ∧ st'.lookup p.2.2 = some p.2.1)
    {head : Option String} (hhead : head = (policy.map (·.2.2)).orElse fun _ => root.policyHead) :
    SegmentsOf P P.policySegment .policy st' head (s.policies ++ policies) ∧
      Continued P P.policySegment .policy st' root.policyHead head ∧
      policy.elim s.policies.length (·.1) = (s.policies ++ policies).length := by
  rcases policyObject_eq_ok hpolicy with ⟨rfl, rfl⟩ | ⟨hne, bytes, hv, rfl⟩
  · obtain rfl : head = root.policyHead := hhead
    rw [append_nil]
    exact ⟨h.policies.mono he, .inl rfl, rfl⟩
  · obtain rfl := hhead
    obtain ⟨hvalid, hl⟩ := hw _ rfl
    have hstored := of_lookup hv hrt hvalid hl
    rw [policySegmentOf_eq h.root_eq] at hstored
    refine ⟨.snoc (h.policies.mono he) hne hstored, .inr ⟨_, _, rfl, readSegment_of_stored hne hstored, rfl⟩, ?_⟩
    simp only [elim_some, policySegmentOf, length_append]
    omega

/-- The objects of a commit that were all written, as the loader finds them. -/
structure Written (P : LedgerPlatform) (st : LedgerStorage) (s : LedgerState) (root : LedgerRoot)
    (c : PreparedCommit) (revisionHash : String) : Prop where
  segment : Stored P segmentDomain P.revisionSegment st revisionHash
    (segmentOf .revision root.revisionHead s.revisions c.newRevisions)
  policies : SegmentsOf P P.policySegment .policy st c.root.policyHead c.policies
  policyContinued : Continued P P.policySegment .policy st root.policyHead c.root.policyHead
  policyWatermark : c.root.policyWatermark = c.policies.length
  view : Stored P viewDomain P.view st c.root.currentViewHash c.view
  root : Stored P rootDomain P.root st c.rootHash c.root
  revisionHead : c.root.revisionHead = some revisionHash

variable (hc : Prepared P s roleId tier revisions expectedHeads inputs c)

include hc

theorem written_of_prepared (h : Snapshot P st s hash root view) (hrt : CommitRoundTrips P s c)
    (hw : writeObjects st c.objects faults = (st', .ok u)) : ∃ revisionHash, Written P st' s root c revisionHash := by
  have he := (writeObjects_extends hw).1
  obtain ⟨revisionBytes, policy, viewBytes, rootBytes, henc⟩ := encoded_of_ok hc.encoded
  have hmem : ∀ object ∈ c.objects, isLowerHash object.1 = true ∧ st'.lookup object.1 = some object.2 :=
    fun _ hm => lookup_of_writeObjects hw hm
  rw [henc.objects] at hmem
  have hrevision := hmem _ (by simp : (domainHash P segmentDomain revisionBytes, revisionBytes) ∈ _)
  have hview := hmem _ (by simp : (domainHash P viewDomain viewBytes, viewBytes) ∈ _)
  have hroot := hmem _ (by simp : (c.rootHash, rootBytes) ∈ _)
  rw [henc.rootHash] at hroot
  have hdrop : c.policies.drop s.policies.length = newPolicies roleId inputs.now (s.policies.length + 1)
      inputs.policyIds (c.newRevisions.zip expectedHeads) := by
    rw [hc.policies, drop_left]
  have hpolicyHead : c.root.policyHead = (policy.map (·.2.2)).orElse fun _ => root.policyHead := by
    rw [henc.root]
    simp [candidateRoot, h.root_eq]
  obtain ⟨hpolicies, hcontinued, hwatermark⟩ := policies_of_commit h he henc.policyObject_eq
    (hdrop ▸ hrt.policies) (fun p hp => hmem (p.2.2, p.2.1) (by
      obtain rfl : policy = some p := hp
      simp)) hpolicyHead
  rw [← hc.policies] at hpolicies hwatermark
  refine ⟨domainHash P segmentDomain revisionBytes, ?_, hpolicies, hcontinued, ?_, ?_, ?_, by rw [henc.root]; rfl⟩
  · rw [← revisionSegmentOf_eq h.root_eq]
    exact of_lookup henc.segment hrt.revisions hrevision.1 hrevision.2
  · rw [henc.root]
    exact hwatermark
  · rw [show c.root.currentViewHash = domainHash P viewDomain viewBytes by rw [henc.root]; rfl]
    exact of_lookup henc.view_bytes hrt.view hview.1 hview.2
  · rw [henc.rootHash]
    exact of_lookup henc.root_bytes hrt.root hroot.1 hroot.2

theorem Prepared.newRevisions_ne_nil : c.newRevisions ≠ [] := by
  rw [hc.newRevisions]
  simpa [stampAll] using hc.nonempty

/-- The fields that the root of a commit takes over from the root before it. -/
theorem root_of_commit (h : Snapshot P st s hash root view) :
    c.root.schema = rootSchema ∧ c.root.generation = root.generation + 1 ∧ c.root.previousRootHash = some hash ∧
      c.root.revisionWatermark = c.revisions.length ∧ c.root.relationHead = none ∧ c.root.relationWatermark = 0 ∧
      c.root.migrationManifestHash = none ∧
      rebuildCurrentView c.root.generation c.revisions c.policies 0 = .ok c.view := by
  obtain ⟨_, _, _, _, henc⟩ := encoded_of_ok hc.encoded
  have hrebuilt := henc.view
  rw [show s.relations = [] by rw [h.state]] at hrebuilt
  have hlen : s.revisions.length + 1 + c.newRevisions.length - 1 = c.revisions.length := by
    rw [hc.revisions, length_append]
    omega
  have hgen : c.generation = root.generation + 1 := by rw [henc.generation, h.root_eq]; rfl
  rw [henc.root]
  simp only [candidateRoot, h.root_eq, h.rootHash_eq, bind_some, elim_some,
    h.relationHead, h.relationWatermark, h.unmigrated]
  exact ⟨trivial, hgen, trivial, hlen, trivial, trivial, trivial, hrebuilt⟩

/-- A commit whose objects are written adds one generation to the history. -/
theorem History.commit_prepared (h : History P st s hash root view) (hrt : CommitRoundTrips P s c)
    (hw : writeObjects st c.objects faults = (st', .ok u)) : History P st' (c.apply s) c.rootHash c.root c.view := by
  have hsnap := h.snapshot
  have he := (writeObjects_extends hw).1
  obtain ⟨revisionHash, hwritten⟩ := written_of_prepared hc hsnap hrt hw
  obtain ⟨hschema, hgen, hprev, hrevWm, hrelHead, hrelWm, hmig, hrebuilt⟩ := root_of_commit hc hsnap
  have hnonempty := hc.newRevisions_ne_nil
  refine .commit (h.mono he) ?_ hprev hgen ⟨c.newRevisions, hc.revisions.symm⟩ ⟨_, hc.policies.symm⟩
    (.inr ⟨_, _, hwritten.revisionHead, readSegment_of_stored hnonempty hwritten.segment, rfl⟩)
    hwritten.policyContinued
  refine
    { state := ?_
      storedRoot := hwritten.root
      storedView := hwritten.view
      schema := hschema
      revisions := ?_
      revisionWatermark := hrevWm
      policies := hwritten.policies
      policyWatermark := hwritten.policyWatermark
      relationHead := hrelHead
      relationWatermark := hrelWm
      unmigrated := hmig
      validRevisions := hc.validRevisions
      validPolicies := hc.validPolicies
      rebuilt := hrebuilt }
  · rw [hsnap.state]
    rfl
  · rw [hwritten.revisionHead, show (c.apply s).revisions = s.revisions ++ c.newRevisions from hc.revisions]
    exact .snoc (hsnap.revisions.mono he) hnonempty hwritten.segment

end

/-! ## Genesis -/

theorem thenPut_eq_ok {next : LedgerStorage → Except LedgerError LedgerStorage}
    {out : LedgerStorage} (h : thenPut st hash bytes next = .ok out) :
    ∃ st', st.Extends st' ∧ isLowerHash hash = true ∧ st'.lookup hash = some bytes ∧ next st' = .ok out := by
  unfold thenPut at h
  split at h
  · rename_i st' u hp
    obtain ⟨hvalid, hl⟩ := lookup_of_put hp
    exact ⟨st', (putImmutable_extends hp).1, hvalid, hl, h⟩
  · cases h

/-- A fresh store holds the genesis generation. -/
theorem history_of_ensureGenesis (hrt : GenesisRoundTrips P) (h : ensureGenesis P .empty = .ok st) :
    ∃ rootHash viewHash, History P st (.genesis rootHash viewHash) rootHash (genesisRoot viewHash) genesisView ∧
      Points P st rootHash := by
  obtain ⟨⟨viewBytes, viewHash⟩, hview, h⟩ := of_seq h
  obtain ⟨⟨rootBytes, rootHash⟩, hroot, h⟩ := of_seq h
  obtain ⟨hvb, rfl⟩ := canonicalBytesAndHash_eq_ok hview
  obtain ⟨hrb, rfl⟩ := canonicalBytesAndHash_eq_ok hroot
  obtain ⟨st₁, -, hvValid, hvLookup, h⟩ := thenPut_eq_ok h
  obtain ⟨st₂, he, hrValid, hrLookup, h⟩ := thenPut_eq_ok h
  obtain ⟨pointerBytes, hpb, h⟩ := of_seq h
  cases h
  have hpub := publish_extends st₂ pointerBytes .none
  refine ⟨_, domainHash P viewDomain viewBytes, .genesis ?_ rfl rfl rfl,
    points_of_publish (jcs_eq_ok.mp hpb) (hrt.pointer _) (by simp)⟩
  exact
    { state := rfl
      storedRoot := (of_lookup hrb (hrt.root _) hrValid hrLookup).mono hpub
      storedView := (of_lookup hvb hrt.view hvValid (he _ _ hvLookup)).mono hpub
      schema := rfl
      revisions := .nil
      revisionWatermark := rfl
      policies := .nil
      policyWatermark := rfl
      relationHead := rfl
      relationWatermark := rfl
      unmigrated := rfl
      validRevisions := rfl
      validPolicies := rfl
      rebuilt := rfl }

/-! ## Runs -/

/-- The store holds the state of the writer, unless the writer is poisoned. -/
def Durable (P : LedgerPlatform) (l : CASCanonicalLedger) : Prop :=
  l.state.poisoned = false → ∃ hash root view, History P l.storage l.state hash root view ∧ Points P l.storage hash

variable {l : CASCanonicalLedger} {objects : List (String × Bytes)} {faults : Nat → PutFault}

theorem Durable.loadState (h : Durable P l) (hp : l.state.poisoned = false) : loadState P l.storage = .ok l.state := by
  obtain ⟨_, _, _, hh, hpoints⟩ := h hp
  exact loadState_of_history hh hpoints

/-- More objects under the same pointer change nothing. -/
theorem Durable.of_extends (h : Durable P l) (he : l.storage.Extends st) (ha : st.active = l.storage.active) :
    Durable P ⟨st, l.state⟩ := by
  intro hp
  obtain ⟨hash, root, view, hh, hpoints⟩ := h hp
  exact ⟨hash, root, view, hh.mono he, hpoints.of_active ha⟩

theorem Durable.of_write (h : Durable P l)
    {result : Except LedgerError Unit} (hw : writeObjects l.storage objects faults = (st, result)) :
    Durable P ⟨st, l.state⟩ :=
  h.of_extends (writeObjects_extends hw).1 (writeObjects_extends hw).2

variable {inputs : CommitInputs} {call : CommitCall} {o : RunObjects}

/-- A published commit is durable, whether or not its directory was synced. -/
theorem Durable.of_publish (h : Durable P l) {roleId : String} {tier : MemoryTier}
    {revisions : List CanonicalRevision} {expectedHeads : List ExpectedHead} {c : PreparedCommit}
    (hc : Prepared P l.state roleId tier revisions expectedHeads inputs c) (hrt : CommitRoundTrips P l.state c)
    (hw : writeObjects l.storage c.objects inputs.putFaults = (st, .ok ()))
    (hb : P.pointer.toVec (activePointer c.rootHash) = some bytes) {f : PublishFault} (hf : f ≠ .lost) :
    Durable P ⟨st.publish bytes f, c.apply l.state⟩ := by
  intro _
  obtain ⟨hash, root, view, hh, -⟩ := h hc.healthy
  have hnew := hh.commit_prepared hc hrt hw
  exact ⟨_, _, _, hnew.mono (publish_extends st bytes f), points_of_publish hb hrt.pointer hf⟩

theorem Durable.step (h : Durable P l)
    (hrt : ∀ c, prepareCommit P l.state call.roleId call.tier call.revisions call.expectedHeads inputs = .ok c →
      (call.run P l inputs).1.state = c.apply l.state → CommitRoundTrips P l.state c) :
    Durable P (call.run P l inputs).1 := by
  have hout := run_outcome (P := P) l call inputs
  generalize call.run P l inputs = out at hout hrt ⊢
  cases hout with
  | refused _ => exact h
  | interrupted _ hw => exact h.of_write hw
  | unpublished _ hw => exact h.of_write hw
  | indeterminate _ _ _ _ => intro hp; cases hp
  | committed hprep hw hb _ => exact h.of_publish (prepared_of_ok hprep) (hrt _ hprep rfl) hw hb (by simp)

theorem Durable.run (h : Durable P l) {calls : List (CommitCall × CommitInputs)} (hrt : RunRoundTrips P l calls) :
    Durable P (runCommits P l calls) :=
  Throughout.invariant (fun _ _ h hrt => h.step fun c hc _ => hrt c hc) h hrt

theorem durable_new (hrt : GenesisRoundTrips P) (h : new P .empty = .ok l) :
    (∃ rootHash viewHash, l.state = .genesis rootHash viewHash) ∧ Durable P l := by
  obtain ⟨st, hst, h⟩ := of_seq h
  obtain ⟨s, hs, h⟩ := of_seq h
  cases h
  obtain ⟨rootHash, viewHash, hh, hp⟩ := history_of_ensureGenesis hrt hst
  cases (loadState_of_history hh hp).symm.trans hs
  exact ⟨⟨_, _, rfl⟩, fun _ => ⟨_, _, _, hh, hp⟩⟩

/-- Opening the store again gives the ledger that wrote it. -/
theorem Durable.reopen (h : Durable P l) (hp : l.state.poisoned = false) : new P l.storage = .ok l := by
  obtain ⟨_, _, _, -, hpoints⟩ := h hp
  obtain ⟨bytes, hactive, -⟩ := hpoints.pointer
  simp only [new, ensureGenesis, hactive, isSome_some, if_true, seq_ok, h.loadState hp]
  rfl

/-! ## Crashes -/

/-- The stores that exist while the objects are written: before the first write and after each one, up
to the first that fails. -/
def storesWhileWriting (st : LedgerStorage) : List (String × Bytes) → (Nat → PutFault) → List LedgerStorage
  | [], _ => [st]
  | (hash, bytes) :: rest, faults =>
    st :: match putImmutable st hash bytes (faults 0) with
      | (st, .ok _) => storesWhileWriting st rest fun i => faults (i + 1)
      | (st, .error _) => [st]

/-- The stores a crash can leave: one from while the objects are written, or the one at the end of the
call. After a publication that was not synced the pointer may be the old one, with all objects written,
or the new one. -/
def crashStores (P : LedgerPlatform) (l : CASCanonicalLedger) (call : CommitCall) (inputs : CommitInputs) :
    List LedgerStorage :=
  (match prepareCommit P l.state call.roleId call.tier call.revisions call.expectedHeads inputs with
    | .error _ => [l.storage]
    | .ok c => storesWhileWriting l.storage c.objects inputs.putFaults) ++ [(call.run P l inputs).1.storage]

theorem storesWhileWriting_extends
    (h : st' ∈ storesWhileWriting st objects faults) : st.Extends st' ∧ st'.active = st.active := by
  induction objects generalizing st faults with
  | nil =>
    obtain rfl : st' = st := by simpa [storesWhileWriting] using h
    exact ⟨.refl _, rfl⟩
  | cons object rest ih =>
    rcases mem_cons.mp h with rfl | h
    · exact ⟨.refl _, rfl⟩
    · split at h
      · next hp =>
        obtain ⟨he, ha⟩ := putImmutable_extends hp
        obtain ⟨he', ha'⟩ := ih h
        exact ⟨he.trans he', ha'.trans ha⟩
      · next hp =>
        cases mem_singleton.mp h
        exact putImmutable_extends hp

/-- The state a commit leads to: what the writer holds after the same call without faults. -/
def afterCommit (P : LedgerPlatform) (l : CASCanonicalLedger) (call : CommitCall) (inputs : CommitInputs)
    (s : LedgerState) : Prop :=
  ∃ c, prepareCommit P l.state call.roleId call.tier call.revisions call.expectedHeads inputs = .ok c ∧
    s = c.apply l.state

theorem loadState_of_crash (h : Durable P l) (hp : l.state.poisoned = false)
    (hrt : CallRoundTrips P l call inputs) (hst : st ∈ crashStores P l call inputs) :
    loadState P st = .ok l.state ∨ ∃ s, afterCommit P l call inputs s ∧ loadState P st = .ok s := by
  rcases mem_append.mp hst with hst | hst
  · left
    split at hst
    · obtain rfl : st = l.storage := by simpa using hst
      exact h.loadState hp
    · obtain ⟨he, ha⟩ := storesWhileWriting_extends hst
      exact (h.of_extends he ha).loadState hp
  · obtain rfl : st = (call.run P l inputs).1.storage := by simpa using hst
    have hout := run_outcome (P := P) l call inputs
    generalize call.run P l inputs = out at hout ⊢
    cases hout with
    | refused _ => exact .inl (h.loadState hp)
    | interrupted _ hw => exact .inl ((h.of_write hw).loadState hp)
    | unpublished _ hw => exact .inl ((h.of_write hw).loadState hp)
    | @indeterminate c _ _ hprep hw hb _ =>
      have hd := h.of_publish (f := .unsynced) (prepared_of_ok hprep) (hrt _ hprep) hw hb (by simp)
      exact .inr ⟨_, ⟨c, hprep, rfl⟩, hd.loadState hp⟩
    | @committed c _ _ hprep hw hb _ =>
      have hd := h.of_publish (f := .none) (prepared_of_ok hprep) (hrt _ hprep) hw hb (by simp)
      exact .inr ⟨_, ⟨c, hprep, rfl⟩, hd.loadState hp⟩

/-- A restart after any run finds the state of the writer, and a restart after a crash inside a commit
finds the state before it or the state after it. -/
theorem restart_refines {l : CASCanonicalLedger} (hopen : new P .empty = .ok l)
    (hgenesis : GenesisRoundTrips P) (calls : List (CommitCall × CommitInputs)) (hrun : RunRoundTrips P l calls)
    (hlive : (runCommits P l calls).state.poisoned = false) :
    loadState P (runCommits P l calls).storage = .ok (runCommits P l calls).state ∧
      ∀ call inputs, CallRoundTrips P (runCommits P l calls) call inputs →
        ∀ st ∈ crashStores P (runCommits P l calls) call inputs,
          loadState P st = .ok (runCommits P l calls).state ∨
            ∃ s, afterCommit P (runCommits P l calls) call inputs s ∧ loadState P st = .ok s := by
  have hd := (durable_new hgenesis hopen).2.run hrun
  exact ⟨hd.loadState hlive, fun _ _ hrt _ => loadState_of_crash hd hlive hrt⟩

/-! ## The platform of a run round-trips -/

theorem RunObjects.Distinct.genesisRoundTrips (h : o.Distinct) : GenesisRoundTrips o.platform where
  view := listed_roundTrips h.views _
  root _ := listed_roundTrips h.roots _
  pointer _ := listed_roundTrips h.pointers _

theorem RunObjects.Distinct.commitRoundTrips (h : o.Distinct) (s : LedgerState) (c : PreparedCommit) :
    CommitRoundTrips o.platform s c where
  revisions := listed_roundTrips h.revisionSegments _
  policies := listed_roundTrips h.policySegments _
  view := listed_roundTrips h.views _
  root := listed_roundTrips h.roots _
  pointer := listed_roundTrips h.pointers _

theorem RunObjects.Distinct.runRoundTrips (h : o.Distinct) (l : CASCanonicalLedger)
    (calls : List (CommitCall × CommitInputs)) : RunRoundTrips o.platform l calls := by
  induction calls generalizing l with
  | nil => trivial
  | cons call rest ih => exact ⟨fun c _ => h.commitRoundTrips _ c, ih _⟩

/-! ## A run

Role `role-a` creates one memory, with the bytes and digests of a real vault. -/

def sampleMemory : MemoryId := "11111111-1111-4111-8111-111111111111"

def sampleRevision : CanonicalRevision :=
  { schema := revisionSchema
    sequence := 0
    memoryId := sampleMemory
    revisionId := sampleMemory
    parentRevisionId := none
    content := .text "alpha"
    contentHash := "ed77f828ebfcabacf359a8a8cfef8a42aefa0711883410bad0c66162d148398f"
    tags := []
    memoryType := .untyped
    cognitiveTier := .working
    deletedAt := none
    committedAt := 0
    committedByRole := "role-a" }

def sampleCall : CommitCall :=
  .expected "role-a" .working .absent sampleRevision

def sampleInputs : CommitInputs :=
  { now := 1700000000000
    policyIds := fun _ => "22222222-2222-4222-8222-222222222222"
    putFaults := fun _ => .none
    publishFault := .none }

def sampleGenesis : LedgerState :=
  .genesis "9088c61b738ec79699d3d71ea0850e37b45879aa573c2aa4f8046e5de32529e7"
    "e817e0d716a1de235a0a96cdb3b2fe4823946529d6e3aebf14377d4e44271d07"

/-- The revision segment of the commit and its hash. -/
def sampleRevisions : Segment CanonicalRevision × String :=
  (revisionSegmentOf sampleGenesis [stamp "role-a" sampleInputs.now 1 sampleRevision],
    "3aaeeb36b0e8618eaeae53467dabeb92c723bb434126233a7fbf25630c883b5d")

def samplePolicies : Segment PolicyRecord × String :=
  (policySegmentOf sampleGenesis [privatePolicy "role-a" sampleInputs.now 1 (sampleInputs.policyIds 0) sampleRevision],
    "d593b28d1458c3690271489d39f65376491e88b9413e3c309b6966856553ad9b")

def sampleView : CurrentView × String :=
  ({ genesisView with
      generation := 1
      revisionWatermark := 1
      policyWatermark := 1
      streams := [⟨sampleMemory, sampleMemory, false, sampleInputs.policyIds 0⟩] },
    "af207367f0ca12d6ecd9ab03a3962e2555d7af061500c0a619b99ff3a8a533b6")

def sampleRoot : LedgerRoot × String :=
  (candidateRoot sampleGenesis "role-a" sampleInputs.now 1 sampleRevisions.2 1 (some (1, [], samplePolicies.2))
      sampleView.2,
    "7480122945a485794c96f0e18c96466af53c265ff523a68226bb5d00b13a7380")

def sampleObjects : RunObjects :=
  { contents := [sampleRevision.content]
    revisionSegments := [sampleRevisions.1]
    policySegments := [samplePolicies.1]
    roots := sampleGenesis.root.toList ++ [sampleRoot.1]
    views := [genesisView, sampleView.1]
    pointers := (sampleGenesis.rootHash.toList ++ [sampleRoot.2]).map activePointer
    digests :=
      [(utf8 "plico.memory.content.v1\x00" ++ hashComponent "text" (utf8 "alpha"), sampleRevision.contentHash),
       (utf8 viewDomain ++ genesisView.json,
        "e817e0d716a1de235a0a96cdb3b2fe4823946529d6e3aebf14377d4e44271d07"),
       (utf8 rootDomain ++ (genesisRoot
          "e817e0d716a1de235a0a96cdb3b2fe4823946529d6e3aebf14377d4e44271d07").json,
        "9088c61b738ec79699d3d71ea0850e37b45879aa573c2aa4f8046e5de32529e7"),
       (utf8 segmentDomain ++ (sampleRevisions.1.json CanonicalRevision.json), sampleRevisions.2),
       (utf8 segmentDomain ++ (samplePolicies.1.json PolicyRecord.json), samplePolicies.2),
       (utf8 viewDomain ++ sampleView.1.json, sampleView.2),
       (utf8 rootDomain ++ sampleRoot.1.json, sampleRoot.2)] }

theorem sampleObjects_distinct : sampleObjects.Distinct := by
  constructor <;> decide +kernel

/-- The vault that is opened over an empty storage. -/
def RunObjects.opened (o : RunObjects) : CASCanonicalLedger :=
  (new o.platform .empty).toOption.getD ⟨.empty, sampleGenesis⟩

theorem RunObjects.opened_eq (h : (new o.platform .empty).isOk = true) : new o.platform .empty = .ok o.opened := by
  unfold opened
  cases hl : new o.platform .empty with
  | ok l => rfl
  | error e =>
    rw [hl] at h
    cases h

/-- The vault that role `role-a` writes to. -/
abbrev sampleLedger : CASCanonicalLedger := sampleObjects.opened

theorem sampleLedger_eq : new sampleObjects.platform .empty = .ok sampleLedger :=
  sampleObjects.opened_eq (by decide +kernel)

/-- The memory is committed. -/
theorem sample_committed :
    (runCommits sampleObjects.platform sampleLedger [(sampleCall, sampleInputs)]).state.revisions.length = 1 ∧
      (runCommits sampleObjects.platform sampleLedger [(sampleCall, sampleInputs)]).state.poisoned = false := by
  decide +kernel

theorem restart_refines_sample :
    (runCommits sampleObjects.platform sampleLedger [(sampleCall, sampleInputs)]).state.revisions.length = 1 ∧
      loadState sampleObjects.platform
          (runCommits sampleObjects.platform sampleLedger [(sampleCall, sampleInputs)]).storage =
        .ok (runCommits sampleObjects.platform sampleLedger [(sampleCall, sampleInputs)]).state := by
  obtain ⟨hlength, hlive⟩ := sample_committed
  exact ⟨hlength, (restart_refines sampleLedger_eq sampleObjects_distinct.genesisRoundTrips
    [(sampleCall, sampleInputs)] (sampleObjects_distinct.runRoundTrips _ _) hlive).1⟩

end Plico.Ledger
