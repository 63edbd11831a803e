import Plico.Proof.Ledger.Commit
import Plico.Proof.Ledger.Policies
import Plico.Proof.Ledger.Stored

/-!
# Stored generations load

`Snapshot` relates the state of one generation to the objects that hold it, and `History` is the chain
of generations back to genesis. Both only need objects to be present, so they survive every later
write (`History.mono`). `loadState_of_history`: the loader, which walks the chain of roots and
validates every generation on the way, returns exactly the state of the newest one.
-/

namespace Plico.Ledger

variable {P : LedgerPlatform} {st st' : LedgerStorage} {s : LedgerState} {hash : String} {root : LedgerRoot}
  {view : CurrentView} {seen : List String} {α : Type}

/-- `st` holds the generation of `root`, whose state is `s`. -/
structure Snapshot (P : LedgerPlatform) (st : LedgerStorage) (s : LedgerState) (hash : String)
    (root : LedgerRoot) (view : CurrentView) : Prop where
  state : s = ⟨false, some hash, some root, some view, s.revisions, s.policies, []⟩
  storedRoot : Stored P rootDomain P.root st hash root
  storedView : Stored P viewDomain P.view st root.currentViewHash view
  schema : root.schema = rootSchema
  revisions : SegmentsOf P P.revisionSegment .revision st root.revisionHead s.revisions
  revisionWatermark : root.revisionWatermark = s.revisions.length
  policies : SegmentsOf P P.policySegment .policy st root.policyHead s.policies
  policyWatermark : root.policyWatermark = s.policies.length
  relationHead : root.relationHead = none
  relationWatermark : root.relationWatermark = 0
  unmigrated : root.migrationManifestHash = none
  validRevisions : validateRevisions P.toPlatform s.revisions = .ok ()
  validPolicies : validatePolicies P.toPlatform s.policies s.revisions = .ok ()
  rebuilt : rebuildCurrentView root.generation s.revisions s.policies 0 = .ok view

/-- The head of a log is the one before, or a segment that names it. -/
def Continued {α : Type} (P : LedgerPlatform) (codec : Serde (Segment α)) (kind : LogKind) (st : LedgerStorage)
    (previous head : Option String) : Prop :=
  previous = head ∨ ∃ hash segment, head = some hash ∧ readSegment P codec kind st hash = .ok segment ∧
    segment.previousSegmentHash = previous

/-- The generations that `st` holds, from genesis to the one of `root`. -/
inductive History (P : LedgerPlatform) (st : LedgerStorage) : LedgerState → String → LedgerRoot → CurrentView → Prop
  | genesis {s : LedgerState} {hash : String} {root : LedgerRoot} {view : CurrentView} :
      Snapshot P st s hash root view → root.generation = 0 → root.previousRootHash = none →
      isGenesisRoot root = true → History P st s hash root view
  | commit {s s' : LedgerState} {hash hash' : String} {root root' : LedgerRoot} {view view' : CurrentView} :
      History P st s hash root view → Snapshot P st s' hash' root' view' →
      root'.previousRootHash = some hash → root'.generation = root.generation + 1 →
      s.revisions <+: s'.revisions → s.policies <+: s'.policies →
      Continued P P.revisionSegment .revision st root.revisionHead root'.revisionHead →
      Continued P P.policySegment .policy st root.policyHead root'.policyHead →
      History P st s' hash' root' view'

/-! ## Growth of the store -/

theorem Snapshot.mono (h : Snapshot P st s hash root view) (he : st.Extends st') : Snapshot P st' s hash root view :=
  { h with
    storedRoot := h.storedRoot.mono he
    storedView := h.storedView.mono he
    revisions := h.revisions.mono he
    policies := h.policies.mono he }

theorem readHashedObject_mono {codec : Serde α} (he : st.Extends st') {value : α}
    (h : readHashedObject codec st hash = .ok value) : readHashedObject codec st' hash = .ok value := by
  obtain ⟨bytes, hget, hrest⟩ := of_seq h
  obtain ⟨⟨⟩, hv, hg⟩ := of_seq (mapError_ok_iff.mp hget)
  cases hl : st.lookup hash with
  | none => simp [ObjectStore.get, hl, Except.mapError] at hg
  | some b =>
    obtain rfl : b = bytes := by simpa [ObjectStore.get, hl, Except.mapError] using hg
    refine seq_eq_ok.mpr ⟨b, ?_, hrest⟩
    simp [getImmutable, hv, ObjectStore.get, he _ _ hl, Except.mapError]

theorem Continued.mono {codec : Serde (Segment α)} {kind : LogKind} {previous head : Option String}
    (h : Continued P codec kind st previous head) (he : st.Extends st') : Continued P codec kind st' previous head := by
  rcases h with h | ⟨hash, segment, hhead, hread, hprev⟩
  · exact .inl h
  · obtain ⟨value, hv, hrest⟩ := of_seq hread
    exact .inr ⟨hash, segment, hhead, seq_eq_ok.mpr ⟨value, readHashedObject_mono he hv, hrest⟩, hprev⟩

theorem History.mono (h : History P st s hash root view) (he : st.Extends st') : History P st' s hash root view := by
  induction h with
  | genesis hs hg hp hr => exact .genesis (hs.mono he) hg hp hr
  | commit _ hs hp hg hrev hpol hcr hcp ih => exact .commit ih (hs.mono he) hp hg hrev hpol (hcr.mono he) (hcp.mono he)

theorem History.snapshot (h : History P st s hash root view) : Snapshot P st s hash root view := by
  cases h with
  | genesis hs => exact hs
  | commit _ hs => exact hs

/-! ## Loading one generation -/

section

variable (h : Snapshot P st s hash root view)

include h

namespace Snapshot

theorem loadRevisions : loadRevisions P st root = .ok s.revisions := by
  unfold Ledger.loadRevisions
  rw [h.revisionWatermark]
  exact loadSegmentChain_of_segments h.revisions

theorem loadPolicies : loadPolicies P st root = .ok s.policies := by
  unfold Ledger.loadPolicies
  rw [h.policyWatermark]
  exact loadSegmentChain_of_segments h.policies

theorem loadRelations : loadRelations P st root = .ok [] := by
  unfold Ledger.loadRelations
  rw [h.relationHead, h.relationWatermark]
  rfl

theorem rebuilt' : rebuildCurrentView root.generation s.revisions s.policies root.relationWatermark = .ok view := by
  rw [h.relationWatermark]
  exact h.rebuilt

theorem viewMatchesRoot : viewMatchesRoot root view = true := by
  obtain ⟨streams, -, rfl⟩ := rebuildCurrentView_eq_ok h.rebuilt
  simp [Ledger.viewMatchesRoot, last_sequence_of_grown (validateRevisions_grown h.validRevisions),
    last_policy_sequence (validatePolicies_grown h.validPolicies), h.revisionWatermark, h.policyWatermark,
    h.relationWatermark]

theorem jcs_view : ∃ bytes, jcs P.view view = .ok bytes := by
  obtain ⟨bytes, -, hv, -⟩ := h.storedView.bytes
  exact ⟨bytes, jcs_eq_ok.mpr hv⟩

end Snapshot

theorem validateRootSnapshot_of_snapshot : validateRootSnapshot P st root = .ok () := by
  obtain ⟨bytes, hbytes⟩ := h.jcs_view
  simp [validateRootSnapshot, verifyViewHash, readHashedObject_of_stored h.storedView,
    verifyHash_of_stored h.storedView, h.loadRevisions, h.loadPolicies, h.loadRelations, h.validRevisions,
    h.validPolicies, h.unmigrated, h.rebuilt', hbytes, h.viewMatchesRoot,
    show validateRelations P.toPlatform [] s.revisions = .ok () from rfl,
    show verifyMigrationManifestObjects P st none = .ok () from rfl]

end

/-! ## Following the chain -/

theorem validateRootPrefix_of_commit {s' : LedgerState} {hash' : String} {root' : LedgerRoot} {view' : CurrentView}
    (h : Snapshot P st s hash root view) (h' : Snapshot P st s' hash' root' view')
    (hrev : s.revisions <+: s'.revisions) (hpol : s.policies <+: s'.policies)
    (hcr : Continued P P.revisionSegment .revision st root.revisionHead root'.revisionHead)
    (hcp : Continued P P.policySegment .policy st root.policyHead root'.policyHead) :
    validateRootPrefix P st root' root = .ok () := by
  have hwm : root.revisionWatermark ≤ root'.revisionWatermark ∧ root.policyWatermark ≤ root'.policyWatermark ∧
      root.relationWatermark ≤ root'.relationWatermark := by
    rw [h.revisionWatermark, h'.revisionWatermark, h.policyWatermark, h'.policyWatermark, h.relationWatermark,
      h'.relationWatermark]
    exact ⟨hrev.length_le, hpol.length_le, Nat.le_refl 0⟩
  unfold validateRootPrefix refuseUnlessPrefix
  rw [refuse_neg (not_not.mpr hwm), headExtends_of_segments h'.revisions hcr, headExtends_of_segments h'.policies hcp,
    h.relationHead, show headExtends P P.relationSegment .relation st root'.relationHead none = .ok true from rfl]
  simp [refuse, h.unmigrated, h'.unmigrated]

/-- Roots already seen on the way are newer, so their hashes are other hashes. -/
def SeenNewer (P : LedgerPlatform) (st : LedgerStorage) (generation : Nat) (seen : List String) : Prop :=
  ∀ h ∈ seen, ∃ r, Stored P rootDomain P.root st h r ∧ generation < r.generation

theorem Snapshot.not_seen (h : Snapshot P st s hash root view)
    (hs : SeenNewer P st root.generation seen) : hash ∉ seen := by
  intro hm
  obtain ⟨r, hr, hlt⟩ := hs hash hm
  rw [h.storedRoot.unique hr] at hlt
  exact Nat.lt_irrefl _ hlt

theorem validateRootChain_of_history (h : History P st s hash root view) (hs : SeenNewer P st root.generation seen) :
    validateRootChain P st root.generation seen hash root = .ok () := by
  induction h generalizing seen with
  | @genesis s hash root view hsnap hg hp hr =>
    have hok : ¬ (hash ∈ seen ∨ root.schema ≠ rootSchema ∨ root.generation ≠ 0) := by
      simp [hsnap.not_seen hs, hsnap.schema, hg]
    rw [hg, validateRootChain, refuse_neg hok, validateRootSnapshot_of_snapshot hsnap, hp]
    simp [hr]
  | @commit s s' hash hash' root root' view view' hprev hsnap hp hg hrev hpol hcr hcp ih =>
    have hsnap₀ := hprev.snapshot
    have hok : ¬ (hash' ∈ seen ∨ root'.schema ≠ rootSchema ∨ root'.generation ≠ root.generation + 1) := by
      simp [hsnap.not_seen hs, hsnap.schema, hg]
    have hseen : SeenNewer P st root.generation (hash' :: seen) := by
      intro k hk
      rcases List.mem_cons.mp hk with rfl | hk
      · exact ⟨root', hsnap.storedRoot, by omega⟩
      · obtain ⟨r, hr, hlt⟩ := hs k hk
        exact ⟨r, hr, by omega⟩
    have hmig : checkIf (root'.migrationManifestHash.isSome ∧ root.migrationManifestHash.isNone)
        (validateMigrationBoundary P st root') = .ok () := by
      simp [checkIf, hsnap.unmigrated]
    rw [hg, validateRootChain, refuse_neg hok, seq_ok, validateRootSnapshot_of_snapshot hsnap, seq_ok, hp]
    dsimp only
    unfold verifyRootHash
    rw [readHashedObject_of_stored hsnap₀.storedRoot, seq_ok, verifyHash_of_stored hsnap₀.storedRoot, seq_ok, hmig,
      seq_ok, validateRootPrefix_of_commit hsnap₀ hsnap hrev hpol hcr hcp, seq_ok, ih hseen]

/-- The active pointer of `st` names `hash`. -/
structure Points (P : LedgerPlatform) (st : LedgerStorage) (hash : String) : Prop where
  pointer : ∃ bytes, readActive st = some bytes ∧ P.pointer.toVec (activePointer hash) = some bytes ∧
    P.pointer.fromSlice bytes = some (activePointer hash)

/-- The loader returns the state of the generation the pointer names. -/
theorem loadState_of_history (h : History P st s hash root view) (hp : Points P st hash) : loadState P st = .ok s := by
  have hsnap := h.snapshot
  obtain ⟨pointerBytes, hactive, hvec, hslice⟩ := hp.pointer
  obtain ⟨bytes, hbytes⟩ := hsnap.jcs_view
  have hchain := validateRootChain_of_history h (show SeenNewer P st root.generation [] by simp [SeenNewer])
  simp only [loadState, verifyRootHash, verifyViewHash, hactive, required_some, seq_ok, hslice, jcs_eq_ok.mpr hvec,
    show (activePointer hash).rootHash = hash from rfl, readHashedObject_of_stored hsnap.storedRoot,
    verifyHash_of_stored hsnap.storedRoot, hsnap.schema, hchain, readHashedObject_of_stored hsnap.storedView,
    verifyHash_of_stored hsnap.storedView, hsnap.loadRevisions, hsnap.loadPolicies, hsnap.loadRelations,
    hsnap.validRevisions, hsnap.validPolicies,
    hsnap.rebuilt', hsnap.viewMatchesRoot, hbytes, ne_eq]
  exact congrArg Except.ok hsnap.state.symm

end Plico.Ledger
