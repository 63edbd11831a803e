import Plico.Model.Projection.Load

/-!
# Committing events (memory/projection/store.rs)

`commit` is the one way the manifest grows. It decides first: it stamps the events, replays the whole
candidate log and compares the result with the canonical snapshot (`prepareCandidate`). Then it persists
the artifacts of the new ready projections, writes the segment, the view and the root, and publishes the
pointer last. The clock and the behaviour of the storage device are inputs (`ManifestInputs`).
-/

namespace Plico.Projection

open Plico.Ledger

variable (P : ProjectionPlatform)

inductive ProjectionCommitActor where
  | personalOwner
  | worker
  deriving DecidableEq, Repr

def ProjectionCommitActor.roleId : ProjectionCommitActor → String
  | .personalOwner => personalOwnerRoleId
  | .worker => projectionWorkerRole

/-- What a commit reads from outside: the time and the faults of the device. A flush that fails is `true`. -/
structure ManifestInputs where
  now : Nat
  artifactFaults : Nat → PutFault
  artifactFlushFault : Bool
  putFaults : Nat → PutFault
  flushFault : Bool
  publishFault : PublishFault

/-! ## Deciding -/

/-- The next generation before it is encoded. -/
structure Candidate where
  committedAt : Nat
  committedByRole : String
  firstSequence : Nat
  records : List ManifestRecord
  candidateRecords : List ManifestRecord
  generation : Nat
  view : ProjectionCurrentView

def stampEvents (committedAt : Nat) (committedByRole : String) (firstSequence : Nat) (events : List ManifestEvent) :
    List ManifestRecord :=
  events.mapIdx fun offset event =>
    { schema := manifestRecordSchema
      sequence := firstSequence + offset
      committedAt, committedByRole, event }

variable (s : ProjectionStoreState)

/-- Everything `commit` decides before it touches the storage. -/
def prepareCandidate (expectedRootHash : String) (actor : ProjectionCommitActor)
    (events : List ManifestEvent) (canonical : CanonicalProjectionSnapshot) (repairingInvalidArtifacts : Bool)
    (now : Nat) : Except ProjectionError Candidate := do
  refuse (s.poisoned = true) .writerPoisoned
  refuse (s.artifactIssues ≠ [] ∧ repairingInvalidArtifacts = false)
    (.artifactRepairRequired s.artifactIssues.length)
  refuse (s.rootHash ≠ expectedRootHash) .headConflict
  refuse events.isEmpty (.invalid "invalid_projection_commit_boundary")
  let committedFloor ← required (checkedAdd 64 s.root.committedAt 1) (.invalid "projection_commit_time_overflow")
  let committedAt := max now committedFloor
  refuse (committedAt > maxJcsSafeInteger) (.invalid "projection_commit_time_overflow")
  let firstSequence ← required (checkedAdd 64 s.records.length 1) (.invalid "projection_sequence_overflow")
  -- `checked_add` on the sequence of each record: the last one is the largest
  refuse (2 ^ 64 ≤ firstSequence + (events.length - 1)) (.invalid "projection_sequence_overflow")
  let records := stampEvents committedAt actor.roleId firstSequence events
  let candidateRecords := s.records ++ records
  let generation ← required (checkedAdd 64 s.root.generation 1) (.invalid "projection_generation_overflow")
  let view ← rebuildCurrentView P generation s.genesisSource candidateRecords
  validateCandidate view candidateRecords canonical
  pure
    { committedAt
      committedByRole := actor.roleId
      firstSequence, records, candidateRecords, generation, view }

/-! ## Artifacts -/

/-- The supplied artifacts by their hash. -/
def addSupplied (supplied : AList (fun _ : String => EmbeddingArtifact)) (artifact : EmbeddingArtifact) :
    Except ProjectionError (AList (fun _ : String => EmbeddingArtifact)) := do
  let (_, hash) ← artifactBytesAndHash P artifact
  refuse (supplied.lookup hash).isSome (.invalid "duplicate_projection_artifact")
  pure (supplied.insert hash artifact)

/-- A ready transition among new records: its source, its builder's hash and its artifact. -/
def ManifestRecord.readyArtifact (record : ManifestRecord) :
    Option (CanonicalSourceIdentity × String × ArtifactDescriptor) :=
  match record.event with
  | .projectionTransition event =>
    match event.state with
    | .ready _ _ artifact => some (event.source, event.desiredBuilderSpecHash, artifact)
    | _ => none
  | _ => none

/-- The bytes of the artifact supplied for a ready transition. -/
def checkSupplied (view : ProjectionCurrentView) (supplied : AList (fun _ : String => EmbeddingArtifact))
    (ready : CanonicalSourceIdentity × String × ArtifactDescriptor) :
    Except ProjectionError (BuilderSpec × Bytes) := do
  let (source, desiredBuilderSpecHash, artifact) := ready
  let suppliedArtifact ← required (supplied.lookup artifact.artifactHash) (.invalid "missing_ready_artifact")
  refuse (suppliedArtifact.sourceRevisionId ≠ source.revisionId ∨
    suppliedArtifact.sourceContentHash ≠ source.contentHash ∨
    suppliedArtifact.builderSpecHash ≠ desiredBuilderSpecHash) (.invalid "ready_artifact_binding_mismatch")
  let builder ← required
    (view.activeBuilderSpecs.find? fun builder => builder.builderSpecHash = artifact.builderSpecHash)
    (.invalid "ready_artifact_builder_missing")
  let bytes ← validateArtifact P suppliedArtifact artifact builder.builderSpec
  pure (builder.builderSpec, bytes)

/-- Read a written artifact back. -/
def rereadArtifact (st : LedgerStorage) (artifact : ArtifactDescriptor) (builder : BuilderSpec) :
    Except ProjectionError Unit := do
  let bytes ← (readBounded st artifact.artifactHash maxEmbeddingArtifactBytes).mapError
    fun _ => .artifactStoreUnavailable
  let restored ← parseEmbeddingArtifact P bytes
  let _ ← validateArtifact P restored artifact builder
  pure ()

/-- Write the artifacts of the ready transitions, each one read back, up to the first failure. -/
def persistAll (view : ProjectionCurrentView) (st : LedgerStorage)
    (supplied : AList (fun _ : String => EmbeddingArtifact)) :
    List (CanonicalSourceIdentity × String × ArtifactDescriptor) → (Nat → PutFault) →
      LedgerStorage × Except ProjectionError (AList (fun _ : String => EmbeddingArtifact))
  | [], _ => (st, .ok supplied)
  | ready :: rest, faults =>
    match checkSupplied P view supplied ready with
    | .error e => (st, .error e)
    | .ok (builder, bytes) =>
      match putImmutable st ready.2.2.artifactHash bytes (faults 0) with
      | (st, .error _) => (st, .error .artifactStoreUnavailable)
      | (st, .ok _) =>
        match rereadArtifact P st ready.2.2 builder with
        | .error e => (st, .error e)
        | .ok _ => persistAll view st (supplied.erase ready.2.2.artifactHash) rest fun i => faults (i + 1)

/-- What must be written for the new records: the supplied artifacts are those of the ready transitions. -/
def requiredArtifacts (records : List ManifestRecord) (artifacts : List EmbeddingArtifact) :
    Except ProjectionError (AList (fun _ : String => EmbeddingArtifact)) := do
  let supplied ← artifacts.foldlM (addSupplied P) ∅
  let hashes := (records.filterMap (·.readyArtifact)).map (·.2.2.artifactHash)
  refuse (¬ hashes.Nodup) (.invalid "duplicate_ready_artifact")
  refuse (¬ (supplied.keys ⊆ hashes ∧ hashes ⊆ supplied.keys)) (.invalid "ready_artifact_set_mismatch")
  pure supplied

def persistReadyArtifacts (st : LedgerStorage) (view : ProjectionCurrentView) (records : List ManifestRecord)
    (artifacts : List EmbeddingArtifact) (inputs : ManifestInputs) : LedgerStorage × Except ProjectionError Unit :=
  match requiredArtifacts P records artifacts with
  | .error e => (st, .error e)
  | .ok supplied =>
    match persistAll P view st supplied (records.filterMap (·.readyArtifact)) inputs.artifactFaults with
    | (st, .error e) => (st, .error e)
    | (st, .ok supplied) =>
      (st, do
        refuse (supplied.keys ≠ []) (.invalid "unused_projection_artifact")
        refuse (inputs.artifactFlushFault = true) .artifactStoreUnavailable)

/-! ## Encoding -/

/-- The next generation, ready to be written: its objects in writing order. -/
structure EncodedCommit where
  root : ProjectionRoot
  rootHash : String
  objects : List (String × Bytes)

def segmentOf (c : Candidate) : ProjectionSegment :=
  { schema := manifestSegmentSchema
    firstSequence := c.firstSequence
    lastSequence := c.candidateRecords.length
    previousSegmentHash := s.root.manifestHead
    records := c.records }

def candidateRoot (c : Candidate) (segmentHash viewHash : String) : ProjectionRoot :=
  { schema := manifestRootSchema
    generation := c.generation
    previousRootHash := some s.rootHash
    manifestHead := some segmentHash
    eventWatermark := c.candidateRecords.length
    currentViewHash := viewHash
    reconciledSource := c.view.reconciledSource
    committedAt := c.committedAt
    committedByRole := c.committedByRole }

def encodeCommit (c : Candidate) : Except ProjectionError EncodedCommit := do
  let (segmentBytes, segmentHash) ← segmentBytesAndHash P (segmentOf s c)
  let (viewBytes, viewHash) ← viewBytesAndHash P c.view
  let root := candidateRoot s c segmentHash viewHash
  let (rootBytes, rootHash) ← rootBytesAndHash P root
  requireSize segmentBytes maxProjectionManifestObjectBytes
  requireSize viewBytes maxProjectionManifestObjectBytes
  requireSize rootBytes maxProjectionManifestObjectBytes
  pure ⟨root, rootHash, [(segmentHash, segmentBytes), (viewHash, viewBytes), (rootHash, rootBytes)]⟩

/-! ## Writing -/

/-- Object writes report I/O errors only. -/
def storageError : LedgerError → ProjectionError
  | .io error => .io error
  | _ => .io .fault

/-- The state a candidate leads to once its pointer is published. -/
def Candidate.apply (c : Candidate) (e : EncodedCommit) (s : ProjectionStoreState) : ProjectionStoreState :=
  { s with
    rootHash := e.rootHash
    root := e.root
    view := c.view
    records := c.candidateRecords }

def encodePointer (rootHash : String) : Except ProjectionError Bytes := do
  let bytes ← pointerBytes P (rootPointer rootHash)
  requireSize bytes maxProjectionPointerBytes
  pure bytes

variable (store : ProjectionManifestStore)

/-- Publish the pointer over written objects. -/
def publishCommit (c : Candidate) (e : EncodedCommit) (inputs : ManifestInputs) :
    ProjectionManifestStore × Except ProjectionError String :=
  match encodePointer P e.rootHash with
  | .error error => (store, .error error)
  | .ok bytes =>
    let storage := { store.storage with manifest := store.storage.manifest.publish bytes inputs.publishFault }
    match inputs.publishFault with
    | .none => (⟨storage, c.apply e store.state⟩, .ok e.rootHash)
    | .lost => (⟨storage, store.state⟩, .error (.io .fault))
    | .unsynced => (⟨storage, { store.state with poisoned := true }⟩, .error .commitIndeterminate)

/-- Write the objects of an encoded commit and publish it. -/
def writeCommit (c : Candidate) (e : EncodedCommit) (inputs : ManifestInputs) :
    ProjectionManifestStore × Except ProjectionError String :=
  match writeObjects store.storage.manifest e.objects inputs.putFaults with
  | (manifest, .error error) => (⟨⟨manifest, store.storage.artifacts⟩, store.state⟩, .error (storageError error))
  | (manifest, .ok _) =>
    if inputs.flushFault then (⟨⟨manifest, store.storage.artifacts⟩, store.state⟩, .error (.io .fault))
    else publishCommit P ⟨⟨manifest, store.storage.artifacts⟩, store.state⟩ c e inputs

def commit (expectedRootHash : String) (actor : ProjectionCommitActor)
    (events : List ManifestEvent) (artifacts : List EmbeddingArtifact) (canonical : CanonicalProjectionSnapshot)
    (repairingInvalidArtifacts : Bool) (inputs : ManifestInputs) :
    ProjectionManifestStore × Except ProjectionError String :=
  match prepareCandidate P store.state expectedRootHash actor events canonical repairingInvalidArtifacts inputs.now with
  | .error error => (store, .error error)
  | .ok c =>
    match persistReadyArtifacts P store.storage.artifacts c.view c.records artifacts inputs with
    | (stored, .error error) => (⟨⟨store.storage.manifest, stored⟩, store.state⟩, .error error)
    | (stored, .ok _) =>
      match encodeCommit P store.state c with
      | .error error => (⟨⟨store.storage.manifest, stored⟩, store.state⟩, .error error)
      | .ok e => writeCommit P ⟨⟨store.storage.manifest, stored⟩, store.state⟩ c e inputs

/-- `commit` under the operation lock, outside a repair. -/
def commitExpected (expectedRootHash : String) (actor : ProjectionCommitActor)
    (events : List ManifestEvent) (artifacts : List EmbeddingArtifact) (canonical : CanonicalProjectionSnapshot)
    (inputs : ManifestInputs) : ProjectionManifestStore × Except ProjectionError String :=
  commit P store expectedRootHash actor events artifacts canonical false inputs

end Plico.Projection
