import Plico.Model.Projection.Storage

/-!
# Opening the projection store (memory/projection/store.rs)

`ensureGenesis` writes the first root and `loadState` reads a store back against a canonical snapshot: it
follows the roots to genesis, replays and validates the log of every generation, and inspects the
artifacts of the ready projections. `inspectProjectionReader` turns the outcome into the health of the
store.
-/

namespace Plico.Projection

open Plico.Ledger

variable (P : ProjectionPlatform)

structure ArtifactIssue where
  projectionId : Uuid
  reason : StaleReason
  deriving DecidableEq, Repr

/-- The state behind the store's lock. -/
structure ProjectionStoreState where
  poisoned : Bool
  rootHash : String
  root : ProjectionRoot
  view : ProjectionCurrentView
  records : List ManifestRecord
  genesisSource : CanonicalWatermark
  artifactIssues : List ArtifactIssue
  deriving DecidableEq

/-- The sole durable writer of the manifest: its storage and the state behind its lock. -/
structure ProjectionManifestStore where
  storage : ProjectionStorage
  state : ProjectionStoreState

/-! ## Chains -/

variable (st : LedgerStorage)

def readSegment (hash : String) : Except ProjectionError ProjectionSegment := do
  let segment ← readObject P (segmentObject P) st hash
  refuse (segment.schema ≠ manifestSegmentSchema ∨ segment.records.isEmpty) (.invalid "invalid_projection_segment")
  pure segment

/-- Append one segment; the expected first sequence and the records so far are the state. -/
def appendSegment (s : Nat × List ManifestRecord) (segment : ProjectionSegment) :
    Except ProjectionError (Nat × List ManifestRecord) := do
  refuse (segment.firstSequence ≠ s.1 ∨
    segment.lastSequence ≠ segment.firstSequence + segment.records.length - 1)
    (.invalid "non_contiguous_projection_segment")
  pure (segment.lastSequence + 1, s.2 ++ segment.records)

def loadSegmentChain (head : Option String) (watermark : Nat) : Except ProjectionError (List ManifestRecord) :=
  if watermark = 0 then do
    refuse head.isSome (.invalid "empty_projection_log_has_segment")
    pure []
  else do
    let segments ← walk (readSegment P st) (·.previousSegmentHash) (.invalid "projection_segment_cycle")
      (st.keys.length + 1) [] head
    let (_, records) ← (segments.reverse.map Prod.snd).foldlM appendSegment (1, [])
    refuse (records.length ≠ watermark) (.invalid "projection_log_watermark_mismatch")
    pure records

/-- The shape of the root that `ensureGenesis` writes. -/
def isGenesisRoot (root : ProjectionRoot) : Bool :=
  root.manifestHead.isNone && root.eventWatermark == 0 && root.committedAt == 0 &&
    root.committedByRole == personalOwnerRoleId

/-- The roots from `root` to genesis, newest first. Every link lowers the expected generation by one. -/
def followRoots (st : LedgerStorage) :
    Nat → List String → String → ProjectionRoot → Except ProjectionError (List ProjectionRoot)
  | 0, seen, hash, root => do
    refuse (hash ∈ seen ∨ root.schema ≠ manifestRootSchema ∨ root.generation ≠ 0)
      (.invalid "invalid_projection_root_chain")
    match root.previousRootHash with
    | some _ => .error (.invalid "invalid_projection_root_generation")
    | none => do
      refuse (isGenesisRoot root = false) (.invalid "truncated_projection_root_chain")
      pure [root]
  | expectedGeneration + 1, seen, hash, root => do
    refuse (hash ∈ seen ∨ root.schema ≠ manifestRootSchema ∨ root.generation ≠ expectedGeneration + 1)
      (.invalid "invalid_projection_root_chain")
    match root.previousRootHash with
    | some previousHash => do
      let previous ← readObject P (rootObject P) st previousHash
      refuse (root.eventWatermark < previous.eventWatermark) (.invalid "projection_watermark_regression")
      let rest ← followRoots st expectedGeneration (hash :: seen) previousHash previous
      pure (root :: rest)
    | none => .error (.invalid "truncated_projection_root_chain")

def loadRootChain (activeHash : String) (activeRoot : ProjectionRoot) :
    Except ProjectionError (List ProjectionRoot) := do
  let roots ← followRoots P st activeRoot.generation [] activeHash activeRoot
  pure roots.reverse

/-! ## History -/

/-- What one generation adds to the one before it. -/
def validateGenerationBoundary (previous root : ProjectionRoot)
    (priorRecords records : List ManifestRecord) : Except ProjectionError Unit := do
  refuse (root.eventWatermark ≤ previous.eventWatermark ∨ root.committedAt ≤ previous.committedAt)
    (.invalid "empty_projection_generation")
  let suffix := records.drop priorRecords.length
  refuse (suffix.isEmpty ∨ ∃ record ∈ suffix, record.committedAt ≠ root.committedAt ∨
    record.committedByRole ≠ root.committedByRole) (.invalid "projection_root_record_boundary_mismatch")
  let head ← required root.manifestHead (.invalid "missing_projection_segment_head")
  let segment ← readObject P (segmentObject P) st head
  refuse (segment.previousSegmentHash ≠ previous.manifestHead ∨
    checkedAdd 64 previous.eventWatermark 1 ≠ some segment.firstSequence ∨
    segment.lastSequence ≠ root.eventWatermark ∨ segment.records ≠ suffix)
    (.invalid "projection_generation_segment_mismatch")

variable (genesisSource : CanonicalWatermark)

/-- One generation after the records and the root of the one before. -/
def validateHistoricalRoot
    (canonical : CanonicalProjectionSnapshot) (prior : List ManifestRecord × Option ProjectionRoot)
    (root : ProjectionRoot) : Except ProjectionError (List ManifestRecord × Option ProjectionRoot) := do
  refuse (root.generation > maxJcsSafeInteger ∨ root.eventWatermark > maxJcsSafeInteger ∨
    root.committedAt > maxJcsSafeInteger ∨
    (root.generation > 0 ∧ (root.committedAt = 0 ∨ isBlank root.committedByRole)))
    (.invalid "invalid_projection_root_boundary")
  let records ← loadSegmentChain P st root.manifestHead root.eventWatermark
  refuse (¬ prior.1 <+: records) (.invalid "projection_history_not_prefix")
  checkAll (fun previous => validateGenerationBoundary P st previous root prior.1 records) prior.2.toList
  let rebuilt ← rebuildCurrentView P root.generation genesisSource records
  validateCandidate rebuilt records canonical
  let stored ← readObject P (viewObject P) st root.currentViewHash
  refuse (stored ≠ rebuilt ∨ root.reconciledSource ≠ rebuilt.reconciledSource)
    (.invalid "historical_projection_view_mismatch")
  pure (records, some root)

def validateHistoricalRoots (roots : List ProjectionRoot) (genesisSource : CanonicalWatermark)
    (canonical : CanonicalProjectionSnapshot) : Except ProjectionError Unit := do
  let _ ← roots.foldlM (validateHistoricalRoot P st genesisSource canonical) ([], none)
  pure ()

/-! ## Artifacts -/

def ProjectionState.referencedHash : ProjectionState → Option String
  | .ready _ _ artifact | .stale _ artifact => some artifact.artifactHash
  | _ => none

def referencedHashes (view : ProjectionCurrentView) : List String :=
  view.entries.filterMap fun entry => entry.state.referencedHash

/-- Every artifact file that no entry names is readable within the limit. -/
def validateInventory (artifacts : LedgerStorage) (referenced : List String) : Except IoError Unit :=
  checkAll
    (fun hash => do
      Ledger.validateHash hash
      refuse ((readBounded artifacts hash maxEmbeddingArtifactBytes).toOption.isNone ∧ hash ∉ referenced) .tooLarge)
    artifacts.keys

/-- What is wrong with the bytes of a ready artifact. Only an unknown schema is an error. -/
def inspectArtifact (builders : List ActiveBuilderSpec) (artifact : ArtifactDescriptor) (bytes : Bytes) :
    Except ProjectionError (Option StaleReason) :=
  match parseEmbeddingArtifact P bytes with
  | .error (.unsupportedFormat component) => .error (.unsupportedFormat component)
  | .error _ => .ok (some .artifactInvalid)
  | .ok restored =>
    match artifactBytesAndHash P restored with
    | .error _ => .ok (some .artifactInvalid)
    | .ok (_, restoredHash) =>
      if restoredHash ≠ artifact.artifactHash then .ok (some .artifactHashMismatch)
      else
        match builders.find? fun builder => builder.builderSpecHash = artifact.builderSpecHash with
        | none => .ok (some .artifactInvalid)
        | some builder =>
          match validateArtifact P restored artifact builder.builderSpec with
          | .error _ => .ok (some .artifactInvalid)
          | .ok _ => .ok none

/-- The issue of one entry, if it is ready and its artifact is missing or invalid. -/
def inspectEntry (artifacts : LedgerStorage) (builders : List ActiveBuilderSpec) (entry : ProjectionEntry) :
    Except ProjectionError (Option ArtifactIssue) :=
  match entry.state with
  | .ready _ _ artifact =>
    match readBounded artifacts artifact.artifactHash maxEmbeddingArtifactBytes with
    | .error .notFound => .ok (some ⟨entry.projectionId, .artifactMissing⟩)
    | .error _ => .ok (some ⟨entry.projectionId, .artifactInvalid⟩)
    | .ok bytes => do
      let reason ← inspectArtifact P builders artifact bytes
      pure (reason.map fun reason => ⟨entry.projectionId, reason⟩)
  | _ => .ok none

def inspectReadyArtifacts (artifacts : LedgerStorage) (view : ProjectionCurrentView) :
    Except ProjectionError (List ArtifactIssue) := do
  let issues ← view.entries.mapM (inspectEntry P artifacts view.activeBuilderSpecs)
  pure (issues.filterMap id)

/-! ## Loading -/

def isGenesisOnly (root : ProjectionRoot) (records : List ManifestRecord) (view : ProjectionCurrentView) : Bool :=
  root.generation == 0 && root.manifestHead.isNone && root.eventWatermark == 0 && records.isEmpty &&
    view.generation == 0 && view.eventWatermark == 0 && view.activeBuilderSpecs.isEmpty && view.entries.isEmpty

def loadState (st : ProjectionStorage) (canonical : CanonicalProjectionSnapshot) :
    Except ProjectionError ProjectionStoreState := do
  let active ← (readActiveBounded st.manifest maxProjectionPointerBytes).mapError .io
  let pointerBytesValue ← required active (.invalid "missing_projection_pointer")
  let pointer ← parseCanonicalWithSchema P (pointerObject P) pointerBytesValue
  let activeRoot ← readObject P (rootObject P) st.manifest pointer.rootHash
  let roots ← loadRootChain P st.manifest pointer.rootHash activeRoot
  let genesisRoot ← required roots.head? (.invalid "missing_projection_genesis")
  let genesisView ← readObject P (viewObject P) st.manifest genesisRoot.currentViewHash
  let genesisSource := genesisView.reconciledSource
  validateHistoricalRoots P st.manifest roots genesisSource canonical
  let records ← loadSegmentChain P st.manifest activeRoot.manifestHead activeRoot.eventWatermark
  let rebuilt ← rebuildCurrentView P activeRoot.generation genesisSource records
  let storedView ← readObject P (viewObject P) st.manifest activeRoot.currentViewHash
  refuse (storedView ≠ rebuilt ∨ activeRoot.reconciledSource ≠ storedView.reconciledSource)
    (.invalid "projection_current_view_rebuild_mismatch")
  checkIf (isGenesisOnly activeRoot records storedView = false)
    ((validateInventory st.artifacts (referencedHashes storedView)).mapError .io)
  let artifactIssues ← inspectReadyArtifacts P st.artifacts storedView
  pure
    { poisoned := false
      rootHash := pointer.rootHash
      root := activeRoot
      view := storedView
      records, genesisSource, artifactIssues }

def validateStateAgainstCanonical (s : ProjectionStoreState) (canonical : CanonicalProjectionSnapshot) :
    Except ProjectionError Unit :=
  validateCandidate s.view s.records canonical

variable (canonical : CanonicalProjectionSnapshot)

def CanonicalProjectionSnapshot.genesisWatermark : CanonicalWatermark :=
  Projection.watermark canonical.genesisRootHash canonical.genesisRoot

def requireCanonicalGenesis (s : ProjectionStoreState) (canonical : CanonicalProjectionSnapshot) :
    Except ProjectionError Unit :=
  refuse (s.genesisSource ≠ canonical.genesisWatermark) (.invalid "projection_genesis_source_mismatch")

/-- Load a store and compare it with canonical truth, as every opening does. -/
def loadAgainst (st : ProjectionStorage) (canonical : CanonicalProjectionSnapshot) :
    Except ProjectionError ProjectionStoreState := do
  let s ← loadState P st canonical
  validateStateAgainstCanonical s canonical
  requireCanonicalGenesis s canonical
  pure s

def openExistingUnrepaired (st : ProjectionStorage) (canonical : CanonicalProjectionSnapshot) :
    Except ProjectionError ProjectionManifestStore := do
  let state ← loadAgainst P st canonical
  pure ⟨st, state⟩

/-! ## Genesis -/

def genesisRoot (viewHash : String) : ProjectionRoot :=
  { schema := manifestRootSchema
    generation := 0
    previousRootHash := none
    manifestHead := none
    eventWatermark := 0
    currentViewHash := viewHash
    reconciledSource := genesisSource
    committedAt := 0
    committedByRole := personalOwnerRoleId }

def rootPointer (rootHash : String) : RootPointer := ⟨rootPointerSchema, rootHash⟩

/-- Write one manifest object and go on with the store it leaves. -/
def thenPut (hash : String) (bytes : Bytes)
    (next : LedgerStorage → Except ProjectionError LedgerStorage) : Except ProjectionError LedgerStorage :=
  match putImmutable st hash bytes .none with
  | (st, .ok _) => next st
  | (_, .error e) => .error (.io e)

/-- Write the genesis view, root and pointer into a store that has no pointer. -/
def writeGenesis : Except ProjectionError LedgerStorage := do
  let view ← rebuildCurrentView P 0 genesisSource []
  let (viewBytes, viewHash) ← viewBytesAndHash P view
  let (rootBytes, rootHash) ← rootBytesAndHash P (genesisRoot genesisSource viewHash)
  requireSize viewBytes maxProjectionManifestObjectBytes
  requireSize rootBytes maxProjectionManifestObjectBytes
  refuse (∃ hash ∈ st.keys, hash ∉ [viewHash, rootHash]) (.invalid "projection_genesis_has_unpublished_objects")
  thenPut st viewHash viewBytes fun st =>
    thenPut st rootHash rootBytes fun st => do
      let bytes ← pointerBytes P (rootPointer rootHash)
      requireSize bytes maxProjectionPointerBytes
      pure (st.publish bytes .none)

def ensureGenesis : Except ProjectionError LedgerStorage := do
  let active ← (readActiveBounded st maxProjectionPointerBytes).mapError .io
  if active.isSome then pure st else writeGenesis P st genesisSource

def projectionStateIsGenesisOnly (s : ProjectionStoreState) : Bool :=
  s.records.isEmpty && s.root.generation == 0 && s.root.eventWatermark == 0 && s.view.activeBuilderSpecs.isEmpty &&
    s.view.entries.isEmpty && s.artifactIssues.isEmpty

/-- Make the projection store of a ledger that has none. -/
def bootstrapNew : Except ProjectionError ProjectionManifestStore := do
  let manifest ← ensureGenesis P .empty canonical.genesisWatermark
  let state ← loadAgainst P ⟨manifest, .empty⟩ canonical
  refuse (projectionStateIsGenesisOnly state = false) (.invalid "projection_target_is_not_clean_genesis")
  pure ⟨⟨manifest, .empty⟩, state⟩

end Plico.Projection
