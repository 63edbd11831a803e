import Plico.Model.Projection.Commit

/-!
# The operations of the projection store (memory/projection/store.rs)

Each operation reads the current view, proposes events from it (`activationEvents`, `reconcileEvents`,
`ownerRebuildEvents`, `claimEvent`) and commits them against the root it read. A claim is fenced by a
`ProjectionBuildGuard`: a completion must find the entry exactly as the claim left it.
-/

namespace Plico.Projection

open Plico.Ledger

variable (P : ProjectionPlatform)

/-! ## Reading the state -/

variable (s : ProjectionStoreState)

/-- Neither poisoned nor in need of a repair. -/
def requireClean : Except ProjectionError Unit := do
  refuse (s.poisoned = true) .writerPoisoned
  refuse (s.artifactIssues ≠ []) (.artifactRepairRequired s.artifactIssues.length)

def currentView : Except ProjectionError ProjectionCurrentView := do
  requireClean s
  pure s.view

def rootHash (s : ProjectionStoreState) : Except ProjectionError String := do
  requireClean s
  pure s.rootHash

variable (view : ProjectionCurrentView)

def ProjectionCurrentView.activeBuilder : Option ActiveBuilderSpec :=
  view.activeBuilderSpecs.find? fun builder => builder.projectionKind = .memoryEmbedding

def ProjectionCurrentView.entry (view : ProjectionCurrentView) (id : Uuid) : Option ProjectionEntry :=
  view.entries.find? fun entry => entry.projectionId = id

variable (entry : ProjectionEntry)

/-- The transition of an entry to its next state. -/
def transitionEvent (desiredBuilderSpecHash : String) (state : ProjectionState) :
    Except ProjectionError ManifestEvent := do
  let version ← required (checkedAdd 64 entry.projectionVersion 1) (.invalid "projection_version_overflow")
  pure (.projectionTransition
    { projectionId := entry.projectionId
      projectionKind := entry.projectionKind
      projectionVersion := version
      previousSequence := some entry.lastTransitionSequence
      source := entry.source
      desiredBuilderSpecHash, state })

/-! ## Activating a builder -/

/-- Where a change of the builder sends a projection. -/
def builderChangedState : ProjectionState → Option ProjectionState
  | .absentByPolicy _ => none
  | .ready _ _ artifact => some (.stale .builderSpecChanged artifact)
  | _ => some (.queued .builderChanged)

/-- The transition of one entry under a new builder. -/
def builderChangedEvent (builderSpecHash : String) (entry : ProjectionEntry) :
    Except ProjectionError (Option ManifestEvent) :=
  match builderChangedState entry.state with
  | none => .ok none
  | some state => do
    let event ← transitionEvent entry builderSpecHash state
    pure (some event)

variable (builderSpec : BuilderSpec)

def activationEvents (builderSpecHash : String) : Except ProjectionError (List ManifestEvent) := do
  let previous := view.activeBuilder
  let transitions ← (if previous.isSome then view.entries else []).mapM (builderChangedEvent builderSpecHash)
  pure (.builderActivated
    { projectionKind := .memoryEmbedding
      builderSpec, builderSpecHash
      previousBuilderSpecHash := previous.map (·.builderSpecHash) } :: transitions.filterMap id)

/-- The hash of a valid specification. -/
def checkedBuilderHash : Except ProjectionError String := do
  let (_, builderSpecHash) ← builderSpecBytesAndHash P builderSpec
  validateBuilderHash P builderSpec builderSpecHash
  pure builderSpecHash

variable (store : ProjectionManifestStore)

/-! ## Reconciling -/

/-- What reconciliation makes of a projection in state `existing` whose revision should be absent for the
reason `absent`, if any. -/
def reconciledState (existing : Option ProjectionState) (absent : Option AbsentReason) (now : Nat) :
    Option ProjectionState :=
  match existing, absent with
  | some (.absentByPolicy reason), some expected =>
    if reason = expected then none else some (.absentByPolicy expected)
  | _, some expected => some (.absentByPolicy expected)
  | none, none | some (.absentByPolicy _), none => some (.queued .reconciliation)
  | some (.building _ _ leaseExpiresAt), none => if leaseExpiresAt ≤ now then some (.queued .leaseExpired) else none
  | some (.failed _ _ _ true (some retryAt)), none => if retryAt ≤ now then some (.queued .retry) else none
  | some (.stale ..), none => some (.queued .builderChanged)
  | some _, none => none

/-- The first transition of a revision's projection. -/
def firstTransition (id : Uuid) (revision : CanonicalRevision) (builderSpecHash : String) (state : ProjectionState) :
    ManifestEvent :=
  .projectionTransition
    { projectionId := id
      projectionKind := .memoryEmbedding
      projectionVersion := 1
      previousSequence := none
      source := canonicalSource revision
      desiredBuilderSpecHash := builderSpecHash
      state }

/-- Move the projection of a revision to `state`: the entry it has, or a new one. -/
def reconcileTransition (existing : Option ProjectionEntry) (id : Uuid) (revision : CanonicalRevision)
    (builderSpecHash : String) (state : ProjectionState) : Except ProjectionError ManifestEvent :=
  match existing with
  | some entry => transitionEvent entry builderSpecHash state
  | none => .ok (firstTransition id revision builderSpecHash state)

/-- The transition of one revision, if it needs one. -/
def reconcileRevision (builderSpecHash : String)
    (canonical : CanonicalProjectionSnapshot) (now : Nat) (revision : CanonicalRevision) :
    Except ProjectionError (Option ManifestEvent) := do
  let id ← projectionId P revision.revisionId
  let existing := view.entry id
  match reconciledState (existing.map (·.state)) (expectedAbsentReason revision canonical.revisions) now with
  | none => pure none
  | some state => do
    let event ← reconcileTransition existing id revision builderSpecHash state
    pure (some event)

variable (canonical : CanonicalProjectionSnapshot)

/-- The advance of the reconciled watermark, if it moves. -/
def advanceEvents : List ManifestEvent :=
  if view.reconciledSource = canonical.watermark then []
  else
    [.reconciliationAdvanced
      { previousSource := view.reconciledSource
        reconciledSource := canonical.watermark
        classifiedRevisionCount := canonical.root.revisionWatermark }]

def reconcileEvents (now : Nat) : Except ProjectionError (List ManifestEvent) := do
  let active ← required view.activeBuilder (.invalid "missing_active_memory_embedding_builder")
  let transitions ← canonical.revisions.mapM (reconcileRevision P view active.builderSpecHash canonical now)
  pure (transitions.filterMap id ++ advanceEvents view canonical)

structure ProjectionOwnerRebuildReceipt where
  manifestGeneration : Nat
  eventWatermark : Nat
  reconciledSource : CanonicalWatermark
  deriving DecidableEq, Repr

/-- The receipt of a commit of `count` events over `view`. -/
def receiptAfter (count : Nat) (reconciledSource : CanonicalWatermark) :
    Except ProjectionError ProjectionOwnerRebuildReceipt := do
  let manifestGeneration ← required (checkedAdd 64 view.generation 1) (.invalid "projection_generation_overflow")
  let eventWatermark ← required (checkedAdd 64 view.eventWatermark count) (.invalid "projection_sequence_overflow")
  pure ⟨manifestGeneration, eventWatermark, reconciledSource⟩

/-! ## Rebuilding for the owner -/

def rebuildTarget (revisionId : MemoryRevisionId) : Except ProjectionError ProjectionEntry := do
  let entry ← required (view.entries.find? fun entry => entry.source.revisionId = revisionId)
    (.invalid "projection_rebuild_target_unreconciled")
  refuse (entry.state.isAbsent = true) (.invalid "projection_rebuild_target_not_eligible")
  pure entry

/-- A ready projection goes stale and is queued by the transition after that. -/
def rebuildReady (events : List ManifestEvent) (entry : ProjectionEntry)
    (artifact : ArtifactDescriptor) : Except ProjectionError (List ManifestEvent) := do
  let last ← required (checkedAdd 64 view.eventWatermark events.length) (.invalid "projection_sequence_overflow")
  let staleSequence ← required (checkedAdd 64 last 1) (.invalid "projection_sequence_overflow")
  let stale ← transitionEvent entry entry.desiredBuilderSpecHash (.stale .ownerRebuild artifact)
  let version ← required (checkedAdd 64 entry.projectionVersion 2) (.invalid "projection_version_overflow")
  pure (events ++ [stale, .projectionTransition
    { projectionId := entry.projectionId
      projectionKind := entry.projectionKind
      projectionVersion := version
      previousSequence := some staleSequence
      source := entry.source
      desiredBuilderSpecHash := entry.desiredBuilderSpecHash
      state := .queued .ownerRebuild }])

/-- Add the transitions of one target to the events so far. -/
def rebuildEntry (events : List ManifestEvent) (entry : ProjectionEntry) :
    Except ProjectionError (List ManifestEvent) :=
  match entry.state with
  | .ready _ _ artifact => rebuildReady view events entry artifact
  | _ => do
    let queued ← transitionEvent entry entry.desiredBuilderSpecHash (.queued .ownerRebuild)
    pure (events ++ [queued])

def ownerRebuildEvents (selected : List MemoryRevisionId) : Except ProjectionError (List ManifestEvent) := do
  refuse (¬ selected.Nodup) (.invalid "duplicate_projection_rebuild_target")
  let entries ← selected.mapM (rebuildTarget view)
  (entries.insertionSort fun left right => left.source.revisionSequence ≤ right.source.revisionSequence).foldlM
    (rebuildEntry view) []

/-! ## Claiming -/

structure ProjectionBuildGuard where
  entry : ProjectionEntry
  attempt : Nat
  attemptId : Uuid
  claimEventWatermark : Nat
  canonicalWatermark : CanonicalWatermark
  deriving DecidableEq, Repr

def ProjectionState.isQueued : ProjectionState → Bool
  | .queued _ => true
  | _ => false

def firstQueued : Option ProjectionEntry :=
  view.entries.find? fun entry => entry.state.isQueued

/-- The time below which the next commit cannot be stamped. -/
def committedFloor : Except ProjectionError Nat :=
  required (checkedAdd 64 s.root.committedAt 1) (.invalid "projection_commit_time_overflow")

def claimAttempt : Except ProjectionError Nat :=
  required (checkedAdd 32 entry.attemptCount 1) (.invalid "projection_attempt_overflow")

/-- The transition that claims a queued entry. -/
def claimEvent (attempt : Nat) (attemptId : Uuid) (now floor : Nat) : Except ProjectionError ManifestEvent := do
  let leaseExpiresAt ← required (checkedAdd 64 (max now floor) 60000) (.invalid "projection_lease_overflow")
  transitionEvent entry entry.desiredBuilderSpecHash (.building attempt attemptId leaseExpiresAt)

/-- The guard of a committed claim, from the view read after the commit. -/
def claimedGuard (id : Uuid) (attempt : Nat) (attemptId : Uuid) : Except ProjectionError ProjectionBuildGuard := do
  let view ← currentView s
  let entry ← required (view.entry id) (.invalid "claimed_projection_missing")
  pure
    { entry, attempt, attemptId
      claimEventWatermark := view.eventWatermark
      canonicalWatermark := canonical.watermark }

/-! ## Completing -/

variable (g : ProjectionBuildGuard)

/-- The entry is still in the transition that the guard's claim made. -/
def ProjectionBuildGuard.matchesEntry (entry : ProjectionEntry) : Bool :=
  entry.projectionVersion == g.entry.projectionVersion &&
    entry.lastTransitionSequence == g.entry.lastTransitionSequence && entry.source == g.entry.source &&
    entry.desiredBuilderSpecHash == g.entry.desiredBuilderSpecHash &&
    entry.state.isBuildingOf g.attempt g.attemptId

def currentGuardedBuilder : Except ProjectionError (String × ActiveBuilderSpec) := do
  refuse (s.poisoned = true) .writerPoisoned
  let entry ← required (s.view.entry g.entry.projectionId) .headConflict
  refuse (g.matchesEntry entry = false) .headConflict
  let active ← required
    (s.view.activeBuilder.filter fun builder => builder.builderSpecHash = g.entry.desiredBuilderSpecHash) .headConflict
  pure (s.rootHash, active)

/-- The artifact of a build, with the descriptor of its canonical bytes. -/
def builtArtifact (active : ActiveBuilderSpec) (vector : List (BitVec 32)) :
    Except ProjectionError (EmbeddingArtifact × ArtifactDescriptor) := do
  let artifact : EmbeddingArtifact :=
    { schema := embeddingArtifactSchema
      projectionId := g.entry.projectionId
      sourceRevisionId := g.entry.source.revisionId
      sourceContentHash := g.entry.source.contentHash
      builderSpecHash := g.entry.desiredBuilderSpecHash
      dimension := active.builderSpec.dimension
      encoding := "f32-json/v1"
      vector }
  let (bytes, artifactHash) ← artifactBytesAndHash P artifact
  pure (artifact,
    { artifactHash
      byteLength := bytes.length
      artifactSchema := embeddingArtifactSchema
      dimension := active.builderSpec.dimension
      sourceRevisionId := g.entry.source.revisionId
      sourceContentHash := g.entry.source.contentHash
      builderSpecHash := g.entry.desiredBuilderSpecHash })

/-- The canonical guard is for the source of the claim. -/
def CanonicalProjectionGuard.authorizes (canonical : CanonicalProjectionGuard) (source : CanonicalSourceIdentity) :
    Bool :=
  canonical.source == source

def prepareReady (vector : List (BitVec 32))
    (canonical : CanonicalProjectionGuard) : Except ProjectionError (String × ManifestEvent × EmbeddingArtifact) := do
  refuse (canonical.authorizes g.entry.source = false) .headConflict
  let (root, active) ← currentGuardedBuilder s g
  let (artifact, descriptor) ← builtArtifact P g active vector
  let event ← transitionEvent g.entry g.entry.desiredBuilderSpecHash (.ready g.attempt g.attemptId descriptor)
  pure (root, event, artifact)

def completeReady (vector : List (BitVec 32)) (canonical : CanonicalProjectionGuard) (inputs : ManifestInputs) :
    ProjectionManifestStore × Except ProjectionError String :=
  match prepareReady P store.state g vector canonical with
  | .error e => (store, .error e)
  | .ok (root, event, artifact) => commit P store root .worker [event] [artifact] canonical.snapshot false inputs

def FailureCategory.retryable : FailureCategory → Bool
  | .invalidProjection | .providerIdentityChanged => false
  | .providerUnavailable | .artifactStoreUnavailable => true

/-- `1_000 << min(attempt, 8)`, at most five minutes. -/
def retryDelayMs (attempt : Nat) : Nat :=
  max (min (1000 * 2 ^ min attempt 8) 300000) 1

/-- When a failed build may be tried again. -/
def retryNotBefore (category : FailureCategory) (now : Nat) : Except ProjectionError (Option Nat) :=
  if category.retryable then do
    let retryAt ← required (checkedAdd 64 (max s.root.committedAt now) (retryDelayMs g.attempt))
      (.invalid "projection_retry_time_overflow")
    pure (some retryAt)
  else .ok none

def prepareFailed (category : FailureCategory)
    (canonical : CanonicalProjectionGuard) (now : Nat) : Except ProjectionError (String × ManifestEvent) := do
  refuse (canonical.authorizes g.entry.source = false) .headConflict
  let (root, _) ← currentGuardedBuilder s g
  let retryAt ← retryNotBefore s g category now
  let event ← transitionEvent g.entry g.entry.desiredBuilderSpecHash
    (.failed g.attempt g.attemptId category category.retryable retryAt)
  pure (root, event)

def completeFailed (category : FailureCategory)
    (canonical : CanonicalProjectionGuard) (now : Nat) (inputs : ManifestInputs) :
    ProjectionManifestStore × Except ProjectionError String :=
  match prepareFailed store.state g category canonical now with
  | .error e => (store, .error e)
  | .ok (root, event) => commit P store root .worker [event] [] canonical.snapshot false inputs

/-! ## Repairing -/

/-- The damage of a file that the cleanup may delete. -/
def invalidOnDisk (artifact : ArtifactDescriptor) (builder : BuilderSpec) (bytes : Bytes) :
    Except ProjectionError Bool :=
  if bytes.length > maxEmbeddingArtifactBytes then .ok true
  else
    match parseEmbeddingArtifact P bytes with
    | .ok restored => .ok (validateArtifact P restored artifact builder).toOption.isNone
    | .error (.unsupportedFormat component) => .error (.unsupportedFormat component)
    | .error _ => .ok true

/-- Delete the file of a stale artifact that is invalid on disk, unless it is gone already. -/
def cleanupArtifact (builders : List ActiveBuilderSpec) (st : LedgerStorage) (artifact : ArtifactDescriptor) :
    Except ProjectionError LedgerStorage := do
  let builder ← required (builders.find? fun builder => builder.builderSpecHash = artifact.builderSpecHash)
    (.invalid "stale_artifact_builder_missing")
  refuse (isLowerHash artifact.artifactHash = false) .artifactMaintenanceRequired
  match st.lookup artifact.artifactHash with
  | none => pure st
  | some bytes => do
    let isInvalid ← invalidOnDisk P artifact builder.builderSpec bytes
    refuse (isInvalid = false) .artifactMaintenanceRequired
    pure (st.remove artifact.artifactHash)

/-- The artifacts that a repair found damaged. -/
def ProjectionState.damagedArtifact : ProjectionState → Option ArtifactDescriptor
  | .stale .artifactHashMismatch artifact | .stale .artifactInvalid artifact => some artifact
  | _ => none

/-- Delete damaged files up to the first failure. -/
def cleanupAll (builders : List ActiveBuilderSpec) (st : LedgerStorage) :
    List ArtifactDescriptor → LedgerStorage × Except ProjectionError Unit
  | [] => (st, .ok ())
  | artifact :: rest =>
    match cleanupArtifact P builders st artifact with
    | .error e => (st, .error e)
    | .ok st => cleanupAll builders st rest

def cleanupInvalidStaleArtifacts : ProjectionManifestStore × Except ProjectionError Unit :=
  match currentView store.state with
  | .error e => (store, .error e)
  | .ok view =>
    let (artifacts, result) := cleanupAll P view.activeBuilderSpecs store.storage.artifacts
      (view.entries.filterMap fun entry => entry.state.damagedArtifact)
    (⟨⟨store.storage.manifest, artifacts⟩, store.state⟩, result)

/-- The transition of an entry whose artifact has an issue. -/
def repairEvent (issue : ArtifactIssue) : Except ProjectionError ManifestEvent := do
  let entry ← required (view.entry issue.projectionId) (.invalid "artifact_repair_entry_missing")
  match entry.state with
  | .ready _ _ artifact => transitionEvent entry entry.desiredBuilderSpecHash (.stale issue.reason artifact)
  | _ => .error (.invalid "artifact_repair_entry_not_ready")

def prepareRepair : Except ProjectionError (List ManifestEvent) := do
  refuse (s.poisoned = true) .writerPoisoned
  s.artifactIssues.mapM (repairEvent s.view)

/-- The cleanup after a committed repair. -/
def finishRepair (published : Option String) : ProjectionManifestStore × Except ProjectionError (Option String) :=
  let (store, result) := cleanupInvalidStaleArtifacts P store
  (store, result.map fun _ => published)

def repairInvalidArtifacts
    (inputs : ManifestInputs) : ProjectionManifestStore × Except ProjectionError (Option String) :=
  match prepareRepair store.state with
  | .error e => (store, .error e)
  | .ok [] => finishRepair P store none
  | .ok events =>
    match commit P store store.state.rootHash .worker events [] canonical true inputs with
    | (store, .error e) => (store, .error e)
    | (store, .ok published) =>
      finishRepair P { store with state := { store.state with artifactIssues := [] } } (some published)

end Plico.Projection
