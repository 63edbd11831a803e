import Plico.Model.Projection.Validate

/-!
# Replaying the manifest log (memory/projection/current_view.rs)

`rebuildCurrentView` replays a log of records and is the only judge of what a log may hold: each
transition must continue its projection's chain, be made by the actor its state calls for, and be in the
table `transitionAllowed`. The state of the replay is a `ViewScan`.
-/

namespace Plico.Projection

open Plico.Ledger

variable (P : ProjectionPlatform)

def projectionWorkerRole : String := "projection-worker"

/-! ## The transition table -/

/-- States that only the owner may enter. -/
def ownerAction : ProjectionState → Bool
  | .queued .ownerRebuild | .queued .builderChanged => true
  | .stale .ownerRebuild _ | .stale .builderSpecChanged _ => true
  | _ => false

def expectedActor (next : ProjectionState) : String :=
  if ownerAction next then personalOwnerRoleId else projectionWorkerRole

def transitionAllowed : Option ProjectionState → ProjectionState → Bool
  | none, .absentByPolicy _ | none, .queued _ => true
  | some (.absentByPolicy _), .queued _ => true
  | some (.queued _), .queued .builderChanged | some (.queued _), .queued .ownerRebuild => true
  | some (.queued _), .building .. | some (.queued _), .absentByPolicy _ => true
  | some (.building ..), .ready .. | some (.building ..), .failed .. => true
  | some (.building ..), .queued _ | some (.building ..), .absentByPolicy _ => true
  | some (.ready ..), .stale .. | some (.ready ..), .absentByPolicy _ => true
  | some (.failed ..), .queued _ | some (.failed ..), .absentByPolicy _ => true
  | some (.stale ..), .queued _ | some (.stale ..), .absentByPolicy _ => true
  | _, _ => false

def ProjectionState.isBuildingOf (attempt : Nat) (attemptId : Uuid) : ProjectionState → Bool
  | .building a i _ => a == attempt && i == attemptId
  | _ => false

def ProjectionState.isAbsent : ProjectionState → Bool
  | .absentByPolicy _ => true
  | _ => false

variable (previous : Option ProjectionState) (next : ProjectionState)

/-- A build ends the attempt that was started. -/
def checkAttempt : Except ProjectionError Unit :=
  match previous, next with
  | some previous, .ready attempt attemptId _ | some previous, .failed attempt attemptId .. =>
    refuse (previous.isBuildingOf attempt attemptId = false) (.invalid "projection_attempt_mismatch")
  | _, _ => .ok ()

/-- When a projection may go back to the queue. -/
def checkRequeue (committedAt : Nat) : Except ProjectionError Unit :=
  match previous, next with
  | some (.absentByPolicy _), .queued .ownerRebuild =>
    .error (.invalid "owner_rebuild_cannot_revive_absent_projection")
  | some (.building _ _ leaseExpiresAt), .queued .leaseExpired =>
    refuse (committedAt < leaseExpiresAt) (.invalid "invalid_projection_retry_transition")
  | some (.failed _ _ _ true (some retryAt)), .queued .retry =>
    refuse (committedAt < retryAt) (.invalid "invalid_projection_retry_transition")
  | some (.failed ..), .queued .builderChanged | some (.failed ..), .queued .ownerRebuild => .ok ()
  | some (.failed ..), .queued _ => .error (.invalid "invalid_projection_retry_transition")
  | some (.building ..), .queued .builderChanged | some (.building ..), .queued .ownerRebuild => .ok ()
  | some (.building ..), .queued _ => .error (.invalid "invalid_projection_retry_transition")
  | _, _ => .ok ()

def validateActorAndTransition (record : ManifestRecord) : Except ProjectionError Unit := do
  refuse (record.committedByRole ≠ expectedActor next ∨ transitionAllowed previous next = false)
    (.invalid "illegal_projection_transition")
  checkAttempt previous next
  checkRequeue previous next record.committedAt

def validateStateBinding
    (source : CanonicalSourceIdentity) (desiredBuilderSpecHash : String) (activeBuilder : ActiveBuilderSpec) :
    Except ProjectionError Unit :=
  match next with
  | .ready _ _ artifact =>
    refuse (artifact.sourceRevisionId ≠ source.revisionId ∨ artifact.sourceContentHash ≠ source.contentHash ∨
      artifact.builderSpecHash ≠ desiredBuilderSpecHash ∨ artifact.dimension ≠ activeBuilder.builderSpec.dimension)
      (.invalid "ready_artifact_binding_mismatch")
  | .stale _ artifact =>
    match previous with
    | some (.ready _ _ previousArtifact) =>
      refuse (artifact ≠ previousArtifact ∨ artifact.sourceRevisionId ≠ source.revisionId ∨
        artifact.sourceContentHash ≠ source.contentHash) (.invalid "stale_artifact_binding_mismatch")
    | _ => .error (.invalid "stale_artifact_has_no_ready_source")
  | _ => .ok ()

def nextAttemptCount (current : Nat) (next : ProjectionState) : Except ProjectionError Nat :=
  match next with
  | .building attempt .. => do
    refuse (checkedAdd 32 current 1 ≠ some attempt) (.invalid "non_monotonic_projection_attempt")
    pure attempt
  | .ready attempt .. | .failed attempt .. => do
    refuse (attempt ≠ current) (.invalid "projection_attempt_mismatch")
    pure current
  | _ => .ok current

/-! ## The replay -/

/-- What the loop over the records keeps. There is one kind of projection, so the map of active builders
has at most one of them. -/
structure ViewScan where
  offset : Nat
  activeBuilder : Option ActiveBuilderSpec
  entries : AList (fun _ : Uuid => ProjectionEntry)
  reconciledSource : CanonicalWatermark

variable (s : ViewScan) (record : ManifestRecord)

def applyActivation (event : BuilderActivation) : Except ProjectionError ViewScan := do
  refuse (event.projectionKind ≠ .memoryEmbedding ∨ event.builderSpec.projectionKind ≠ event.projectionKind ∨
    record.committedByRole ≠ personalOwnerRoleId ∨ event.previousBuilderSpecHash = some event.builderSpecHash ∨
    s.activeBuilder.map (·.builderSpecHash) ≠ event.previousBuilderSpecHash) (.invalid "invalid_builder_activation")
  validateBuilderHash P event.builderSpec event.builderSpecHash
  pure
    { s with
      offset := s.offset + 1
      activeBuilder := some ⟨event.projectionKind, event.builderSpecHash, event.builderSpec⟩ }

/-- A transition continues the entry before it, or starts one. -/
def continuesChain (previous : Option ProjectionEntry) (event : ProjectionTransition) : Bool :=
  previous.map (·.lastTransitionSequence) == event.previousSequence &&
    match previous with
    | none => event.projectionVersion == 1
    | some entry =>
      checkedAdd 64 entry.projectionVersion 1 == some event.projectionVersion &&
        entry.projectionKind == event.projectionKind && entry.source == event.source

/-- The entry that a transition leaves. -/
def ProjectionTransition.entry (event : ProjectionTransition) (sequence attemptCount : Nat) : ProjectionEntry :=
  { projectionId := event.projectionId
    projectionKind := event.projectionKind
    projectionVersion := event.projectionVersion
    lastTransitionSequence := sequence
    attemptCount := attemptCount
    source := event.source
    desiredBuilderSpecHash := event.desiredBuilderSpecHash
    state := event.state }

def applyTransition (event : ProjectionTransition) : Except ProjectionError ViewScan := do
  validateSource P event.source
  validateStateShape P event.state record.committedAt
  refuse (event.projectionKind ≠ .memoryEmbedding ∨ event.projectionVersion > maxJcsSafeInteger)
    (.invalid "invalid_projection_transition")
  let id ← projectionId P event.source.revisionId
  refuse (id ≠ event.projectionId ∨
    s.activeBuilder.map (·.builderSpecHash) ≠ some event.desiredBuilderSpecHash)
    (.invalid "invalid_projection_transition")
  let previous := s.entries.lookup event.projectionId
  refuse (continuesChain previous event = false) (.invalid "broken_projection_transition_chain")
  let activeBuilder ← required s.activeBuilder (.invalid "missing_active_builder")
  validateStateBinding (previous.map (·.state)) event.state event.source event.desiredBuilderSpecHash activeBuilder
  validateActorAndTransition (previous.map (·.state)) event.state record
  let attemptCount ← nextAttemptCount (previous.elim 0 (·.attemptCount)) event.state
  pure
    { s with
      offset := s.offset + 1
      entries := s.entries.insert event.projectionId (event.entry record.sequence attemptCount) }

def applyAdvance (event : ReconciliationAdvance) : Except ProjectionError ViewScan := do
  let next := event.reconciledSource
  let previous := event.previousSource
  refuse (record.committedByRole ≠ projectionWorkerRole ∨ previous ≠ s.reconciledSource ∨ next = previous ∨
    event.classifiedRevisionCount ≠ next.revisionWatermark ∨ next.generation < previous.generation ∨
    next.revisionWatermark < previous.revisionWatermark ∨ next.policyWatermark < previous.policyWatermark ∨
    next.relationWatermark < previous.relationWatermark) (.invalid "invalid_reconciliation_advance")
  validateWatermark next
  pure { s with offset := s.offset + 1, reconciledSource := next }

def applyEvent : Except ProjectionError ViewScan :=
  match record.event with
  | .builderActivated event => applyActivation P s record event
  | .projectionTransition event => applyTransition P s record event
  | .reconciliationAdvanced event => applyAdvance s record event

def applyRecord : Except ProjectionError ViewScan := do
  refuse (record.schema ≠ manifestRecordSchema ∨ record.sequence ≠ s.offset + 1 ∨ record.committedAt = 0 ∨
    record.committedAt > maxJcsSafeInteger ∨ isBlank record.committedByRole) (.invalid "invalid_manifest_record")
  applyEvent P s record

def ViewScan.start (genesisSource : CanonicalWatermark) : ViewScan :=
  ⟨0, none, ∅, genesisSource⟩

/-- The entries in the order of their revision ids. -/
def ViewScan.sortedEntries : List ProjectionEntry :=
  (s.entries.entries.map (·.2)).insertionSort fun left right => left.source.revisionId ≤ right.source.revisionId

/-- Every projection that is not absent is wanted from the active builder. -/
def usesActiveBuilder (builders : List ActiveBuilderSpec) (entry : ProjectionEntry) : Bool :=
  entry.state.isAbsent ||
    (builders.find? fun builder => builder.projectionKind = entry.projectionKind).any fun builder =>
      builder.builderSpecHash == entry.desiredBuilderSpecHash

def finishView (generation : Nat) (s : ViewScan) : Except ProjectionError ProjectionCurrentView := do
  let builders := s.activeBuilder.toList
  refuse (generation > 0 ∧ builders.map (·.projectionKind) ≠ [.memoryEmbedding])
    (.invalid "missing_active_memory_embedding_builder")
  let entries := s.sortedEntries
  refuse (∃ entry ∈ entries, usesActiveBuilder builders entry = false)
    (.invalid "projection_entry_uses_inactive_builder")
  pure
    { schema := currentViewSchema
      generation
      eventWatermark := s.offset
      reconciledSource := s.reconciledSource
      activeBuilderSpecs := builders
      entries }

def replay (genesisSource : CanonicalWatermark) (records : List ManifestRecord) :
    Except ProjectionError ViewScan := do
  validateWatermark genesisSource
  records.foldlM (applyRecord P) (.start genesisSource)

def rebuildCurrentView (generation : Nat) (genesisSource : CanonicalWatermark) (records : List ManifestRecord) :
    Except ProjectionError ProjectionCurrentView := do
  let s ← replay P genesisSource records
  finishView generation s

end Plico.Projection
