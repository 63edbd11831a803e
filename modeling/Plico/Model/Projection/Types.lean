import Plico.Model.Ledger.Storage

/-!
# Records of the projection manifest (memory/projection/model.rs)

The projection manifest is a log of events (`ManifestRecord`) stored as linked segments, and a chain of
roots, each naming the head of the log and the current view of its generation. The view holds one
`ProjectionEntry` for each canonical revision it has met. `ProjectionPlatform` adds the decoders of the
stored objects to the libraries the program calls.
-/

namespace Plico.Projection

open Plico.Ledger

def builderSpecSchema : String := "plico.projection.builder-spec/v1"
def manifestRecordSchema : String := "plico.projection.manifest-record/v1"
def manifestSegmentSchema : String := "plico.projection.manifest-segment/v1"
def manifestRootSchema : String := "plico.projection.manifest-root/v1"
def currentViewSchema : String := "plico.projection.current-view/v1"
def rootPointerSchema : String := "plico.projection.root-pointer/v1"
def embeddingArtifactSchema : String := "plico.projection.embedding-artifact/v1"
def maxEmbeddingDimension : Nat := 65536
def maxEmbeddingArtifactBytes : Nat := 8 * 1024 * 1024
def maxProjectionPointerBytes : Nat := 4 * 1024
def maxProjectionManifestObjectBytes : Nat := 16 * 1024 * 1024

inductive ProjectionKind where
  | memoryEmbedding
  deriving DecidableEq, Repr

inductive EmbeddingInputContract where
  | memoryTextUtf8V1
  deriving DecidableEq, Repr

inductive EmbeddingOperationContract where
  | documentV1
  deriving DecidableEq, Repr

inductive EmbeddingNormalization where
  | providerNative
  | l2AfterMatryoshkaTruncationV1
  deriving DecidableEq, Repr

structure CanonicalSourceIdentity where
  canonicalKind : String
  memoryId : MemoryId
  revisionId : MemoryRevisionId
  revisionSequence : Nat
  contentHash : CanonicalContentHash
  deriving DecidableEq, Repr

structure CanonicalWatermark where
  rootHash : String
  generation : Nat
  revisionWatermark : Nat
  policyWatermark : Nat
  relationWatermark : Nat
  deriving DecidableEq, Repr

structure BuilderSpec where
  schema : String
  projectionKind : ProjectionKind
  builderId : String
  builderVersion : String
  providerFamily : String
  providerCompatibilityId : String
  modelId : String
  rawDimension : Nat
  dimension : Nat
  inputContract : EmbeddingInputContract
  operationContract : EmbeddingOperationContract
  normalization : EmbeddingNormalization
  transformContractId : String
  artifactSchema : String
  deriving DecidableEq, Repr

structure ArtifactDescriptor where
  artifactHash : String
  byteLength : Nat
  artifactSchema : String
  dimension : Nat
  sourceRevisionId : MemoryRevisionId
  sourceContentHash : CanonicalContentHash
  builderSpecHash : String
  deriving DecidableEq, Repr

inductive AbsentReason where
  | superseded
  | deleted
  | unsupportedTier
  | unsupportedContent
  | blankText
  deriving DecidableEq, Repr

inductive QueueReason where
  | canonicalCommit
  | reconciliation
  | retry
  | ownerRebuild
  | builderChanged
  | leaseExpired
  deriving DecidableEq, Repr

inductive StaleReason where
  | builderSpecChanged
  | artifactMissing
  | artifactHashMismatch
  | artifactInvalid
  | ownerRebuild
  deriving DecidableEq, Repr

inductive FailureCategory where
  | providerUnavailable
  | providerIdentityChanged
  | invalidProjection
  | artifactStoreUnavailable
  deriving DecidableEq, Repr

inductive ProjectionState where
  | absentByPolicy (reason : AbsentReason)
  | queued (reason : QueueReason)
  | building (attempt : Nat) (attemptId : Uuid) (leaseExpiresAt : Nat)
  | ready (attempt : Nat) (attemptId : Uuid) (artifact : ArtifactDescriptor)
  | failed (attempt : Nat) (attemptId : Uuid) (failureCategory : FailureCategory) (retryable : Bool)
      (retryNotBefore : Option Nat)
  | stale (reason : StaleReason) (artifact : ArtifactDescriptor)
  deriving DecidableEq, Repr

/-- `ManifestEvent::BuilderActivated`. -/
structure BuilderActivation where
  projectionKind : ProjectionKind
  builderSpec : BuilderSpec
  builderSpecHash : String
  previousBuilderSpecHash : Option String
  deriving DecidableEq, Repr

/-- `ManifestEvent::ProjectionTransition`. -/
structure ProjectionTransition where
  projectionId : Uuid
  projectionKind : ProjectionKind
  projectionVersion : Nat
  previousSequence : Option Nat
  source : CanonicalSourceIdentity
  desiredBuilderSpecHash : String
  state : ProjectionState
  deriving DecidableEq, Repr

/-- `ManifestEvent::ReconciliationAdvanced`. -/
structure ReconciliationAdvance where
  previousSource : CanonicalWatermark
  reconciledSource : CanonicalWatermark
  classifiedRevisionCount : Nat
  deriving DecidableEq, Repr

inductive ManifestEvent where
  | builderActivated (event : BuilderActivation)
  | projectionTransition (event : ProjectionTransition)
  | reconciliationAdvanced (event : ReconciliationAdvance)
  deriving DecidableEq, Repr

structure ManifestRecord where
  schema : String
  sequence : Nat
  committedAt : Nat
  committedByRole : String
  event : ManifestEvent
  deriving DecidableEq, Repr

structure ProjectionSegment where
  schema : String
  firstSequence : Nat
  lastSequence : Nat
  previousSegmentHash : Option String
  records : List ManifestRecord
  deriving DecidableEq, Repr

structure ProjectionRoot where
  schema : String
  generation : Nat
  previousRootHash : Option String
  manifestHead : Option String
  eventWatermark : Nat
  currentViewHash : String
  reconciledSource : CanonicalWatermark
  committedAt : Nat
  committedByRole : String
  deriving DecidableEq, Repr

structure ProjectionEntry where
  projectionId : Uuid
  projectionKind : ProjectionKind
  projectionVersion : Nat
  lastTransitionSequence : Nat
  attemptCount : Nat
  source : CanonicalSourceIdentity
  desiredBuilderSpecHash : String
  state : ProjectionState
  deriving DecidableEq, Repr

structure ActiveBuilderSpec where
  projectionKind : ProjectionKind
  builderSpecHash : String
  builderSpec : BuilderSpec
  deriving DecidableEq, Repr

structure ProjectionCurrentView where
  schema : String
  generation : Nat
  eventWatermark : Nat
  reconciledSource : CanonicalWatermark
  activeBuilderSpecs : List ActiveBuilderSpec
  entries : List ProjectionEntry
  deriving DecidableEq, Repr

structure RootPointer where
  schema : String
  rootHash : String
  deriving DecidableEq, Repr

/-- The vector's components are `f32`, given by their bits. -/
structure EmbeddingArtifact where
  schema : String
  projectionId : Uuid
  sourceRevisionId : MemoryRevisionId
  sourceContentHash : CanonicalContentHash
  builderSpecHash : String
  dimension : Nat
  encoding : String
  vector : List (BitVec 32)
  deriving DecidableEq, Repr

inductive ProjectionError where
  | io (error : IoError)
  | serialization
  | invalid (category : String)
  | unsupportedFormat (component : String)
  | allEligibleRequired
  | headConflict
  | commitIndeterminate
  | writerPoisoned
  | artifactRepairRequired (count : Nat)
  | artifactMaintenanceRequired
  | projectionMaintenanceRequired
  | resetPending
  | manualInterventionRequired
  | artifactStoreUnavailable
  deriving DecidableEq, Repr

/-- `checked_add` on an unsigned integer of `w` bits. -/
def checkedAdd (w a b : Nat) : Option Nat :=
  if a + b < 2 ^ w then some (a + b) else none

/-- Library code the projection store calls: the derived JSON decoders of the stored objects, the JSON
number that an `f32` is written as, and the `f64` test that a vector has unit length. -/
structure ProjectionPlatform extends LedgerPlatform where
  decodeRoot : Value → Option ProjectionRoot
  decodeSegment : Value → Option ProjectionSegment
  decodeView : Value → Option ProjectionCurrentView
  decodePointer : Value → Option RootPointer
  decodeArtifact : Value → Option EmbeddingArtifact
  f32Number : BitVec 32 → Number
  unitNorm : List (BitVec 32) → Bool

end Plico.Projection
