import Mathlib.Data.List.Infix
import Plico.Model.Projection.Json

/-!
# Hashes and checks of single records (memory/projection/hash.rs, validate.rs)

`projectionId` derives the id of a revision's projection, and the validators check one record at a time:
a watermark, a builder specification, a source identity, a state, an artifact against its descriptor.
-/

namespace Plico.Projection

open Plico.Ledger

variable (P : ProjectionPlatform)

/-! ## Hashes -/

def segmentDomain : String := "plico.projection.manifest-segment.v1\x00"
def rootDomain : String := "plico.projection.manifest-root.v1\x00"
def viewDomain : String := "plico.projection.current-view.v1\x00"
def builderSpecDomain : String := "plico.projection.builder-spec.v1\x00"
def artifactDomain : String := "plico.projection.embedding-artifact.v1\x00"

/-- `Uuid::NAMESPACE_URL`. -/
def namespaceUrl : Uuid := 0x6ba7b8119dad11d180b400c04fd430c8#128

def projectionNamespace : Uuid :=
  P.newV5 namespaceUrl (utf8 "https://plico.ai/schema/projection/v1")

def projectionId (revisionId : MemoryRevisionId) : Except ProjectionError Uuid := do
  let revision ← required (P.parseUuid revisionId) (.invalid "invalid_projection_revision_id")
  refuse (revision = 0 ∨ P.hyphenated revision ≠ revisionId) (.invalid "non_canonical_projection_revision_id")
  pure (P.newV5 (projectionNamespace P) (utf8 "memory_embedding\x00" ++ utf8 (P.hyphenated revision)))

def canonicalBytes (value : Value) : Except ProjectionError Bytes :=
  required (P.value.toVec value) (.invalid "projection_jcs_canonicalization_failed")

def canonicalBytesAndHash (domain : String) (value : Value) : Except ProjectionError (Bytes × String) := do
  let bytes ← canonicalBytes P value
  pure (bytes, domainHash P.toLedgerPlatform domain bytes)

def builderSpecBytesAndHash (spec : BuilderSpec) : Except ProjectionError (Bytes × String) :=
  canonicalBytesAndHash P builderSpecDomain spec.toValue

def segmentBytesAndHash (segment : ProjectionSegment) : Except ProjectionError (Bytes × String) :=
  canonicalBytesAndHash P segmentDomain (segment.toValue P.toPlatform)

def rootBytesAndHash (root : ProjectionRoot) : Except ProjectionError (Bytes × String) :=
  canonicalBytesAndHash P rootDomain root.toValue

def viewBytesAndHash (view : ProjectionCurrentView) : Except ProjectionError (Bytes × String) :=
  canonicalBytesAndHash P viewDomain (view.toValue P.toPlatform)

def artifactBytesAndHash (artifact : EmbeddingArtifact) : Except ProjectionError (Bytes × String) :=
  canonicalBytesAndHash P artifactDomain (artifact.toValue P)

def pointerBytes (pointer : RootPointer) : Except ProjectionError Bytes :=
  canonicalBytes P pointer.toValue

def validateHash (hash : String) : Except ProjectionError Unit :=
  refuse (isLowerHash hash = false) (.invalid "invalid_projection_hash")

/-! ## Watermarks and sources -/

def validateWatermark (value : CanonicalWatermark) : Except ProjectionError Unit := do
  validateHash value.rootHash
  refuse ((∃ number ∈ [value.generation, value.revisionWatermark, value.policyWatermark, value.relationWatermark],
      number > maxJcsSafeInteger) ∨
    (value.revisionWatermark = 0 ∧ (value.policyWatermark ≠ 0 ∨ value.relationWatermark ≠ 0)))
    (.invalid "invalid_canonical_watermark")

def canonicalUuid (value : String) : Except ProjectionError Uuid := do
  let parsed ← required (P.parseUuid value) (.invalid "invalid_projection_uuid")
  refuse (P.hyphenated parsed ≠ value) (.invalid "non_canonical_projection_uuid")
  pure parsed

def validateSource (value : CanonicalSourceIdentity) : Except ProjectionError Unit := do
  refuse (value.canonicalKind ≠ "memory_revision" ∨ value.memoryId = "" ∨ value.revisionId = "" ∨
    value.revisionSequence = 0 ∨ value.revisionSequence > maxJcsSafeInteger) (.invalid "invalid_projection_source")
  let memoryId ← canonicalUuid P value.memoryId
  let revisionId ← canonicalUuid P value.revisionId
  refuse (memoryId = 0 ∨ revisionId = 0) (.invalid "invalid_projection_source")
  let id ← projectionId P value.revisionId
  refuse (id = 0) (.invalid "invalid_projection_source")
  validateHash value.contentHash

/-! ## Builder specifications -/

/-- `u8::is_ascii_graphic`, without quotes and the backslash. -/
def safeByte (byte : UInt8) : Bool :=
  33 ≤ byte && byte ≤ 126 && byte != 34 && byte != 39 && byte != 92

def safeIdentifier (value : String) : Bool :=
  value != "" && (utf8 value).length ≤ 256 && !decide (utf8 "://" <:+: utf8 value) && (utf8 value).all safeByte

def validTransform (value : BuilderSpec) : Bool :=
  match value.normalization with
  | .providerNative =>
    value.rawDimension == value.dimension && value.transformContractId == "provider-native-document-v1"
  | .l2AfterMatryoshkaTruncationV1 =>
    value.dimension < value.rawDimension && value.transformContractId == "plico-matryoshka-truncate-l2-v1"

def validateBuilderSpec (value : BuilderSpec) : Except ProjectionError Unit :=
  refuse (value.schema ≠ builderSpecSchema ∨ value.projectionKind ≠ .memoryEmbedding ∨
    safeIdentifier value.builderId = false ∨ safeIdentifier value.builderVersion = false ∨
    safeIdentifier value.providerFamily = false ∨ safeIdentifier value.providerCompatibilityId = false ∨
    safeIdentifier value.modelId = false ∨ value.rawDimension = 0 ∨ value.rawDimension > maxEmbeddingDimension ∨
    value.dimension = 0 ∨ value.dimension > maxEmbeddingDimension ∨ value.dimension > value.rawDimension ∨
    value.inputContract ≠ .memoryTextUtf8V1 ∨ value.operationContract ≠ .documentV1 ∨
    validTransform value = false ∨ value.artifactSchema ≠ embeddingArtifactSchema)
    (.invalid "invalid_builder_spec")

def validateBuilderHash (value : BuilderSpec) (expected : String) : Except ProjectionError Unit := do
  validateBuilderSpec value
  validateHash expected
  let (_, hash) ← builderSpecBytesAndHash P value
  refuse (hash ≠ expected) (.invalid "builder_spec_hash_mismatch")

/-! ## States -/

def validateDescriptor (value : ArtifactDescriptor) : Except ProjectionError Unit := do
  validateHash value.artifactHash
  validateHash value.sourceContentHash
  validateHash value.builderSpecHash
  refuse (value.byteLength = 0 ∨ value.byteLength > maxEmbeddingArtifactBytes ∨
    value.byteLength > maxJcsSafeInteger ∨ value.artifactSchema ≠ embeddingArtifactSchema ∨ value.dimension = 0 ∨
    value.dimension > maxEmbeddingDimension ∨ (P.parseUuid value.sourceRevisionId).isNone)
    (.invalid "invalid_artifact_descriptor")

def validateStateShape (state : ProjectionState) (committedAt : Nat) : Except ProjectionError Unit :=
  match state with
  | .building attempt attemptId leaseExpiresAt =>
    refuse (attempt = 0 ∨ attemptId = 0 ∨ leaseExpiresAt ≤ committedAt ∨ leaseExpiresAt > maxJcsSafeInteger)
      (.invalid "invalid_building_state")
  | .ready attempt attemptId artifact => do
    refuse (attempt = 0 ∨ attemptId = 0) (.invalid "invalid_ready_state")
    validateDescriptor P artifact
  | .failed attempt attemptId _ retryable retryNotBefore =>
    refuse (attempt = 0 ∨ attemptId = 0 ∨
      (retryable = true ∧ (∀ retryAt ∈ retryNotBefore, retryAt ≤ committedAt)) ∨
      (∃ retryAt ∈ retryNotBefore, retryAt > maxJcsSafeInteger) ∨ (retryable = false ∧ retryNotBefore.isSome))
      (.invalid "invalid_failed_state")
  | .stale _ artifact => validateDescriptor P artifact
  | .absentByPolicy _ | .queued _ => .ok ()

/-! ## Artifacts -/

/-- `component == 0.0` on an `f32`, which has two zeros. -/
def isZeroF32 (bits : BitVec 32) : Bool :=
  bits.extractLsb' 0 31 == 0

def validateEmbeddingOutput (builder : BuilderSpec) (vector : List (BitVec 32)) : Except ProjectionError Unit := do
  refuse (vector.length ≠ builder.dimension ∨ (∃ component ∈ vector, isFiniteF32 component = false) ∨
    ∀ component ∈ vector, isZeroF32 component = true) (.invalid "invalid_embedding_output")
  refuse (builder.normalization = .l2AfterMatryoshkaTruncationV1 ∧ P.unitNorm vector = false)
    (.invalid "artifact_normalization_mismatch")

/-- The canonical bytes of an artifact that fits its descriptor and its builder. -/
def validateArtifact (artifact : EmbeddingArtifact) (descriptor : ArtifactDescriptor) (builder : BuilderSpec) :
    Except ProjectionError Bytes := do
  validateBuilderHash P builder artifact.builderSpecHash
  refuse (artifact.schema ≠ embeddingArtifactSchema ∨ artifact.encoding ≠ "f32-json/v1" ∨ artifact.dimension = 0 ∨
    descriptor.artifactSchema ≠ embeddingArtifactSchema ∨ descriptor.dimension ≠ artifact.dimension ∨
    descriptor.sourceRevisionId ≠ artifact.sourceRevisionId ∨
    descriptor.sourceContentHash ≠ artifact.sourceContentHash ∨
    descriptor.builderSpecHash ≠ artifact.builderSpecHash) (.invalid "invalid_embedding_artifact")
  let (_, builderHash) ← builderSpecBytesAndHash P builder
  refuse (artifact.builderSpecHash ≠ builderHash ∨ descriptor.byteLength = 0) (.invalid "invalid_embedding_artifact")
  let id ← projectionId P artifact.sourceRevisionId
  refuse (artifact.projectionId ≠ id ∨ artifact.dimension ≠ builder.dimension)
    (.invalid "invalid_embedding_artifact")
  validateEmbeddingOutput P builder artifact.vector
  validateHash artifact.builderSpecHash
  let (bytes, hash) ← artifactBytesAndHash P artifact
  refuse (descriptor.artifactHash ≠ hash ∨ descriptor.byteLength ≠ bytes.length)
    (.invalid "artifact_descriptor_mismatch")
  pure bytes

end Plico.Projection
