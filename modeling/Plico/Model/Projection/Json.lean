import Plico.Model.Projection.Types

/-!
# JSON values of the stored objects (memory/projection/model.rs)

What `serde` derives for the manifest records: an object for each structure, a `type` tag for each
variant of an event or a state, `null` for an absent option, the hyphenated text of a UUID. Keys stand
in their canonical order.
-/

namespace Plico

namespace Projection

open Plico.Ledger

def ProjectionKind.toValue : ProjectionKind → Value
  | .memoryEmbedding => .string "memory_embedding"

def EmbeddingInputContract.toValue : EmbeddingInputContract → Value
  | .memoryTextUtf8V1 => .string "memory_text_utf8_v1"

def EmbeddingOperationContract.toValue : EmbeddingOperationContract → Value
  | .documentV1 => .string "document_v1"

def EmbeddingNormalization.toValue : EmbeddingNormalization → Value
  | .providerNative => .string "provider_native"
  | .l2AfterMatryoshkaTruncationV1 => .string "l2_after_matryoshka_truncation_v1"

def AbsentReason.toValue : AbsentReason → Value
  | .superseded => .string "superseded"
  | .deleted => .string "deleted"
  | .unsupportedTier => .string "unsupported_tier"
  | .unsupportedContent => .string "unsupported_content"
  | .blankText => .string "blank_text"

def QueueReason.toValue : QueueReason → Value
  | .canonicalCommit => .string "canonical_commit"
  | .reconciliation => .string "reconciliation"
  | .retry => .string "retry"
  | .ownerRebuild => .string "owner_rebuild"
  | .builderChanged => .string "builder_changed"
  | .leaseExpired => .string "lease_expired"

def StaleReason.toValue : StaleReason → Value
  | .builderSpecChanged => .string "builder_spec_changed"
  | .artifactMissing => .string "artifact_missing"
  | .artifactHashMismatch => .string "artifact_hash_mismatch"
  | .artifactInvalid => .string "artifact_invalid"
  | .ownerRebuild => .string "owner_rebuild"

def FailureCategory.toValue : FailureCategory → Value
  | .providerUnavailable => .string "provider_unavailable"
  | .providerIdentityChanged => .string "provider_identity_changed"
  | .invalidProjection => .string "invalid_projection"
  | .artifactStoreUnavailable => .string "artifact_store_unavailable"

def CanonicalSourceIdentity.toValue (source : CanonicalSourceIdentity) : Value :=
  .object
    [("canonical_kind", .string source.canonicalKind),
      ("content_hash", .string source.contentHash),
      ("memory_id", .string source.memoryId),
      ("revision_id", .string source.revisionId),
      ("revision_sequence", .nat source.revisionSequence)]

def CanonicalWatermark.toValue (watermark : CanonicalWatermark) : Value :=
  .object
    [("generation", .nat watermark.generation),
      ("policy_watermark", .nat watermark.policyWatermark),
      ("relation_watermark", .nat watermark.relationWatermark),
      ("revision_watermark", .nat watermark.revisionWatermark),
      ("root_hash", .string watermark.rootHash)]

def BuilderSpec.toValue (spec : BuilderSpec) : Value :=
  .object
    [("artifact_schema", .string spec.artifactSchema),
      ("builder_id", .string spec.builderId),
      ("builder_version", .string spec.builderVersion),
      ("dimension", .nat spec.dimension),
      ("input_contract", spec.inputContract.toValue),
      ("model_id", .string spec.modelId),
      ("normalization", spec.normalization.toValue),
      ("operation_contract", spec.operationContract.toValue),
      ("projection_kind", spec.projectionKind.toValue),
      ("provider_compatibility_id", .string spec.providerCompatibilityId),
      ("provider_family", .string spec.providerFamily),
      ("raw_dimension", .nat spec.rawDimension),
      ("schema", .string spec.schema),
      ("transform_contract_id", .string spec.transformContractId)]

def ArtifactDescriptor.toValue (artifact : ArtifactDescriptor) : Value :=
  .object
    [("artifact_hash", .string artifact.artifactHash),
      ("artifact_schema", .string artifact.artifactSchema),
      ("builder_spec_hash", .string artifact.builderSpecHash),
      ("byte_length", .nat artifact.byteLength),
      ("dimension", .nat artifact.dimension),
      ("source_content_hash", .string artifact.sourceContentHash),
      ("source_revision_id", .string artifact.sourceRevisionId)]

variable (P : Platform)

def uuidValue (id : Uuid) : Value :=
  .string (P.hyphenated id)

def ProjectionState.toValue : ProjectionState → Value
  | .absentByPolicy reason => .object [("reason", reason.toValue), ("type", .string "absent_by_policy")]
  | .queued reason => .object [("reason", reason.toValue), ("type", .string "queued")]
  | .building attempt attemptId leaseExpiresAt =>
    .object
      [("attempt", .nat attempt),
        ("attempt_id", uuidValue P attemptId),
        ("lease_expires_at", .nat leaseExpiresAt),
        ("type", .string "building")]
  | .ready attempt attemptId artifact =>
    .object
      [("artifact", artifact.toValue),
        ("attempt", .nat attempt),
        ("attempt_id", uuidValue P attemptId),
        ("type", .string "ready")]
  | .failed attempt attemptId failureCategory retryable retryNotBefore =>
    .object
      [("attempt", .nat attempt),
        ("attempt_id", uuidValue P attemptId),
        ("failure_category", failureCategory.toValue),
        ("retry_not_before", .option .nat retryNotBefore),
        ("retryable", .bool retryable),
        ("type", .string "failed")]
  | .stale reason artifact =>
    .object [("artifact", artifact.toValue), ("reason", reason.toValue), ("type", .string "stale")]

def ManifestEvent.toValue : ManifestEvent → Value
  | .builderActivated event =>
    .object
      [("builder_spec", event.builderSpec.toValue),
        ("builder_spec_hash", .string event.builderSpecHash),
        ("previous_builder_spec_hash", .option .string event.previousBuilderSpecHash),
        ("projection_kind", event.projectionKind.toValue),
        ("type", .string "builder_activated")]
  | .projectionTransition event =>
    .object
      [("desired_builder_spec_hash", .string event.desiredBuilderSpecHash),
        ("previous_sequence", .option .nat event.previousSequence),
        ("projection_id", uuidValue P event.projectionId),
        ("projection_kind", event.projectionKind.toValue),
        ("projection_version", .nat event.projectionVersion),
        ("source", event.source.toValue),
        ("state", event.state.toValue P),
        ("type", .string "projection_transition")]
  | .reconciliationAdvanced event =>
    .object
      [("classified_revision_count", .nat event.classifiedRevisionCount),
        ("previous_source", event.previousSource.toValue),
        ("reconciled_source", event.reconciledSource.toValue),
        ("type", .string "reconciliation_advanced")]

def ManifestRecord.toValue (record : ManifestRecord) : Value :=
  .object
    [("committed_at", .nat record.committedAt),
      ("committed_by_role", .string record.committedByRole),
      ("event", record.event.toValue P),
      ("schema", .string record.schema),
      ("sequence", .nat record.sequence)]

def ProjectionSegment.toValue (segment : ProjectionSegment) : Value :=
  .object
    [("first_sequence", .nat segment.firstSequence),
      ("last_sequence", .nat segment.lastSequence),
      ("previous_segment_hash", .option .string segment.previousSegmentHash),
      ("records", .array (segment.records.map (·.toValue P))),
      ("schema", .string segment.schema)]

def ProjectionRoot.toValue (root : ProjectionRoot) : Value :=
  .object
    [("committed_at", .nat root.committedAt),
      ("committed_by_role", .string root.committedByRole),
      ("current_view_hash", .string root.currentViewHash),
      ("event_watermark", .nat root.eventWatermark),
      ("generation", .nat root.generation),
      ("manifest_head", .option .string root.manifestHead),
      ("previous_root_hash", .option .string root.previousRootHash),
      ("reconciled_source", root.reconciledSource.toValue),
      ("schema", .string root.schema)]

def ProjectionEntry.toValue (entry : ProjectionEntry) : Value :=
  .object
    [("attempt_count", .nat entry.attemptCount),
      ("desired_builder_spec_hash", .string entry.desiredBuilderSpecHash),
      ("last_transition_sequence", .nat entry.lastTransitionSequence),
      ("projection_id", uuidValue P entry.projectionId),
      ("projection_kind", entry.projectionKind.toValue),
      ("projection_version", .nat entry.projectionVersion),
      ("source", entry.source.toValue),
      ("state", entry.state.toValue P)]

def ActiveBuilderSpec.toValue (active : ActiveBuilderSpec) : Value :=
  .object
    [("builder_spec", active.builderSpec.toValue),
      ("builder_spec_hash", .string active.builderSpecHash),
      ("projection_kind", active.projectionKind.toValue)]

def ProjectionCurrentView.toValue (view : ProjectionCurrentView) : Value :=
  .object
    [("active_builder_specs", .array (view.activeBuilderSpecs.map (·.toValue))),
      ("entries", .array (view.entries.map (·.toValue P))),
      ("event_watermark", .nat view.eventWatermark),
      ("generation", .nat view.generation),
      ("reconciled_source", view.reconciledSource.toValue),
      ("schema", .string view.schema)]

def RootPointer.toValue (pointer : RootPointer) : Value :=
  .object [("root_hash", .string pointer.rootHash), ("schema", .string pointer.schema)]

def EmbeddingArtifact.toValue (Q : ProjectionPlatform) (artifact : EmbeddingArtifact) : Value :=
  .object
    [("builder_spec_hash", .string artifact.builderSpecHash),
      ("dimension", .nat artifact.dimension),
      ("encoding", .string artifact.encoding),
      ("projection_id", uuidValue Q.toPlatform artifact.projectionId),
      ("schema", .string artifact.schema),
      ("source_content_hash", .string artifact.sourceContentHash),
      ("source_revision_id", .string artifact.sourceRevisionId),
      ("vector", .array (artifact.vector.map fun bits => .number (Q.f32Number bits)))]

end Projection

end Plico
