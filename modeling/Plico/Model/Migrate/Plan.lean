import Plico.Model.Ledger.MigrationRecords
import Plico.Model.Migrate.Legacy

/-!
# Planning the records of a migration (bin/plico_memory_migrate/plan.rs)

From the report of a preflight the planner builds the canonical revisions and policies, and the two manifests that
record where they came from. The decoding of a snapshot (legacy.rs) is here too, with the codecs it reads.
-/

namespace Plico.Migrate

open Plico.Ledger

/-! ## Snapshots -/

/-- The envelope of the old store; nothing reads its metadata. -/
structure LegacyCasObject where
  cid : String
  data : Bytes
  deriving DecidableEq, Repr

structure MigratePlatform extends LedgerPlatform where
  legacyObject : Serde LegacyCasObject
  legacyEntries : Serde (List LegacyMemoryEntry)

variable (P : MigratePlatform)

def LegacySnapshot.decode (indexAgentId indexTier cid : String) (declaredEntryCount : Nat) (encodedObject : Bytes) :
    Except LegacyPreflightError LegacySnapshot := do
  let objectEnvelopeHash := P.sha256 encodedObject
  let object ← required (P.legacyObject.fromSlice encodedObject) (.rejected "invalid_legacy_cas_envelope")
  let actual := P.sha256 object.data
  refuse (cid ≠ actual ∨ object.cid ≠ cid) (.rejected "legacy_cas_hash_mismatch")
  let entries ← required (P.legacyEntries.fromSlice object.data) (.rejected "invalid_legacy_snapshot_json")
  pure ⟨indexAgentId, indexTier, actual, objectEnvelopeHash, declaredEntryCount, object.data, entries⟩

namespace LegacyPreflightReport

variable (report : LegacyPreflightReport)

def entry (revisionId : String) : Option LegacyMemoryEntry :=
  findEntry report.entries revisionId

def ttlFieldCount : Nat :=
  (report.entries.map fun entry => entry.ttlMs.isSome.toNat + entry.originalTtlMs.isSome.toNat).sum

def embeddedVectorCount : Nat :=
  (report.entries.filter fun entry => entry.embedding.isSome).length

end LegacyPreflightReport

/-! ## Input and plan -/

structure MigrationRecordPlan where
  sourceManifest : SourceManifest
  migrationManifest : MigrationManifest
  revisions : List CanonicalRevision
  policies : List PolicyRecord
  deriving DecidableEq

structure MigrationPlanInput where
  preflight : LegacyPreflightReport
  lockCreated : Bool
  sourceIndexHash : String
  credentialRoleCutoffHash : String
  importedAt : Nat
  importedByRole : String

inductive MigrationPlanError where
  | rejected (category : String)
  | ledger (error : LedgerError)
  deriving DecidableEq, Repr

variable (input : MigrationPlanInput)

def validatePlanInput : Except MigrationPlanError Unit := do
  refuse (isLowerHash input.sourceIndexHash = false) (.rejected "invalid_source_index_hash")
  refuse (input.importedAt = 0 ∨ input.importedByRole ≠ personalOwnerRoleId)
    (.rejected "invalid_migration_commit_identity")
  refuse (personalOwnerRoleId ∉ input.preflight.authorizedRoleIds) (.rejected "personal_owner_not_authorized")

/-- The fields of the source manifest. A length is a `usize`, so it always is a `u64`. -/
def MigrationPlanInput.sourceManifest : SourceManifest where
  schema := sourceManifestSchema
  sourceIndexHash := input.sourceIndexHash
  credentialRoleCutoffHash := input.credentialRoleCutoffHash
  lockCreated := input.lockCreated
  legacyNamespace := match input.preflight.namespace_ with
    | .preNamespace => none
    | .named value => some value
  sourceSnapshots := input.preflight.sourceSnapshots
  sourceEntryCount := input.preflight.entryCount
  sourceStreamCount := input.preflight.streamCount
  sourceTtlFieldCount := input.preflight.ttlFieldCount
  sourceEmbeddedVectorCount := input.preflight.embeddedVectorCount
  authorizedRoleIdsAtCutoff := input.preflight.authorizedRoleIds
  roleMappings := input.preflight.roleMappings
  groupMappings := input.preflight.groupMappings

def buildSourceManifest : Except MigrationPlanError SourceManifest :=
  input.sourceManifest.new.mapError .ledger

/-! ## Conversions -/

def convertTier : LegacyMemoryTier → MemoryTier
  | .ephemeral => .ephemeral
  | .working => .working
  | .longTerm => .longTerm
  | .procedural => .procedural

def convertType : LegacyMemoryType → MemoryType
  | .episodic => .episodic
  | .semantic => .semantic
  | .procedural => .procedural
  | .untyped => .untyped

def convertContent : LegacyMemoryContent → MemoryContent
  | .text value => .text value
  | .objectRef value => .objectRef value
  | .structured value => .structured value
  | .procedure value => .procedure
      { name := value.name
        description := value.description
        steps := value.steps.map fun step =>
          ⟨step.stepNumber, step.description, step.action, step.expectedOutcome⟩
        learnedFrom := value.learnedFrom }
  | .knowledge value => .knowledge ⟨value.subject, value.statement, value.confidence, value.source⟩

/-! ## Single records -/

def nextSequence (currentLen : Nat) : Except MigrationPlanError Nat := do
  refuse (u64Max < currentLen + 1) (.rejected "target_sequence_overflow")
  pure (currentLen + 1)

structure RevisionPlanInput where
  entry : LegacyMemoryEntry
  memoryId : String
  revisionId : String
  parentRevisionId : Option MemoryRevisionId
  sequence : Nat
  importedAt : Nat
  actor : String
  tombstone : Bool

def canonicalRevision (input : RevisionPlanInput) : Except MigrationPlanError CanonicalRevision :=
  (CanonicalRevision.migrationImport P.toLedgerPlatform
    { sequence := input.sequence
      memoryId := input.memoryId
      revisionId := input.revisionId
      parentRevisionId := input.parentRevisionId
      content := convertContent input.entry.content
      tags := input.entry.tags
      memoryType := convertType input.entry.memoryType
      cognitiveTier := convertTier input.entry.tier
      deletedAt := if input.tombstone then some input.importedAt else none
      committedAt := input.importedAt
      actor := input.actor }).mapError .ledger

def entryGroupId (entry : LegacyMemoryEntry) : String :=
  match entry.scope with
  | .group groupId => groupId
  | .private_ | .shared => ""

structure PolicyPlanInput where
  entry : LegacyMemoryEntry
  memoryId : String
  sourceRole : String
  groupRoles : Option (List String)
  sharedRoles : List String
  sourceManifestHash : String
  sequence : Nat
  importedAt : Nat
  actor : String

def PolicyPlanInput.migration (plan : PolicyPlanInput) : MigrationPolicyInput where
  sequence := plan.sequence
  policyId := deterministicMigrationPolicyId P.toLedgerPlatform plan.sourceManifestHash plan.memoryId plan.sequence
  memoryId := plan.memoryId
  effectiveFromRevisionId := plan.entry.id
  sourceRole := plan.sourceRole
  committedAt := plan.importedAt
  actor := plan.actor

def migrationPolicy (plan : PolicyPlanInput) : Except MigrationPlanError (PolicyRecord × PolicyMapping) :=
  match plan.entry.scope with
  | .private_ => do
    let policy ← (PolicyRecord.migrationPrivate (plan.migration P)).mapError .ledger
    pure (policy, ⟨plan.entry.id, .private_, .private_, policy.readerRoles⟩)
  | .shared => do
    let policy ← (PolicyRecord.migrationExplicitRoleSet (plan.migration P) plan.sharedRoles).mapError .ledger
    pure (policy, ⟨plan.entry.id, .shared, .explicitRoleSet, policy.readerRoles⟩)
  | .group groupId => do
    let roles ← required plan.groupRoles (.rejected "unresolved_group_audience")
    -- the readers are collected in a `BTreeSet`
    let readers := sortDedup (roles ++ [plan.sourceRole, personalOwnerRoleId])
    let policy ← (PolicyRecord.migrationExplicitRoleSet (plan.migration P) readers).mapError .ledger
    pure (policy, ⟨plan.entry.id, .group groupId, .explicitRoleSet, policy.readerRoles⟩)

def countDispositions (entry : LegacyMemoryEntry) (counters : MigrationDispositionCounters) :
    MigrationDispositionCounters :=
  { counters with
    importanceValuesDiscarded := counters.importanceValuesDiscarded + 1
    accessStatisticFieldsDiscarded := counters.accessStatisticFieldsDiscarded + 2
    legacyCreatedAtFieldsDiscarded := counters.legacyCreatedAtFieldsDiscarded + 1
    ttlFieldsDiscarded :=
      counters.ttlFieldsDiscarded + (entry.ttlMs.isSome.toNat + entry.originalTtlMs.isSome.toNat)
    embeddedVectorsDiscarded := counters.embeddedVectorsDiscarded + entry.embedding.isSome.toNat }

/-! ## Streams -/

/-- What the loop over the streams has built. -/
structure Planned where
  revisions : List CanonicalRevision
  policies : List PolicyRecord
  streamMappings : List StreamMapping
  dispositions : MigrationDispositionCounters

/-- What the loop over the revisions of one stream has built. -/
structure PlannedStream where
  revisions : List CanonicalRevision
  policies : List PolicyRecord
  parentRevisionId : Option MemoryRevisionId
  previousScope : Option LegacyMemoryScope
  policyMappings : List PolicyMapping
  dispositions : MigrationDispositionCounters

variable (report : LegacyPreflightReport)

def roleByAgent : AList (fun _ : String => String) :=
  index (·.legacyAgentId) (·.targetRoleId) report.roleMappings

def groupRoles : AList (fun _ : String => List String) :=
  index (·.legacyGroupId) (·.targetRoleIds) report.groupMappings

variable (sourceManifestHash : String)

/-- A policy is planned for the first revision and wherever the scope changes. -/
def planPolicy (stream : LegacyStream) (sourceRole : String)
    (entry : LegacyMemoryEntry) (s : PlannedStream) : Except MigrationPlanError PlannedStream :=
  if s.previousScope = some entry.scope then .ok s
  else do
    let sequence ← nextSequence s.policies.length
    let (policy, mapping) ← migrationPolicy P
      { entry
        memoryId := stream.memoryId
        sourceRole
        groupRoles := (groupRoles input.preflight).lookup (entryGroupId entry)
        sharedRoles := input.preflight.authorizedRoleIds
        sourceManifestHash
        sequence
        importedAt := input.importedAt
        actor := input.importedByRole }
    pure { s with
      policies := s.policies ++ [policy]
      policyMappings := s.policyMappings ++ [mapping]
      previousScope := some entry.scope }

def planRevision (stream : LegacyStream)
    (s : PlannedStream) (revisionId : String) : Except MigrationPlanError PlannedStream := do
  let entry ← required (input.preflight.entry revisionId) (.rejected "preflight_record_missing")
  let sourceRole ← required ((roleByAgent input.preflight).lookup entry.agentId)
    (.rejected "preflight_role_mapping_missing")
  let sequence ← nextSequence s.revisions.length
  let revision ← canonicalRevision P
    { entry
      memoryId := stream.memoryId
      revisionId := entry.id
      parentRevisionId := s.parentRevisionId
      sequence
      importedAt := input.importedAt
      actor := input.importedByRole
      tombstone := false }
  let s ← planPolicy P input sourceManifestHash stream sourceRole entry
    { s with
      revisions := s.revisions ++ [revision]
      parentRevisionId := some revision.revisionId }
  pure { s with dispositions := countDispositions entry s.dispositions }

/-- The tombstone of a deleted head, or the rebuild that a live one needs. -/
def planHead (stream : LegacyStream) (legacyHead : LegacyMemoryEntry) (s : PlannedStream) :
    Except MigrationPlanError (List CanonicalRevision × MigrationDispositionCounters × Option MemoryRevisionId) :=
  if legacyHead.deletedAt.isSome then do
    let tombstoneId := deterministicMigrationRevisionId P.toLedgerPlatform sourceManifestHash legacyHead.id
      "legacy-deleted-head-tombstone"
    let sequence ← nextSequence s.revisions.length
    let tombstone ← canonicalRevision P
      { entry := legacyHead
        memoryId := stream.memoryId
        revisionId := tombstoneId
        parentRevisionId := some legacyHead.id
        sequence
        importedAt := input.importedAt
        actor := input.importedByRole
        tombstone := true }
    pure (s.revisions ++ [tombstone],
      { s.dispositions with
        deletedHeadsConvertedToTombstones := s.dispositions.deletedHeadsConvertedToTombstones + 1 },
      some tombstoneId)
  else
    .ok (s.revisions,
      { s.dispositions with projectionRebuildsRequired := s.dispositions.projectionRebuildsRequired + 1 }, none)

def createdAtMapping (revisionId : String) : Except MigrationPlanError LegacyCreatedAtMapping := do
  let entry ← required (report.entry revisionId) (.rejected "preflight_record_missing")
  pure ⟨revisionId, entry.createdAt.toNat⟩

def planStream (s : Planned) (stream : LegacyStream) : Except MigrationPlanError Planned := do
  let planned ← stream.revisionIds.foldlM (planRevision P input sourceManifestHash stream)
    ⟨s.revisions, s.policies, none, none, [], s.dispositions⟩
  let headId ← required stream.revisionIds.getLast? (.rejected "empty_preflight_stream")
  let legacyHead ← required (input.preflight.entry headId) (.rejected "preflight_record_missing")
  let (revisions, dispositions, tombstoneRevisionId) ← planHead P input sourceManifestHash stream legacyHead planned
  let legacyCreatedAtByRevision ← stream.revisionIds.mapM (createdAtMapping input.preflight)
  pure
    { revisions
      policies := planned.policies
      streamMappings := s.streamMappings ++
        [{ legacyAgentId := legacyHead.agentId
           memoryId := stream.memoryId
           legacyRevisionIds := stream.revisionIds
           legacyCreatedAtByRevision
           targetHeadRevisionId := tombstoneRevisionId.getD legacyHead.id
           tombstoneRevisionId
           legacyDeletedAt := legacyHead.deletedAt.map (·.toNat)
           policyMappings := planned.policyMappings }]
      dispositions }

/-! ## The plan -/

variable (revisions : List CanonicalRevision)

def checkPlannedRevision (importedAt : Nat)
    (stream : LegacyStream) (revisionId : String) (position : Nat) : Except MigrationPlanError Unit := do
  let entry ← required (report.entry revisionId) (.rejected "preflight_record_missing")
  let revision ← required (revisions.find? fun candidate => candidate.revisionId = revisionId)
    (.rejected "target_revision_missing")
  let expectedParent := if position = 0 then none else stream.revisionIds[position - 1]?
  let expectedContent := convertContent entry.content
  let expectedContentHash ← (expectedContent.canonicalContentHash P.toPlatform).mapError
    fun _ => .rejected "target_revision_semantic_mismatch"
  let actualContentBytes ← required (P.content.toVec revision.content) (.rejected "target_revision_semantic_mismatch")
  let expectedContentBytes ← required (P.content.toVec expectedContent) (.rejected "target_revision_semantic_mismatch")
  refuse (revision.memoryId ≠ stream.memoryId ∨ revision.parentRevisionId ≠ expectedParent ∨
    actualContentBytes ≠ expectedContentBytes ∨ revision.contentHash ≠ expectedContentHash ∨
    revision.tags ≠ entry.tags ∨ revision.cognitiveTier ≠ convertTier entry.tier ∨
    revision.memoryType ≠ convertType entry.memoryType ∨ revision.deletedAt.isSome ∨
    revision.committedAt ≠ importedAt) (.rejected "target_revision_semantic_mismatch")

/-- How many entries have another scope than the one before. -/
def scopeChanges (previous : Option LegacyMemoryScope) : List LegacyMemoryEntry → Nat
  | [] => 0
  | entry :: entries =>
    (if previous = some entry.scope then 0 else 1) + scopeChanges (some entry.scope) entries

def checkPlannedStream
    (policies : List PolicyRecord) (importedAt : Nat) (stream : LegacyStream) : Except MigrationPlanError Unit := do
  checkAll (fun (revisionId, position) => checkPlannedRevision P report revisions importedAt stream revisionId position)
    stream.revisionIds.zipIdx
  refuse ((policies.filter fun policy => policy.memoryId = stream.memoryId).length ≠
    scopeChanges none (stream.revisionIds.filterMap report.entry)) (.rejected "target_policy_semantic_mismatch")

def validatePlanAgainstPreflight (policies : List PolicyRecord) (importedAt : Nat) : Except MigrationPlanError Unit :=
  checkAll (checkPlannedStream P report revisions policies importedAt) report.streams

def buildMigrationRecordPlan : Except MigrationPlanError MigrationRecordPlan := do
  validatePlanInput input
  let sourceManifest ← buildSourceManifest input
  let (_, sourceManifestHash) ← (sourceManifest.canonicalBytesAndHash P.toLedgerPlatform).mapError .ledger
  let planned ← input.preflight.streams.foldlM (planStream P input sourceManifestHash)
    ⟨[], [], [], ⟨0, 0, 0, 0, 0, 0, 0⟩⟩
  (validateMigrationRecordSets P.toLedgerPlatform planned.revisions planned.policies).mapError .ledger
  let m : MigrationManifest :=
    { schema := targetManifestSchema
      sourceManifestHash
      streamMappings := planned.streamMappings
      dispositions := planned.dispositions
      targetRevisionCount := planned.revisions.length
      targetPolicyCount := planned.policies.length
      targetRelationCount := 0
      importedAt := input.importedAt
      importedByRole := input.importedByRole }
  let migrationManifest ← (m.new P.toLedgerPlatform).mapError .ledger
  let _ ← (migrationManifest.canonicalBytesAndHash P.toLedgerPlatform).mapError .ledger
  validatePlanAgainstPreflight P input.preflight planned.revisions planned.policies input.importedAt
  pure ⟨sourceManifest, migrationManifest, planned.revisions, planned.policies⟩

end Plico.Migrate
