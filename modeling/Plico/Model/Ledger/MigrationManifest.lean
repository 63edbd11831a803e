import Plico.Model.Ledger.Validate

/-!
# Migration manifests (memory/ledger/migration_manifest.rs)

The evidence an offline migration leaves behind its root, and the checks a loader makes of it. A
ledger that starts from genesis has no manifest; the loader of the model reads one all the same when
a root names it.
-/

namespace Plico.Ledger

def sourceManifestSchema : String := "plico.memory.migration-source-manifest/v1"
def sourceManifestDomain : String := "plico.memory.migration-source-manifest.v1\x00"
def targetManifestSchema : String := "plico.memory.migration-target-manifest/v1"
def targetManifestDomain : String := "plico.memory.migration-target-manifest.v1\x00"

structure SourceSnapshot where
  legacyAgentId : String
  legacyTier : String
  cid : String
  objectEnvelopeHash : String
  entryCount : Nat
  deriving DecidableEq, Repr

structure RoleMapping where
  legacyAgentId : String
  targetRoleId : String
  deriving DecidableEq, Repr

structure GroupMapping where
  legacyGroupId : String
  targetRoleIds : List String
  deriving DecidableEq, Repr

structure SourceManifest where
  schema : String
  sourceIndexHash : String
  credentialRoleCutoffHash : String
  lockCreated : Bool
  legacyNamespace : Option String
  sourceSnapshots : List SourceSnapshot
  sourceEntryCount : Nat
  sourceStreamCount : Nat
  sourceTtlFieldCount : Nat
  sourceEmbeddedVectorCount : Nat
  authorizedRoleIdsAtCutoff : List String
  roleMappings : List RoleMapping
  groupMappings : List GroupMapping
  deriving DecidableEq, Repr

structure LegacyCreatedAtMapping where
  revisionId : String
  legacyCreatedAt : Nat
  deriving DecidableEq, Repr

inductive ManifestSourceScope where
  | private_
  | shared
  | group (legacyGroupId : String)
  deriving DecidableEq, Repr

inductive ManifestTargetMode where
  | private_
  | explicitRoleSet
  deriving DecidableEq, Repr

structure PolicyMapping where
  effectiveFromRevisionId : String
  sourceScope : ManifestSourceScope
  targetMode : ManifestTargetMode
  audienceCutoffRoles : List String
  deriving DecidableEq, Repr

structure StreamMapping where
  legacyAgentId : String
  memoryId : String
  legacyRevisionIds : List String
  legacyCreatedAtByRevision : List LegacyCreatedAtMapping
  targetHeadRevisionId : String
  tombstoneRevisionId : Option String
  legacyDeletedAt : Option Nat
  policyMappings : List PolicyMapping
  deriving DecidableEq, Repr

structure MigrationDispositionCounters where
  importanceValuesDiscarded : Nat
  accessStatisticFieldsDiscarded : Nat
  ttlFieldsDiscarded : Nat
  embeddedVectorsDiscarded : Nat
  projectionRebuildsRequired : Nat
  legacyCreatedAtFieldsDiscarded : Nat
  deletedHeadsConvertedToTombstones : Nat
  deriving DecidableEq, Repr

structure MigrationManifest where
  schema : String
  sourceManifestHash : String
  streamMappings : List StreamMapping
  dispositions : MigrationDispositionCounters
  targetRevisionCount : Nat
  targetPolicyCount : Nat
  targetRelationCount : Nat
  importedAt : Nat
  importedByRole : String
  deriving DecidableEq, Repr

def u64Max : Nat := 2 ^ 64 - 1

def saturatingAdd (a b : Nat) : Nat := min (a + b) u64Max

def saturatingMul (a b : Nat) : Nat := min (a * b) u64Max

/-- Sixty-four lower-case hexadecimal digits. -/
def isLowerHash (value : String) : Bool :=
  (utf8 value).length == 64 && (utf8 value).all fun byte => (48 ≤ byte && byte ≤ 57) || (97 ≤ byte && byte ≤ 102)

def strictRoles (values : List String) : Bool :=
  !values.isEmpty && values.all (fun value => !isBlank value) && isSortedUnique values

def uniqueNonempty (values : List String) : Bool :=
  values.all (fun value => !isBlank value) && decide values.Nodup

/-! ## The source manifest -/

def SourceSnapshot.key (snapshot : SourceSnapshot) : List String :=
  [snapshot.legacyAgentId, snapshot.legacyTier, snapshot.cid]

def SourceManifest.validate (m : SourceManifest) : Except LedgerError Unit :=
  refuse
    (m.schema ≠ sourceManifestSchema ∨ isLowerHash m.sourceIndexHash = false ∨
      isLowerHash m.credentialRoleCutoffHash = false ∨ strictRoles m.authorizedRoleIdsAtCutoff = false ∨
      personalOwnerRoleId ∉ m.authorizedRoleIdsAtCutoff ∨ m.legacyNamespace.any isBlank ∨
      (∃ snapshot ∈ m.sourceSnapshots, isBlank snapshot.legacyAgentId ∨
        snapshot.legacyTier ∉ ["ephemeral", "working", "long_term", "procedural"] ∨
        isLowerHash snapshot.cid = false ∨ isLowerHash snapshot.objectEnvelopeHash = false) ∨
      ¬ (m.sourceSnapshots.map (·.key)).IsChain (· < ·) ∨
      ¬ (m.roleMappings.map (·.legacyAgentId)).IsChain (· < ·) ∨
      (∃ mapping ∈ m.roleMappings, isBlank mapping.legacyAgentId ∨ isBlank mapping.targetRoleId ∨
        mapping.targetRoleId ∉ m.authorizedRoleIdsAtCutoff) ∨
      ¬ (m.groupMappings.map (·.legacyGroupId)).IsChain (· < ·) ∨
      (∃ mapping ∈ m.groupMappings, isBlank mapping.legacyGroupId ∨ strictRoles mapping.targetRoleIds = false ∨
        ∃ role ∈ mapping.targetRoleIds, role ∉ m.authorizedRoleIdsAtCutoff) ∨
      (m.sourceSnapshots.map (·.entryCount)).sum % 2 ^ 64 ≠ m.sourceEntryCount ∨
      m.sourceEntryCount < m.sourceStreamCount ∨
      ¬ (m.sourceStreamCount = 0 ↔ m.sourceEntryCount = 0) ∨
      saturatingMul m.sourceEntryCount 2 < m.sourceTtlFieldCount ∨
      m.sourceEntryCount < m.sourceEmbeddedVectorCount ∨
      ¬ (m.sourceSnapshots.map (·.legacyAgentId) ⊆ m.roleMappings.map (·.legacyAgentId) ∧
        m.roleMappings.map (·.legacyAgentId) ⊆ m.sourceSnapshots.map (·.legacyAgentId)))
    (.invalid "invalid_source_manifest")

/-! ## The target manifest -/

def StreamMapping.shapeInvalid (P : Platform) (stream : StreamMapping) : Prop :=
  isBlank stream.legacyAgentId ∨ (P.parseUuid stream.memoryId).isNone ∨ stream.legacyRevisionIds = [] ∨
    uniqueNonempty stream.legacyRevisionIds = false ∨ (P.parseUuid stream.targetHeadRevisionId).isNone ∨
    (stream.tombstoneRevisionId.any fun id => (P.parseUuid id).isNone) ∨ stream.policyMappings = [] ∨
    ∃ mapping ∈ stream.policyMappings, (P.parseUuid mapping.effectiveFromRevisionId).isNone ∨
      strictRoles mapping.audienceCutoffRoles = false

instance (P : Platform) : DecidablePred (StreamMapping.shapeInvalid P) := fun stream => by
  unfold StreamMapping.shapeInvalid; infer_instance

def MigrationManifest.validateShape (P : Platform) (m : MigrationManifest) : Except LedgerError Unit :=
  refuse
    (m.schema ≠ targetManifestSchema ∨ isLowerHash m.sourceManifestHash = false ∨
      m.importedByRole ≠ personalOwnerRoleId ∨ m.importedAt = 0 ∨ m.targetRelationCount ≠ 0 ∨
      (∃ stream ∈ m.streamMappings, stream.shapeInvalid P) ∨ ¬ (m.streamMappings.map (·.memoryId)).Nodup)
    (.invalid "invalid_migration_manifest")

/-- What the loop over the mapped streams keeps. -/
structure TargetScan where
  coveredRevisions : List MemoryRevisionId
  coveredPolicies : List String
  legacyRevisionIds : List String
  deletedStreams : Nat

/-- `max_by_key` on the sequence: of equal keys, the last one. -/
def maxBySequence (revisions : List CanonicalRevision) : Option CanonicalRevision :=
  revisions.foldl (fun best r => if best.all fun b => b.sequence ≤ r.sequence then some r else best) none

def expectedReaders (source : SourceManifest) (privateRoles : List String) :
    ManifestSourceScope → Except LedgerError (List String)
  | .private_ => .ok privateRoles
  | .shared => .ok source.authorizedRoleIdsAtCutoff
  | .group legacyGroupId => do
    let group ← required (source.groupMappings.find? fun group => group.legacyGroupId = legacyGroupId)
      (.invalid "migration_manifest_unknown_group")
    pure (sortDedup (group.targetRoleIds ++ privateRoles))

def ManifestTargetMode.policyMode : ManifestTargetMode → PolicyMode
  | .private_ => .private_
  | .explicitRoleSet => .explicitRoleSet

def scopeModeMatches : ManifestSourceScope → ManifestTargetMode → Bool
  | .private_, .private_ => true
  | .shared, .explicitRoleSet => true
  | .group _, .explicitRoleSet => true
  | _, _ => false

variable (m : MigrationManifest)

def validatePolicyMapping (source : SourceManifest) (policies : List PolicyRecord)
    (stream : StreamMapping) (mappedOriginRole : String) (covered : List String) (mapping : PolicyMapping) :
    Except LedgerError (List String) := do
  let policy ← required (policies.find? fun policy => policy.memoryId = stream.memoryId ∧
    policy.effectiveFromRevisionId = mapping.effectiveFromRevisionId) (.invalid "migration_manifest_missing_policy")
  refuse (policy.policyId ∈ covered) (.invalid "migration_manifest_policy_bijection_mismatch")
  let privateRoles := sortDedup [policy.originRoleId, personalOwnerRoleId]
  let readers ← expectedReaders source privateRoles mapping.sourceScope
  refuse (scopeModeMatches mapping.sourceScope mapping.targetMode = false ∨
    policy.originRoleId ≠ mappedOriginRole ∨ policy.mode ≠ mapping.targetMode.policyMode ∨
    policy.readerRoles ≠ mapping.audienceCutoffRoles ∨ mapping.audienceCutoffRoles ≠ readers ∨
    policy.writerRoles ≠ privateRoles) (.invalid "migration_manifest_policy_mismatch")
  refuse (policy.committedAt ≠ m.importedAt ∨ policy.committedByRole ≠ m.importedByRole)
    (.invalid "migration_manifest_policy_commit_mismatch")
  pure (policy.policyId :: covered)

def validateLegacyRevision (byId : AList (fun _ : MemoryRevisionId => CanonicalRevision))
    (stream : StreamMapping) (position : Nat) (legacyRevisionId : String) : Except LedgerError Unit := do
  let revision ← required (byId.lookup legacyRevisionId) (.invalid "migration_manifest_missing_legacy_revision")
  let expectedParent := if position = 0 then none else stream.legacyRevisionIds[position - 1]?
  refuse (revision.memoryId ≠ stream.memoryId ∨ revision.deletedAt.isSome ∨
    revision.parentRevisionId ≠ expectedParent ∨ revision.committedAt ≠ m.importedAt ∨
    revision.committedByRole ≠ m.importedByRole) (.invalid "migration_manifest_legacy_revision_mismatch")

def validateStreamMapping (source : SourceManifest) (revisions : List CanonicalRevision)
    (policies : List PolicyRecord) (s : TargetScan) (mapping : StreamMapping) :
    Except LedgerError TargetScan := do
  let byId := index (·.revisionId) id revisions
  refuse (mapping.legacyAgentId ∉ source.sourceSnapshots.map (·.legacyAgentId))
    (.invalid "migration_manifest_unknown_legacy_agent")
  let origin ← required (source.roleMappings.find? fun role => role.legacyAgentId = mapping.legacyAgentId)
    (.invalid "migration_manifest_missing_origin_mapping")
  refuse (¬ (mapping.legacyRevisionIds ++ s.legacyRevisionIds).Nodup)
    (.invalid "migration_manifest_duplicate_legacy_revision")
  let streamRevisions := stream (·.memoryId) revisions mapping.memoryId
  refuse (streamRevisions.length ≠ mapping.legacyRevisionIds.length + mapping.tombstoneRevisionId.toList.length ∨
    ¬ (streamRevisions.map (·.revisionId) ++ s.coveredRevisions).Nodup)
    (.invalid "migration_manifest_revision_bijection_mismatch")
  let _ ← mapping.legacyRevisionIds.zipIdx.mapM fun (id, position) => validateLegacyRevision m byId mapping position id
  let _ ← mapping.tombstoneRevisionId.toList.mapM fun tombstoneId => do
    let tombstone ← required (byId.lookup tombstoneId) (.invalid "migration_manifest_missing_tombstone")
    refuse (tombstone.parentRevisionId ≠ mapping.legacyRevisionIds.getLast? ∨
      tombstone.committedAt ≠ m.importedAt ∨ tombstone.committedByRole ≠ m.importedByRole)
      (.invalid "migration_manifest_tombstone_mismatch")
  let head ← required (byId.lookup mapping.targetHeadRevisionId) (.invalid "migration_manifest_missing_head")
  let actualHead ← required (maxBySequence streamRevisions) (.invalid "migration_manifest_empty_stream")
  refuse (head.memoryId ≠ mapping.memoryId) (.invalid "migration_manifest_stream_mismatch")
  refuse (actualHead.revisionId ≠ head.revisionId ∨
    mapping.tombstoneRevisionId.isSome ≠ head.deletedAt.isSome ∨
    (mapping.tombstoneRevisionId.any fun id => id ≠ head.revisionId) ∨
    mapping.legacyCreatedAtByRevision.map (·.revisionId) ≠ mapping.legacyRevisionIds)
    (.invalid "migration_manifest_disposition_mismatch")
  refuse ((policies.filter fun policy => policy.memoryId = mapping.memoryId).length ≠ mapping.policyMappings.length)
    (.invalid "migration_manifest_policy_bijection_mismatch")
  let coveredPolicies ← mapping.policyMappings.foldlM
    (validatePolicyMapping m source policies mapping origin.targetRoleId) s.coveredPolicies
  pure ⟨streamRevisions.map (·.revisionId) ++ s.coveredRevisions, coveredPolicies,
    mapping.legacyRevisionIds ++ s.legacyRevisionIds, s.deletedStreams + mapping.tombstoneRevisionId.toList.length⟩

def MigrationManifest.validateTargetRecords (source : SourceManifest)
    (revisions : List CanonicalRevision) (policies : List PolicyRecord) (relationCount : Nat) :
    Except LedgerError Unit := do
  refuse (m.streamMappings.length ≠ source.sourceStreamCount ∨ m.targetRevisionCount ≠ revisions.length ∨
    m.targetPolicyCount ≠ policies.length ∨ m.targetRelationCount ≠ relationCount)
    (.invalid "migration_manifest_count_mismatch")
  let s ← m.streamMappings.foldlM (validateStreamMapping m source revisions policies) ⟨[], [], [], 0⟩
  let d := m.dispositions
  refuse (s.coveredRevisions.length ≠ revisions.length ∨ s.coveredPolicies.length ≠ policies.length ∨
    s.legacyRevisionIds.length ≠ source.sourceEntryCount ∨
    d.importanceValuesDiscarded ≠ source.sourceEntryCount ∨
    d.accessStatisticFieldsDiscarded ≠ saturatingMul source.sourceEntryCount 2 ∨
    d.legacyCreatedAtFieldsDiscarded ≠ source.sourceEntryCount ∨
    d.deletedHeadsConvertedToTombstones ≠ s.deletedStreams ∨
    d.projectionRebuildsRequired ≠ source.sourceStreamCount - s.deletedStreams ∨
    d.ttlFieldsDiscarded ≠ source.sourceTtlFieldCount ∨
    d.embeddedVectorsDiscarded ≠ source.sourceEmbeddedVectorCount ∨
    m.targetRevisionCount ≠ saturatingAdd source.sourceEntryCount s.deletedStreams ∨
    m.targetPolicyCount ≠ (m.streamMappings.map (·.policyMappings.length)).sum ∨
    ¬ (revisions.map (·.memoryId) ⊆ m.streamMappings.map (·.memoryId) ∧
      m.streamMappings.map (·.memoryId) ⊆ revisions.map (·.memoryId)))
    (.invalid "migration_manifest_disposition_count_mismatch")

end Plico.Ledger
