import Mathlib.Data.List.Sort
import Mathlib.Data.String.Basic
import Plico.Framework.Log
import Plico.Model.Ledger.Types

/-!
# Validation of the logs and the current view (memory/ledger/validate.rs, current_view.rs)

`validateRevisions` and `validatePolicies` check a whole log from its first record, as the loops of
the source do. `rebuildCurrentView` derives the current view of the same logs: one stream for each
memory, named by the last revision and the last policy of that memory.
-/

namespace Plico.Ledger

variable (P : Platform)

/-- `serde_json_canonicalizer::to_vec` with the ledger's error. -/
def jcs {α : Type} (codec : Serde α) (a : α) : Except LedgerError Bytes :=
  required (codec.toVec a) (.invalid "jcs_canonicalization_failed")

/-- `canonical_content_hash` with the ledger's error. -/
def contentHash (content : MemoryContent) : Except LedgerError CanonicalContentHash :=
  (content.canonicalContentHash P).mapError .invalid

/-! ## Revisions -/

/-- What the loop over the revisions keeps: their number, the revisions by id, the head of each memory. -/
structure RevisionScan where
  offset : Nat
  byRevision : AList (fun _ : MemoryRevisionId => CanonicalRevision)
  heads : AList (fun _ : MemoryId => MemoryRevisionId)

/-- A tombstone repeats the payload of its parent. -/
def checkTombstone (record parent : CanonicalRevision) : Except LedgerError Unit := do
  let recordBytes ← jcs P.content record.content
  let parentBytes ← jcs P.content parent.content
  refuse (recordBytes ≠ parentBytes ∨ record.contentHash ≠ parent.contentHash ∨ record.tags ≠ parent.tags ∨
    record.memoryType ≠ parent.memoryType) (.invalid "tombstone_payload_changed")
  let hash ← contentHash P record.content
  refuse (hash ≠ parent.contentHash) (.invalid "tombstone_payload_changed")

/-- A revision without a parent starts its memory; any other extends the head of its memory. -/
def checkLink (s : RevisionScan) (record : CanonicalRevision) : Except LedgerError Unit :=
  match record.parentRevisionId with
  | none => do
    refuse (record.memoryId ≠ record.revisionId ∨ record.deletedAt.isSome) (.invalid "invalid_root_revision")
    refuse (s.heads.lookup record.memoryId).isSome (.invalid "duplicate_memory_root")
  | some parentId => do
    let parent ← required ((s.byRevision.insert record.revisionId record).lookup parentId)
      (.invalid "missing_parent_revision")
    refuse (parent.memoryId ≠ record.memoryId ∨ parent.cognitiveTier ≠ record.cognitiveTier ∨
      parent.deletedAt.isSome ∨ s.heads.lookup record.memoryId ≠ some parentId)
      (.invalid "invalid_parent_revision")
    checkIf record.deletedAt.isSome (checkTombstone P record parent)

def validateRevision (s : RevisionScan) (record : CanonicalRevision) : Except LedgerError RevisionScan := do
  refuse (record.schema ≠ revisionSchema ∨ record.sequence ≠ s.offset + 1)
    (.invalid "invalid_revision_sequence")
  refuse ((P.parseUuid record.revisionId).isNone ∨ (P.parseUuid record.memoryId).isNone ∨
    isBlank record.committedByRole) (.invalid "empty_revision_identity")
  let hash ← contentHash P record.content
  refuse (record.contentHash ≠ hash) (.invalid "canonical_content_hash_mismatch")
  refuse (s.byRevision.lookup record.revisionId).isSome (.invalid "duplicate_revision_id")
  checkLink P s record
  pure ⟨s.offset + 1, s.byRevision.insert record.revisionId record,
    s.heads.insert record.memoryId record.revisionId⟩

def validateRevisions (records : List CanonicalRevision) : Except LedgerError Unit := do
  let _ ← records.foldlM (validateRevision P) ⟨0, ∅, ∅⟩
  pure ()

/-! ## Policies -/

def isSortedUnique (values : List String) : Bool :=
  values.IsChain (· < ·)

/-- `sort` and `dedup`. -/
def sortDedup (roles : List String) : List String :=
  (roles.insertionSort (· ≤ ·)).eraseReps

/-- The number of records checked and the policy ids seen. -/
structure PolicyScan where
  offset : Nat
  policyIds : List String

variable (revisions : List CanonicalRevision)

def validatePolicy (s : PolicyScan) (record : PolicyRecord) : Except LedgerError PolicyScan := do
  refuse (record.schema ≠ policySchema ∨ record.sequence ≠ s.offset + 1 ∨
    (P.parseUuid record.policyId).isNone ∨ isBlank record.originRoleId ∨ isBlank record.committedByRole ∨
    record.policyId ∈ s.policyIds ∨ record.effectiveFromRevisionId ∉ revisions.map (·.revisionId))
    (.invalid "invalid_policy_record")
  refuse (record.readerRoles = [] ∨ record.writerRoles = [] ∨ isSortedUnique record.readerRoles = false ∨
    isSortedUnique record.writerRoles = false ∨ personalOwnerRoleId ∉ record.readerRoles ∨
    personalOwnerRoleId ∉ record.writerRoles) (.unsupportedPolicy "policy_log_mode_not_implemented")
  let originRoles := sortDedup [record.originRoleId, personalOwnerRoleId]
  refuse (record.writerRoles ≠ originRoles ∨ (record.mode = .private_ ∧ record.readerRoles ≠ originRoles) ∨
    (record.mode = .explicitRoleSet ∧ ¬ originRoles ⊆ record.readerRoles)) (.invalid "invalid_policy_audience")
  let revision ← required (revisions.find? fun r => r.revisionId = record.effectiveFromRevisionId)
    (.invalid "missing_policy_revision")
  refuse (revision.memoryId ≠ record.memoryId) (.invalid "policy_boundary_mismatch")
  pure ⟨s.offset + 1, record.policyId :: s.policyIds⟩

/-- The latest policy of each memory, with the sequence of the revision it is effective from. -/
abbrev LatestPolicies := AList (fun _ : MemoryId => PolicyRecord × Nat)

def sequenceByRevision : AList (fun _ : MemoryRevisionId => Nat) :=
  index (·.revisionId) (·.sequence) revisions

def rootByMemory : AList (fun _ : MemoryId => MemoryRevisionId) :=
  index (·.memoryId) (·.revisionId) (revisions.filter fun r => r.parentRevisionId.isNone)

/-- A later policy keeps the origin and is made by a writer of the one before; the first one is
effective from the root. -/
def checkPolicySuccession (latest : LatestPolicies) (policy : PolicyRecord)
    (effective : Nat) : Except LedgerError Unit :=
  match latest.lookup policy.memoryId with
  | some (previous, previousEffective) => do
    refuse (policy.originRoleId ≠ previous.originRoleId) (.invalid "policy_origin_changed")
    refuse (effective < previousEffective) (.invalid "policy_effective_revision_rollback")
    refuse (policy.committedByRole ∉ previous.writerRoles) (.invalid "policy_writer_unauthorized")
  | none =>
    refuse ((rootByMemory revisions).lookup policy.memoryId ≠ some policy.effectiveFromRevisionId)
      (.invalid "initial_policy_not_effective_from_root")

def validatePolicyHistory (latest : LatestPolicies) (policy : PolicyRecord) : Except LedgerError LatestPolicies := do
  let effective ← required ((sequenceByRevision revisions).lookup policy.effectiveFromRevisionId)
    (.invalid "missing_policy_revision")
  checkPolicySuccession revisions latest policy effective
  pure (latest.insert policy.memoryId (policy, effective))

def validatePolicies (records : List PolicyRecord) (revisions : List CanonicalRevision) :
    Except LedgerError Unit := do
  let _ ← records.foldlM (validatePolicy P revisions) ⟨0, []⟩
  let latest ← records.foldlM (validatePolicyHistory revisions) ∅
  refuse (∃ memoryId ∈ (rootByMemory revisions).keys, memoryId ∉ latest)
    (.invalid "memory_stream_without_policy")

/-! ## Relations -/

def validateRelation (offset : Nat) (record : RelationRecord) : Except LedgerError Nat := do
  refuse (record.schema ≠ relationSchema ∨ record.sequence ≠ offset + 1 ∨
    (P.parseUuid record.relationId).isNone ∨
    record.subjectRevisionId ∉ revisions.map (·.revisionId) ∨
    record.objectRevisionId ∉ revisions.map (·.revisionId) ∨
    record.subjectRevisionId = record.objectRevisionId ∨ record.predicate ≠ "caused_by" ∨
    record.epistemicState ≠ "imported_unverified" ∨ isBlank record.provenanceManifestId)
    (.invalid "invalid_relation_record")
  pure (offset + 1)

def validateRelations (records : List RelationRecord) (revisions : List CanonicalRevision) :
    Except LedgerError Unit := do
  let _ ← records.foldlM (validateRelation P revisions) 0
  pure ()

/-! ## The current view -/

def currentStream (policyByMemory : AList (fun _ : MemoryId => PolicyRecord)) (memoryId : MemoryId)
    (head : CanonicalRevision) : Except LedgerError CurrentStream := do
  let policy ← required (policyByMemory.lookup memoryId) (.invalid "missing_stream_policy")
  pure ⟨memoryId, head.revisionId, head.deletedAt.isSome, policy.policyId⟩

def rebuildCurrentView (generation : Nat) (revisions : List CanonicalRevision) (policies : List PolicyRecord)
    (relationWatermark : Nat) : Except LedgerError CurrentView := do
  let policyByMemory := index (·.memoryId) id policies
  let headByMemory := index (·.memoryId) id revisions
  let streams ← headByMemory.entries.mapM fun entry => currentStream policyByMemory entry.1 entry.2
  pure
    { schema := currentViewSchema
      generation
      revisionWatermark := revisions.getLast?.elim 0 (·.sequence)
      policyWatermark := policies.getLast?.elim 0 (·.sequence)
      relationWatermark
      streams := streams.insertionSort fun left right => left.memoryId ≤ right.memoryId }

def streamFor (view : CurrentView) (memoryId : MemoryId) : Option CurrentStream :=
  view.streams.find? fun stream => stream.memoryId = memoryId

def headFor (view : CurrentView) (memoryId : MemoryId) : Option MemoryRevisionId :=
  (streamFor view memoryId).map (·.headRevisionId)

end Plico.Ledger
