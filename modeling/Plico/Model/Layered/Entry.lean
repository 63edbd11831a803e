import Plico.Model.Ledger.Validate

/-!
# Runtime entries and canonical revisions (memory/layered/mod.rs, memory/ledger/store.rs)

A `MemoryEntry` is what the runtime keeps of a revision, with counters and legacy fields the ledger
does not have. `entryToRevision` is what a writer hands to the ledger, `intoRuntimeEntry` what a restart
makes of a stored revision.
-/

namespace Plico

open Ledger

inductive MemoryScope where
  | private_
  | shared
  | group (name : String)
  deriving DecidableEq, Repr

structure MemoryEntry where
  id : String
  memoryId : MemoryId
  parentRevisionId : Option MemoryRevisionId
  canonicalContentHash : CanonicalContentHash
  agentId : String
  tenantId : String
  tier : MemoryTier
  content : MemoryContent
  importance : UInt8
  accessCount : UInt32
  lastAccessed : Nat
  createdAt : Nat
  tags : List String
  ttlMs : Option Nat
  originalTtlMs : Option Nat
  scope : MemoryScope
  memoryType : MemoryType
  causalParent : Option String
  supersedes : Option String
  supersededBy : Option String
  deletedAt : Option Nat
  deriving DecidableEq

namespace MemoryEntry

/-- Fill in the identity and the hash of a root that was built without them. -/
def sealRootIdentity (P : Platform) (entry : MemoryEntry) : Except String MemoryEntry := do
  let entry := if entry.memoryId = "" then { entry with memoryId := entry.id } else entry
  if entry.canonicalContentHash = "" then do
    let hash ← entry.content.canonicalContentHash P
    pure { entry with canonicalContentHash := hash }
  else pure entry

/-- Count an access at `now`; an entry with a time to live has it refreshed, up to five times the
original, in saturating 64-bit arithmetic. -/
def onMemoryAccess (now : Nat) (entry : MemoryEntry) : MemoryEntry :=
  let accessCount := entry.accessCount + 1
  { entry with
    accessCount
    lastAccessed := now
    ttlMs := (entry.originalTtlMs.map fun original =>
      min (original * min accessCount.toNat 5) (2 ^ 64 - 1)).orElse fun _ => entry.ttlMs }

/-- The times a commit receipt puts on a published entry. -/
def publishedAt (committedAt : Nat) (entry : MemoryEntry) : MemoryEntry :=
  { entry with createdAt := committedAt, lastAccessed := committedAt }

end MemoryEntry

namespace Ledger

/-- The revision of an entry; the ledger has no place for the policies that are refused here. -/
def entryToRevision (entry : MemoryEntry) : Except LedgerError CanonicalRevision := do
  refuse (entry.tenantId ≠ defaultTenant) (.unsupportedPolicy "non_default_namespace")
  refuse (entry.scope ≠ .private_) (.unsupportedPolicy "non_private_scope")
  refuse (entry.ttlMs.isSome ∨ entry.originalTtlMs.isSome) (.unsupportedPolicy "ttl_policy_not_implemented")
  refuse (entry.causalParent.isSome) (.unsupportedPolicy "relation_log_write_not_implemented")
  refuse (entry.supersedes.isSome ∨ entry.supersededBy.isSome) (.invalid "legacy_supersession_state")
  pure
    { schema := revisionSchema
      sequence := 0
      memoryId := entry.memoryId
      revisionId := entry.id
      parentRevisionId := entry.parentRevisionId
      content := entry.content
      contentHash := entry.canonicalContentHash
      tags := entry.tags
      memoryType := entry.memoryType
      cognitiveTier := entry.tier
      deletedAt := entry.deletedAt
      committedAt := entry.createdAt
      committedByRole := entry.agentId }

def CanonicalRevision.intoRuntimeEntry (originRole : String) (r : CanonicalRevision) : MemoryEntry :=
  { id := r.revisionId
    memoryId := r.memoryId
    parentRevisionId := r.parentRevisionId
    canonicalContentHash := r.contentHash
    agentId := originRole
    tenantId := defaultTenant
    tier := r.cognitiveTier
    content := r.content
    importance := 50
    accessCount := 0
    lastAccessed := r.committedAt
    createdAt := r.committedAt
    tags := r.tags
    ttlMs := none
    originalTtlMs := none
    scope := .private_
    memoryType := r.memoryType
    causalParent := none
    supersedes := none
    supersededBy := none
    deletedAt := r.deletedAt }

/-! ## What the runtime asks the ledger -/

/-- The revisions of the memories that `roleId` started, by tier; a tier without any is left out. -/
def rebuildOriginRole (s : LedgerState) (roleId : String) : List (MemoryTier × List CanonicalRevision) :=
  let originMemories := (s.policies.filter fun policy => policy.originRoleId = roleId).map (·.memoryId)
  [.working, .longTerm, .procedural].filterMap fun tier =>
    let records := s.revisions.filter fun r => r.memoryId ∈ originMemories ∧ r.cognitiveTier = tier
    if records.isEmpty then none else some (tier, records)

/-- The role that started the memory of a revision, if `roleId` may write (or read) it. -/
def originForRevision (s : LedgerState) (roleId : String) (revisionId : MemoryRevisionId) (write : Bool) :
    Except LedgerError (Option String) :=
  match s.revisions.find? fun r => r.revisionId = revisionId with
  | none => .ok none
  | some revision =>
    match s.view.bind fun view => streamFor view revision.memoryId with
    | none => .ok none
    | some stream => do
      let policy ← required (s.policies.find? fun policy => policy.policyId = stream.policyId)
        (.invalid "missing_current_policy")
      let roles := if write then policy.writerRoles else policy.readerRoles
      pure (if roleId ∈ roles then some policy.originRoleId else none)

end Ledger

end Plico
