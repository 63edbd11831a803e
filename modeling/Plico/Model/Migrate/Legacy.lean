import Plico.Framework.HashChain
import Plico.Model.Ledger.MigrationManifest

/-!
# Legacy snapshots and the migration preflight (bin/plico_memory_migrate/legacy.rs)

The preflight validates decoded snapshots of the old memory store before anything is written. The hash map of entries
is the list of entries in the order of the snapshots; its iteration order decides only which of several defects is
reported.
-/

namespace Plico.Migrate

open Plico.Ledger

abbrev LegacyRoleMapping := RoleMapping
abbrev LegacyGroupMapping := GroupMapping
abbrev LegacyMemoryTier := MemoryTier
abbrev LegacyMemoryContent := MemoryContent
abbrev LegacyMemoryType := MemoryType

inductive LegacyMemoryScope where
  | private_
  | shared
  | group (groupId : String)
  deriving DecidableEq, Repr

/-- `tenantId` is absent in a snapshot from before namespaces. The embedding's numbers are the bits of `f32`s. -/
structure LegacyMemoryEntry where
  id : String
  agentId : String
  tenantId : Option String
  tier : LegacyMemoryTier
  content : LegacyMemoryContent
  importance : UInt8
  accessCount : UInt32
  lastAccessed : UInt64
  createdAt : UInt64
  tags : List String
  embedding : Option (List (BitVec 32))
  ttlMs : Option UInt64
  originalTtlMs : Option UInt64
  scope : LegacyMemoryScope
  memoryType : LegacyMemoryType
  causalParent : Option String
  supersedes : Option String
  supersededBy : Option String
  deletedAt : Option UInt64
  deriving DecidableEq

structure LegacyPersistedTier where
  tier : String
  cid : String
  entryCount : Nat
  deriving DecidableEq, Repr

structure LegacyPersistenceIndex where
  agents : AList (fun _ : String => List LegacyPersistedTier)

structure LegacySnapshot where
  indexAgentId : String
  indexTier : String
  cid : String
  objectEnvelopeHash : String
  declaredEntryCount : Nat
  encodedEntries : Bytes
  entries : List LegacyMemoryEntry

structure LegacyAccessAuthorization where
  authorizedRoleIds : List String
  roleMappings : List LegacyRoleMapping
  groupMappings : List LegacyGroupMapping
  deriving DecidableEq, Repr

inductive LegacyNamespace where
  | preNamespace
  | named (value : String)
  deriving DecidableEq, Repr

structure LegacyStream where
  memoryId : String
  revisionIds : List String
  deriving DecidableEq, Repr

structure LegacyPreflightReport where
  namespace_ : LegacyNamespace
  entryCount : Nat
  streamCount : Nat
  streams : List LegacyStream
  entries : List LegacyMemoryEntry
  sourceSnapshots : List SourceSnapshot
  authorizedRoleIds : List String
  roleMappings : List LegacyRoleMapping
  groupMappings : List LegacyGroupMapping
  deriving DecidableEq

/-- A rejection with its category, or the panic of indexing the map with a missing key. -/
inductive LegacyPreflightError where
  | rejected (category : String)
  | panicked
  deriving DecidableEq, Repr

def legacyTierNames : List String := ["working", "long_term", "procedural"]

def indexName : LegacyMemoryTier → String
  | .ephemeral => "ephemeral"
  | .working => "working"
  | .longTerm => "long_term"
  | .procedural => "procedural"

/-! ## The index and the envelopes -/

/-- One persisted tier of an agent, added to those expected. -/
def expectTier (expected : List ((String × String) × LegacyPersistedTier)) (agentId : String)
    (tier : LegacyPersistedTier) :
    Except LegacyPreflightError (List ((String × String) × LegacyPersistedTier)) := do
  refuse (tier.tier ∉ legacyTierNames) (.rejected "unsupported_persisted_tier")
  refuse (isLowerHash tier.cid = false) (.rejected "invalid_legacy_cid")
  refuse ((agentId, tier.tier) ∈ expected.map Prod.fst) (.rejected "duplicate_persisted_tier")
  pure (expected ++ [((agentId, tier.tier), tier)])

def expectAgent (expected : List ((String × String) × LegacyPersistedTier))
    (agent : Sigma fun _ : String => List LegacyPersistedTier) :
    Except LegacyPreflightError (List ((String × String) × LegacyPersistedTier)) := do
  refuse (isBlank agent.1) (.rejected "invalid_snapshot_index_entry")
  agent.2.foldlM (fun expected tier => expectTier expected agent.1 tier) expected

def observeSnapshot (expected : List ((String × String) × LegacyPersistedTier)) (observed : List (String × String))
    (snapshot : LegacySnapshot) : Except LegacyPreflightError (List (String × String)) := do
  let key := (snapshot.indexAgentId, snapshot.indexTier)
  let persisted ← required (expected.lookup key) (.rejected "unindexed_legacy_snapshot")
  refuse (persisted.cid ≠ snapshot.cid ∨ persisted.entryCount ≠ snapshot.declaredEntryCount)
    (.rejected "snapshot_index_mismatch")
  refuse (key ∈ observed) (.rejected "duplicate_legacy_snapshot")
  pure (key :: observed)

def validateIndex (index : LegacyPersistenceIndex) (snapshots : List LegacySnapshot) :
    Except LegacyPreflightError Unit := do
  let expected ← index.agents.entries.foldlM expectAgent []
  let observed ← snapshots.foldlM (observeSnapshot expected) []
  refuse (observed.length ≠ expected.length) (.rejected "missing_legacy_snapshot")

def validateSnapshotEnvelope (P : Platform) (snapshot : LegacySnapshot) : Except LegacyPreflightError Unit := do
  refuse (isBlank snapshot.indexAgentId ∨ isBlank snapshot.cid) (.rejected "invalid_snapshot_index_entry")
  refuse (snapshot.declaredEntryCount ≠ snapshot.entries.length) (.rejected "snapshot_entry_count_mismatch")
  refuse (P.sha256 snapshot.encodedEntries ≠ snapshot.cid) (.rejected "legacy_cas_hash_mismatch")
  refuse (snapshot.indexTier ∉ legacyTierNames) (.rejected "unsupported_persisted_tier")
  refuse (∃ entry ∈ snapshot.entries, entry.agentId ≠ snapshot.indexAgentId ∨
    indexName entry.tier ≠ snapshot.indexTier) (.rejected "snapshot_boundary_mismatch")

/-! ## Entries -/

def validateCanonicalizableContent : LegacyMemoryContent → Except LegacyPreflightError Unit
  | .structured value => (ensureJcsSafeNumbers value).mapError .rejected
  | .knowledge piece => refuse (isFiniteF32 piece.confidence = false) (.rejected "non_finite_knowledge_confidence")
  | .text _ | .objectRef _ | .procedure _ => .ok ()

/-- The entries collected so far and the namespace of the first one. -/
structure EntryScan where
  entries : List LegacyMemoryEntry
  namespace_ : Option (Option String)

def scanEntry (P : Platform) (scan : EntryScan) (entry : LegacyMemoryEntry) :
    Except LegacyPreflightError EntryScan := do
  refuse ((P.parseUuid entry.id).isNone) (.rejected "invalid_revision_id")
  refuse (isBlank entry.agentId) (.rejected "empty_legacy_agent_id")
  refuse (entry.tenantId = some "") (.rejected "empty_legacy_namespace")
  refuse (scan.namespace_.any fun current => current ≠ entry.tenantId) (.rejected "multiple_legacy_namespaces")
  refuse (entry.causalParent.isSome) (.rejected "unsupported_causal_relation")
  validateCanonicalizableContent entry.content
  refuse (entry.id ∈ scan.entries.map (·.id)) (.rejected "duplicate_revision_id")
  pure ⟨scan.entries ++ [entry], some entry.tenantId⟩

def scanSnapshot (P : Platform) (scan : EntryScan) (snapshot : LegacySnapshot) :
    Except LegacyPreflightError EntryScan := do
  validateSnapshotEnvelope P snapshot
  snapshot.entries.foldlM (scanEntry P) scan

/-! ## Links -/

def validateLinkBoundary (left right : LegacyMemoryEntry) : Except LegacyPreflightError Unit := do
  refuse (left.agentId ≠ right.agentId) (.rejected "cross_role_supersession_link")
  refuse (left.tenantId ≠ right.tenantId) (.rejected "cross_namespace_supersession_link")
  refuse (left.tier ≠ right.tier) (.rejected "cross_tier_supersession_link")

variable (entries : List LegacyMemoryEntry)

/-- `entries.get(id)`. -/
def findEntry (id : String) : Option LegacyMemoryEntry :=
  entries.find? fun entry => entry.id == id

/-- One direction of the links of an entry: its target exists and points back, within the same boundary. -/
def validateLink (entry : LegacyMemoryEntry)
    (link back : LegacyMemoryEntry → Option String) : Except LegacyPreflightError Unit :=
  match link entry with
  | none => .ok ()
  | some targetId => do
    let target ← required (findEntry entries targetId) (.rejected "missing_supersession_revision")
    refuse (back target ≠ some entry.id) (.rejected "asymmetric_supersession_link")
    validateLinkBoundary entry target

def validateLinks (entry : LegacyMemoryEntry) : Except LegacyPreflightError Unit := do
  refuse (entry.supersedes = some entry.id ∨ entry.supersededBy = some entry.id) (.rejected "self_supersession_link")
  validateLink entries entry (·.supersedes) (·.supersededBy)
  validateLink entries entry (·.supersededBy) (·.supersedes)

/-- `child_counts`: how many entries supersede the one with this id. -/
def childCount (parentId : String) : Nat :=
  (entries.filter fun entry => entry.supersedes == some parentId).length

/-- `entries[id]`, which panics on a missing key. -/
def indexEntry (id : String) : Except LegacyPreflightError LegacyMemoryEntry :=
  required (findEntry entries id) .panicked

/-! ## Streams -/

/-- The loop from one root to its head. The root is in the map under its own id. -/
def walkStream (visited : List String) (root : LegacyMemoryEntry) :
    Except LegacyPreflightError (List (String × LegacyMemoryEntry)) :=
  walk (indexEntry entries) (·.supersededBy) (.rejected "supersession_cycle") (entries.length + 1) visited
    (some root.id)

/-- The loop over the roots: the ids visited so far and the streams found. -/
def buildStreams (entries : List LegacyMemoryEntry) (visited : List String) (streams : List LegacyStream) :
    List LegacyMemoryEntry → Except LegacyPreflightError (List String × List LegacyStream)
  | [] => .ok (visited, streams)
  | root :: roots => do
    let chain ← walkStream entries visited root
    refuse (∃ revision ∈ chain.dropLast, revision.2.deletedAt.isSome) (.rejected "deleted_non_head_revision")
    buildStreams entries (chain.map Prod.fst ++ visited) (streams ++ [⟨root.id, chain.map Prod.fst⟩]) roots

def rootsOf : List LegacyMemoryEntry :=
  (entries.filter fun entry => entry.supersedes.isNone).insertionSort fun left right => left.id ≤ right.id

/-- The checks of the links and the streams they form. -/
def validateStreams : Except LegacyPreflightError (List LegacyStream) := do
  refuse (∃ entry ∈ entries, entry.supersedes.any fun parentId => 1 < childCount entries parentId)
    (.rejected "branched_supersession_chain")
  checkAll (validateLinks entries) entries
  let (visited, streams) ← buildStreams entries [] [] (rootsOf entries)
  refuse (visited.length ≠ entries.length) (.rejected "supersession_cycle")
  pure streams

/-! ## The authorization -/

variable (authorization : LegacyAccessAuthorization)

/-- The agents mapped so far. -/
def mapAgent (mapped : List String) (mapping : LegacyRoleMapping) : Except LegacyPreflightError (List String) := do
  refuse (isBlank mapping.legacyAgentId ∨ isBlank mapping.targetRoleId ∨
    mapping.targetRoleId ∉ authorization.authorizedRoleIds ∨ mapping.legacyAgentId ∈ mapped)
    (.rejected "invalid_role_mapping")
  pure (mapping.legacyAgentId :: mapped)

/-- The groups mapped so far. -/
def mapGroup (mapped : List String) (mapping : LegacyGroupMapping) : Except LegacyPreflightError (List String) := do
  refuse (isBlank mapping.legacyGroupId ∨ strictRoles mapping.targetRoleIds = false ∨
    (∃ role ∈ mapping.targetRoleIds, role ∉ authorization.authorizedRoleIds) ∨ mapping.legacyGroupId ∈ mapped)
    (.rejected "unresolved_group_audience")
  pure (mapping.legacyGroupId :: mapped)

def LegacyMemoryScope.groupId : LegacyMemoryScope → Option String
  | .group groupId => some groupId
  | .private_ | .shared => none

def validateAccessAuthorization (entries : List LegacyMemoryEntry) : Except LegacyPreflightError Unit := do
  refuse (strictRoles authorization.authorizedRoleIds = false) (.rejected "invalid_authorized_role_set")
  refuse (¬ (authorization.roleMappings.map (·.legacyAgentId)).IsChain (· < ·)) (.rejected "invalid_role_mapping")
  let mappedAgents ← authorization.roleMappings.foldlM (mapAgent authorization) []
  let agentIds := entries.map (·.agentId)
  refuse (¬ (mappedAgents ⊆ agentIds ∧ agentIds ⊆ mappedAgents)) (.rejected "incomplete_role_mapping")
  let requiredGroups := entries.filterMap (·.scope.groupId)
  refuse (∃ groupId ∈ requiredGroups, isBlank groupId) (.rejected "unresolved_group_audience")
  refuse (¬ (authorization.groupMappings.map (·.legacyGroupId)).IsChain (· < ·))
    (.rejected "unresolved_group_audience")
  let mappedGroups ← authorization.groupMappings.foldlM (mapGroup authorization) []
  refuse (¬ (mappedGroups ⊆ requiredGroups ∧ requiredGroups ⊆ mappedGroups)) (.rejected "unresolved_group_audience")

/-! ## The preflight -/

def LegacySnapshot.source (snapshot : LegacySnapshot) : SourceSnapshot :=
  ⟨snapshot.indexAgentId, snapshot.indexTier, snapshot.cid, snapshot.objectEnvelopeHash, snapshot.declaredEntryCount⟩

def preflight (P : Platform) (index : LegacyPersistenceIndex) (snapshots : List LegacySnapshot)
    (authorization : LegacyAccessAuthorization) : Except LegacyPreflightError LegacyPreflightReport := do
  validateIndex index snapshots
  let scan ← snapshots.foldlM (scanSnapshot P) ⟨[], none⟩
  let streams ← validateStreams scan.entries
  validateAccessAuthorization authorization scan.entries
  pure
    { namespace_ := match scan.namespace_.join with
        | some value => .named value
        | none => .preNamespace
      entryCount := scan.entries.length
      streamCount := (rootsOf scan.entries).length
      streams
      entries := scan.entries
      sourceSnapshots := (snapshots.map (·.source)).insertionSort fun left right => left.key ≤ right.key
      authorizedRoleIds := authorization.authorizedRoleIds
      roleMappings := authorization.roleMappings
      groupMappings := authorization.groupMappings }

end Plico.Migrate
