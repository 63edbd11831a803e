import Plico.Model.Ledger.Load

/-!
# Committing revisions (memory/ledger/store.rs)

`commitRecords` first decides: it checks the batch against the current view, stamps the revisions,
makes the policies of new memories, validates the candidate logs and encodes the objects of the next
generation (`prepareCommit`). Then it writes: the objects one by one, and the pointer last. The clock,
the random policy ids and the behaviour of the storage device are inputs (`CommitInputs`).
-/

namespace Plico.Ledger

variable (P : LedgerPlatform)

/-- The sole writer of the ledger: its storage and the state behind its lock. -/
structure CASCanonicalLedger where
  storage : LedgerStorage
  state : LedgerState

/-- Open the ledger of a store, writing its genesis if the store has no pointer. -/
def CASCanonicalLedger.new (st : LedgerStorage) : Except LedgerError CASCanonicalLedger := do
  let storage ← ensureGenesis P st
  let state ← loadState P storage
  pure ⟨storage, state⟩

/-- What a commit reads from outside: the time, the random ids, the faults of the device. -/
structure CommitInputs where
  now : Nat
  policyIds : Nat → String
  putFaults : Nat → PutFault
  publishFault : PublishFault

/-! ## Deciding -/

def headMatches (revision : CanonicalRevision) (actual : Option MemoryRevisionId) : ExpectedHead → Bool
  | .absent => actual.isNone && revision.parentRevisionId.isNone
  | .revision expectedId => actual == some expectedId && revision.parentRevisionId == some expectedId

variable (roleId : String)

/-- One iteration of the loop over the batch; the memories met so far are its state. -/
def checkBatchItem (tier : MemoryTier) (view : CurrentView) (seen : List MemoryId)
    (item : CanonicalRevision × ExpectedHead) : Except LedgerError (List MemoryId) := do
  let (revision, expected) := item
  refuse (revision.cognitiveTier ≠ tier ∨ (expected = .absent ∧ revision.committedByRole ≠ roleId))
    (.invalid "commit_boundary_mismatch")
  refuse (revision.memoryId ∈ seen) (.invalid "duplicate_memory_in_batch")
  let actual := headFor view revision.memoryId
  refuse (headMatches revision actual expected = false) (.headConflict revision.memoryId expected actual)
  pure (revision.memoryId :: seen)

def checkWriter (view : CurrentView) (policies : List PolicyRecord)
    (revision : CanonicalRevision) : Except LedgerError Unit :=
  if (headFor view revision.memoryId).isSome then do
    let stream ← required (streamFor view revision.memoryId) (.invalid "missing_current_policy")
    let policy ← required (policies.find? fun policy => policy.policyId = stream.policyId)
      (.invalid "missing_current_policy")
    refuse (roleId ∉ policy.writerRoles) (.unsupportedPolicy "role_not_policy_writer")
  else .ok ()

/-- The fields the writer sets, whatever the caller supplied. -/
def stamp (committedAt sequence : Nat) (revision : CanonicalRevision) : CanonicalRevision :=
  { revision with
    schema := revisionSchema
    sequence := sequence
    committedAt := committedAt
    committedByRole := roleId
    deletedAt := revision.deletedAt.map fun _ => committedAt }

def privateRoles : List String :=
  if roleId = personalOwnerRoleId then [roleId]
  else [roleId, personalOwnerRoleId].insertionSort (· ≤ ·)

def privatePolicy (committedAt sequence : Nat) (policyId : String)
    (revision : CanonicalRevision) : PolicyRecord :=
  { schema := policySchema
    sequence := sequence
    policyId := policyId
    memoryId := revision.memoryId
    effectiveFromRevisionId := revision.revisionId
    originRoleId := roleId
    mode := .private_
    readerRoles := privateRoles roleId
    writerRoles := privateRoles roleId
    committedAt := committedAt
    committedByRole := roleId }

/-- The policies of the revisions that start a memory, numbered in batch order. -/
def newPolicies (committedAt first : Nat) (policyIds : Nat → String)
    (batch : List (CanonicalRevision × ExpectedHead)) : List PolicyRecord :=
  ((batch.filter fun item => item.2 = .absent).map Prod.fst).mapIdx fun i revision =>
    privatePolicy roleId committedAt (first + i) (policyIds i) revision

/-- The next generation, ready to be written: its objects in writing order and the state it leads to. -/
structure PreparedCommit where
  newRevisions : List CanonicalRevision
  generation : Nat
  root : LedgerRoot
  rootHash : String
  view : CurrentView
  revisions : List CanonicalRevision
  policies : List PolicyRecord
  objects : List (String × Bytes)

variable (s : LedgerState)

def revisionSegmentOf (revisions : List CanonicalRevision) : Segment CanonicalRevision :=
  { schema := revisionSegmentSchema
    firstSequence := s.revisions.length + 1
    lastSequence := s.revisions.length + 1 + revisions.length - 1
    previousSegmentHash := s.root.bind (·.revisionHead)
    records := revisions }

def policySegmentOf (policies : List PolicyRecord) : Segment PolicyRecord :=
  { schema := policySegmentSchema
    firstSequence := s.policies.length + 1
    lastSequence := s.policies.length + 1 + policies.length - 1
    previousSegmentHash := s.root.bind (·.policyHead)
    records := policies }

/-- The policy segment of the commit: its last sequence, bytes and hash; none when no policy is new. -/
def policyObject (policies : List PolicyRecord) : Except LedgerError (Option (Nat × Bytes × String)) :=
  if policies.isEmpty then .ok none
  else do
    let segment := policySegmentOf s policies
    let (bytes, hash) ← canonicalBytesAndHash P segmentDomain P.policySegment segment
    pure (some (segment.lastSequence, bytes, hash))

def candidateRoot (roleId : String) (committedAt generation : Nat) (revisionHash : String)
    (revisionWatermark : Nat) (policy : Option (Nat × Bytes × String)) (viewHash : String) : LedgerRoot :=
  { schema := rootSchema
    generation := generation
    previousRootHash := s.rootHash
    revisionHead := some revisionHash
    revisionWatermark := revisionWatermark
    policyHead := (policy.map (·.2.2)).orElse fun _ => s.root.bind (·.policyHead)
    policyWatermark := policy.elim s.policies.length (·.1)
    relationHead := s.root.bind (·.relationHead)
    relationWatermark := s.root.elim 0 (·.relationWatermark)
    currentViewHash := viewHash
    migrationManifestHash := s.root.bind (·.migrationManifestHash)
    committedAt := committedAt
    committedByRole := roleId }

/-- Encode the next generation over validated candidate logs. -/
def encodeCommit (roleId : String) (committedAt : Nat) (revisions : List CanonicalRevision)
    (policies : List PolicyRecord) : Except LedgerError PreparedCommit := do
  let generation := s.root.elim 1 (·.generation + 1)
  let segment := revisionSegmentOf s revisions
  let (revisionBytes, revisionHash) ← canonicalBytesAndHash P segmentDomain P.revisionSegment segment
  let policy ← policyObject P s policies
  let view ← rebuildCurrentView generation (s.revisions ++ revisions) (s.policies ++ policies) s.relations.length
  let (viewBytes, viewHash) ← canonicalBytesAndHash P viewDomain P.view view
  let root := candidateRoot s roleId committedAt generation revisionHash segment.lastSequence policy viewHash
  let (rootBytes, rootHash) ← canonicalBytesAndHash P rootDomain P.root root
  pure
    { newRevisions := revisions
      generation, root, rootHash, view
      revisions := s.revisions ++ revisions
      policies := s.policies ++ policies
      objects := (revisionHash, revisionBytes) :: (policy.toList.map fun p => (p.2.2, p.2.1)) ++
        [(viewHash, viewBytes), (rootHash, rootBytes)] }

/-- Everything `commit_records` decides before its first write. -/
def prepareCommit (roleId : String) (tier : MemoryTier) (revisions : List CanonicalRevision)
    (expectedHeads : List ExpectedHead) (inputs : CommitInputs) : Except LedgerError PreparedCommit := do
  refuse (revisions.length ≠ expectedHeads.length ∨ revisions.isEmpty) (.invalid "invalid_commit_batch")
  refuse (tier = .ephemeral) (.invalid "ephemeral_revision_not_durable")
  refuse (s.poisoned = true) .writerPoisoned
  let view := s.view.getD genesisView
  let _ ← (revisions.zip expectedHeads).foldlM (checkBatchItem roleId tier view) []
  let _ ← revisions.mapM (checkWriter roleId view s.policies)
  let stamped := revisions.mapIdx fun offset revision =>
    stamp roleId inputs.now (s.revisions.length + 1 + offset) revision
  let policies := newPolicies roleId inputs.now (s.policies.length + 1) inputs.policyIds (stamped.zip expectedHeads)
  validateRevisions P.toPlatform (s.revisions ++ stamped)
  validatePolicies P.toPlatform (s.policies ++ policies) (s.revisions ++ stamped)
  encodeCommit P s roleId inputs.now stamped policies

/-! ## Writing -/

/-- Write the objects in order, up to the first failure. -/
def writeObjects (st : LedgerStorage) : List (String × Bytes) → (Nat → PutFault) →
    LedgerStorage × Except LedgerError Unit
  | [], _ => (st, .ok ())
  | (hash, bytes) :: rest, faults =>
    match putImmutable st hash bytes (faults 0) with
    | (st, .ok _) => writeObjects st rest fun i => faults (i + 1)
    | (st, .error e) => (st, .error (.io e))

/-- The state a prepared commit leads to once its pointer is published. -/
def PreparedCommit.apply (c : PreparedCommit) (s : LedgerState) : LedgerState :=
  { s with
    rootHash := some c.rootHash
    root := some c.root
    view := some c.view
    revisions := c.revisions
    policies := c.policies }

def PreparedCommit.receipts (c : PreparedCommit) (committedAt : Nat) : List LedgerCommit :=
  c.newRevisions.map fun revision => ⟨c.generation, revision.sequence, revision.revisionId, committedAt⟩

variable (l : CASCanonicalLedger)

/-- Publish the pointer over written objects. -/
def publishCommit (c : PreparedCommit) (inputs : CommitInputs) :
    CASCanonicalLedger × Except LedgerError (List LedgerCommit) :=
  match jcs P.pointer (activePointer c.rootHash) with
  | .error e => (l, .error e)
  | .ok bytes =>
    let storage := l.storage.publish bytes inputs.publishFault
    match inputs.publishFault with
    | .none => (⟨storage, c.apply l.state⟩, .ok (c.receipts inputs.now))
    | .lost => (⟨storage, l.state⟩, .error (.io .fault))
    | .unsynced => (⟨storage, { l.state with poisoned := true }⟩, .error .commitIndeterminate)

def commitRecords (roleId : String) (tier : MemoryTier)
    (revisions : List CanonicalRevision) (expectedHeads : List ExpectedHead) (inputs : CommitInputs) :
    CASCanonicalLedger × Except LedgerError (List LedgerCommit) :=
  match prepareCommit P l.state roleId tier revisions expectedHeads inputs with
  | .error e => (l, .error e)
  | .ok c =>
    match writeObjects l.storage c.objects inputs.putFaults with
    | (storage, .error e) => ({ l with storage }, .error e)
    | (storage, .ok _) => publishCommit P { l with storage } c inputs

/-! ## The two entry points -/

def commitExpected (roleId : String) (tier : MemoryTier) (expectedHead : ExpectedHead)
    (revision : CanonicalRevision) (inputs : CommitInputs) :
    CASCanonicalLedger × Except LedgerError LedgerCommit :=
  let (l', result) := commitRecords P l roleId tier [revision] [expectedHead] inputs
  (l', do
    let commits ← result
    required commits.getLast? (.invalid "missing_commit_receipt"))

def commitRoots (roleId : String) (tier : MemoryTier) (revisions : List CanonicalRevision) (inputs : CommitInputs) :
    CASCanonicalLedger × Except LedgerError (List LedgerCommit) :=
  commitRecords P l roleId tier revisions (List.replicate revisions.length .absent) inputs

/-- A client's request. -/
inductive CommitCall where
  | expected (roleId : String) (tier : MemoryTier) (expectedHead : ExpectedHead) (revision : CanonicalRevision)
  | roots (roleId : String) (tier : MemoryTier) (revisions : List CanonicalRevision)

/-- Run one request; the commits it acknowledges are its result. -/
def CommitCall.run (call : CommitCall) (inputs : CommitInputs) :
    CASCanonicalLedger × Except LedgerError (List LedgerCommit) :=
  match call with
  | .expected roleId tier expectedHead revision =>
    let (l', result) := commitExpected P l roleId tier expectedHead revision inputs
    (l', result.map ([·]))
  | .roots roleId tier revisions => commitRoots P l roleId tier revisions inputs

/-- The ledger after the requests of `calls`, each with the inputs it met. -/
def runCommits (calls : List (CommitCall × CommitInputs)) : CASCanonicalLedger :=
  calls.foldl (fun l call => (call.1.run P l call.2).1) l

end Plico.Ledger
