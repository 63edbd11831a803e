import Plico.Model.Ledger.Commit
import Plico.Model.Layered.Entry

/-!
# The runtime memory (memory/layered/mod.rs)

`LayeredMemory` keeps, for each tier and role, the entries the role has, and writes durable ones through
the ledger: the entry is published in memory only after the ledger has committed its revision. Each
operation runs under the locks of the source, so a run is a sequence of operations. The clock, the new
revision ids and what a commit meets are inputs.
-/

namespace Plico.Layered

open Ledger

abbrev TierMap := AList (fun _ : String => List MemoryEntry)

structure LayeredMemory where
  ephemeral : TierMap
  working : TierMap
  longTerm : TierMap
  procedural : TierMap
  ledger : Option CASCanonicalLedger

inductive DurableMemoryMutationError where
  | notFound (entryId : String)
  | inactive (entryId : String)
  | namespaceMismatch (entryId : String)
  | emptyContent
  | invalidCanonicalContent (category : String)
  | quotaExceeded (current limit : Nat)
  | permissionDenied
  | persistenceUnavailable
  | ledger (error : LedgerError)
  deriving DecidableEq

/-- The memory after an operation and what the operation returns. -/
abbrev Mutated (α : Type) := LayeredMemory × Except DurableMemoryMutationError α

namespace LayeredMemory

/-- `LayeredMemory::new` with the ledger attached. -/
def new (ledger : CASCanonicalLedger) : LayeredMemory :=
  ⟨∅, ∅, ∅, ∅, some ledger⟩

variable (P : LedgerPlatform) (m : LayeredMemory)

def tierMap : MemoryTier → TierMap
  | .ephemeral => m.ephemeral
  | .working => m.working
  | .longTerm => m.longTerm
  | .procedural => m.procedural

def setTierMap (map : TierMap) : MemoryTier → LayeredMemory
  | .ephemeral => { m with ephemeral := map }
  | .working => { m with working := map }
  | .longTerm => { m with longTerm := map }
  | .procedural => { m with procedural := map }

variable (agentId : String)
variable (tier : MemoryTier)

def getTier : List MemoryEntry :=
  ((m.tierMap tier).lookup agentId).getD []

variable (entries : List MemoryEntry)

/-- Replace the entries of a role in a tier. -/
def setTier : LayeredMemory :=
  m.setTierMap ((m.tierMap tier).insert agentId entries) tier

/-- `entry(agent_id).or_default().extend(..)`. -/
def extend : LayeredMemory :=
  m.setTier agentId tier (m.getTier agentId tier ++ entries)

variable (entry : MemoryEntry)

def storeInner : LayeredMemory :=
  m.extend entry.agentId entry.tier [entry]

def tiers : List MemoryTier := [.ephemeral, .working, .longTerm, .procedural]

def countForAgent : Nat :=
  (tiers.map fun tier => (m.getTier agentId tier).length).sum

def activeRevisions : List MemoryEntry :=
  entries.filter fun entry =>
    entry.id ∉ entries.filterMap (·.parentRevisionId) ∧ entry.deletedAt = none ∧ entry.supersededBy = none

def getActiveTier : List MemoryEntry :=
  activeRevisions (m.getTier agentId tier)

/-! ## Creating -/

def sealed : Except DurableMemoryMutationError MemoryEntry :=
  (entry.sealRootIdentity P.toPlatform).mapError .invalidCanonicalContent

def fromEntry : Except DurableMemoryMutationError CanonicalRevision :=
  (entryToRevision entry).mapError .ledger

/-- The quota of a single entry; zero is no quota. -/
def checkQuota (quota current : Nat) : Except DurableMemoryMutationError Unit :=
  refuse (0 < quota ∧ quota ≤ current) (.quotaExceeded current quota)

/-- The quota of `count` entries at once. -/
def checkBatchQuota (quota current count : Nat) : Except DurableMemoryMutationError Unit :=
  refuse (0 < quota ∧ quota < current + count) (.quotaExceeded current quota)

/-- Commit the revision of a sealed entry as a root of its role and tier, and publish it. -/
def commitRoot (ledger : CASCanonicalLedger) (tier : MemoryTier) (entry : MemoryEntry)
    (revision : CanonicalRevision) (inputs : CommitInputs) : Mutated MemoryEntry :=
  match commitExpected P ledger entry.agentId tier .absent revision inputs with
  | (ledger, .error e) => ({ m with ledger := some ledger }, .error (.ledger e))
  | (ledger, .ok receipt) =>
    let published := entry.publishedAt receipt.committedAt
    ({ m with ledger := some ledger }.extend entry.agentId tier [published], .ok published)

/-- The entries of the tiers other than Working. -/
def nonWorkingCount : Nat :=
  ([.ephemeral, .longTerm, .procedural].map fun tier => (m.getTier agentId tier).length).sum

def sealWithLedger : Except DurableMemoryMutationError (MemoryEntry × CASCanonicalLedger) := do
  let entry ← sealed P entry
  let ledger ← required m.ledger .persistenceUnavailable
  pure (entry, ledger)

/-- The revision of an entry, if the quota admits one more. -/
def revisionWithinQuota (quota current : Nat) (entry : MemoryEntry) :
    Except DurableMemoryMutationError CanonicalRevision := do
  checkQuota quota current
  fromEntry entry

/-- `create_working_durable`, where `current` entries of the agent have been counted. -/
def createWorkingCounted (quota current : Nat) (inputs : CommitInputs) : Mutated MemoryEntry :=
  match m.sealWithLedger P entry with
  | .error e => (m, .error e)
  | .ok (entry, ledger) =>
    -- the vector of the role is there from here on, also when the entry is refused
    let m := m.extend entry.agentId .working []
    match revisionWithinQuota quota current entry with
    | .error e => (m, .error e)
    | .ok revision => m.commitRoot P ledger .working entry revision inputs

/-- The count of the two paths that create Working entries. -/
def workingCount : Nat :=
  m.nonWorkingCount agentId + (m.getTier agentId .working).length

def createWorkingDurable (quota : Nat) (inputs : CommitInputs) : Mutated MemoryEntry :=
  m.createWorkingCounted P entry quota (m.workingCount entry.agentId) inputs

def createInTier (entry : MemoryEntry) (quota current : Nat)
    (inputs : CommitInputs) : Mutated MemoryEntry :=
  match m.sealWithLedger P entry with
  | .error e => (m, .error e)
  | .ok (entry, ledger) =>
    match revisionWithinQuota quota current entry with
    | .error e => (m, .error e)
    | .ok revision => m.commitRoot P ledger tier entry revision inputs

def createCounted (quota current : Nat) (inputs : CommitInputs) : Mutated MemoryEntry :=
  match entry.tier with
  | .working => m.createWorkingCounted P entry quota current inputs
  | .ephemeral => (m, .error (.invalidCanonicalContent "ephemeral_revision_not_durable"))
  | tier => m.createInTier P tier entry quota current inputs

/-- A Working entry goes the way of `createWorkingDurable`. -/
def createDurable (quota : Nat) (inputs : CommitInputs) : Mutated MemoryEntry :=
  m.createCounted P entry quota
    (if entry.tier = .working then m.workingCount entry.agentId else m.countForAgent entry.agentId) inputs

/-- Check one entry of a batch against the first one, and seal it. -/
def sealInBatch (category : String) (entry : MemoryEntry) : Except DurableMemoryMutationError MemoryEntry := do
  refuse (entry.agentId ≠ agentId ∨ entry.tier ≠ tier) (.invalidCanonicalContent category)
  sealed P entry

/-- Commit the revisions of sealed entries as roots of one role and tier, and publish them. -/
def commitRootBatch (ledger : CASCanonicalLedger) (agentId : String) (tier : MemoryTier)
    (entries : List MemoryEntry) (revisions : List CanonicalRevision) (inputs : CommitInputs) :
    Mutated (List MemoryEntry) :=
  match commitRoots P ledger agentId tier revisions inputs with
  | (ledger, .error e) => ({ m with ledger := some ledger }, .error (.ledger e))
  | (ledger, .ok receipts) =>
    let published := entries.zipWith (fun entry receipt => entry.publishedAt receipt.committedAt) receipts
    ({ m with ledger := some ledger }.extend agentId tier published, .ok published)

/-- Everything `create_batch_durable` decides before it commits. -/
def batchRevisions (quota current : Nat) :
    Except DurableMemoryMutationError (List MemoryEntry × CASCanonicalLedger × List CanonicalRevision) := do
  refuse (tier = .ephemeral) (.invalidCanonicalContent "ephemeral_revision_not_durable")
  let entries ← entries.mapM (sealInBatch P agentId tier "invalid_batch_boundary")
  checkBatchQuota quota current entries.length
  let ledger ← required m.ledger .persistenceUnavailable
  let revisions ← entries.mapM fromEntry
  pure (entries, ledger, revisions)

def createBatchCounted (quota current : Nat) (inputs : CommitInputs) : Mutated (List MemoryEntry) :=
  match entries with
  | [] => (m, .ok [])
  | first :: rest =>
    match m.batchRevisions P first.agentId first.tier (first :: rest) quota current with
    | .error e => (m, .error e)
    | .ok (entries, ledger, revisions) =>
      m.commitRootBatch P ledger first.agentId first.tier entries revisions inputs

/-- The agent of a batch. -/
def agentOf : List MemoryEntry → String
  | [] => ""
  | first :: _ => first.agentId

def createBatchDurable (quota : Nat) (inputs : CommitInputs) : Mutated (List MemoryEntry) :=
  m.createBatchCounted P entries quota (m.countForAgent (agentOf entries)) inputs

def sealBatchWithLedger : Except DurableMemoryMutationError (List MemoryEntry × CASCanonicalLedger) := do
  let entries ← entries.mapM (sealInBatch P agentId .working "invalid_batch_identity")
  let ledger ← required m.ledger .persistenceUnavailable
  pure (entries, ledger)

def revisionsWithinQuota (quota current : Nat) (entries : List MemoryEntry) :
    Except DurableMemoryMutationError (List CanonicalRevision) := do
  checkBatchQuota quota current entries.length
  entries.mapM fromEntry

def createWorkingBatchCounted (quota current : Nat)
    (inputs : CommitInputs) : Mutated (List MemoryEntry) :=
  match entries with
  | [] => (m, .ok [])
  | first :: rest =>
    match m.sealBatchWithLedger P first.agentId (first :: rest) with
    | .error e => (m, .error e)
    | .ok (entries, ledger) =>
      let m := m.extend first.agentId .working []
      match revisionsWithinQuota quota current entries with
      | .error e => (m, .error e)
      | .ok revisions => m.commitRootBatch P ledger first.agentId .working entries revisions inputs

def createWorkingBatchDurable (quota : Nat) (inputs : CommitInputs) : Mutated (List MemoryEntry) :=
  m.createWorkingBatchCounted P entries quota (m.workingCount (agentOf entries)) inputs

/-! ## Updating and deleting -/

/-- What a mutation of the entries of a role comes to: a result that is already there, or the entries
with one more at the end. -/
inductive Mutation where
  | existing (entry : MemoryEntry)
  | candidate (entries : List MemoryEntry)

abbrev Mutator := List MemoryEntry → Except DurableMemoryMutationError Mutation

/-- What `commit_working_mutation` has settled before it commits. -/
inductive WorkingMutation where
  | existing (entry : MemoryEntry)
  | commit (ledger : CASCanonicalLedger) (originRole : String) (candidate : List MemoryEntry)
    (published : MemoryEntry) (revision : CanonicalRevision)

def candidateRevision (entryId : String) (candidate : List MemoryEntry) :
    Except DurableMemoryMutationError (MemoryEntry × CanonicalRevision) := do
  let committed ← required (candidate.getLast?.filter fun entry => entry.id ≠ entryId)
    (.invalidCanonicalContent "mutation_did_not_append_revision")
  let revision ← fromEntry committed
  pure (committed, revision)

def workingMutation (callerRoleId entryId : String)
    (mutate : Mutator) :
    Except DurableMemoryMutationError WorkingMutation := do
  let ledger ← required m.ledger .persistenceUnavailable
  let origin ← (originForRevision ledger.state callerRoleId entryId true).mapError .ledger
  let originRole ← required origin (.notFound entryId)
  let live ← required (m.working.lookup originRole) (.notFound entryId)
  match ← mutate live with
  | .existing entry => pure (.existing entry)
  | .candidate candidate => do
    let (committed, revision) ← candidateRevision entryId candidate
    pure (.commit ledger originRole candidate committed revision)

/-- Commit the revision a mutation appends, and publish the new entries only then. -/
def commitWorkingMutation (callerRoleId entryId : String)
    (mutate : Mutator) (inputs : CommitInputs) : Mutated MemoryEntry :=
  match m.workingMutation callerRoleId entryId mutate with
  | .error e => (m, .error e)
  | .ok (.existing entry) => (m, .ok entry)
  | .ok (.commit ledger originRole candidate committed revision) =>
    match commitExpected P ledger callerRoleId .working (.revision entryId) revision inputs with
    | (ledger, .error e) => ({ m with ledger := some ledger }, .error (.ledger e))
    | (ledger, .ok receipt) =>
      let published := committed.publishedAt receipt.committedAt
      ({ m with ledger := some ledger }.setTier originRole .working (candidate.dropLast ++ [published]),
        .ok published)

/-- The revision that replaces the text of `previous`. -/
def updatedEntry (previous : MemoryEntry) (newRevisionId newContent : String) (hash : CanonicalContentHash)
    (now : Nat) : MemoryEntry :=
  { previous with
    id := newRevisionId
    parentRevisionId := some previous.id
    canonicalContentHash := hash
    tier := .working
    content := .text newContent
    accessCount := 0
    lastAccessed := now
    createdAt := now
    supersedes := none
    supersededBy := none
    deletedAt := none }

def updateMutation (namespace_ entryId newRevisionId newContent : String) (now : Nat)
    (candidate : List MemoryEntry) : Except DurableMemoryMutationError Mutation := do
  let previous ← required (candidate.find? fun entry => entry.id = entryId) (.notFound entryId)
  refuse (previous.tenantId ≠ namespace_) (.namespaceMismatch entryId)
  refuse (previous.deletedAt.isSome ∨ previous.supersededBy.isSome) (.inactive entryId)
  let hash ← ((MemoryContent.text newContent).canonicalContentHash P.toPlatform).mapError .invalidCanonicalContent
  pure (.candidate (candidate ++ [updatedEntry previous newRevisionId newContent hash now]))

def updateWorkingDurable (agentId namespace_ entryId newContent newRevisionId : String)
    (now : Nat) (inputs : CommitInputs) : Mutated MemoryEntry :=
  if isBlank newContent then (m, .error .emptyContent)
  else m.commitWorkingMutation P agentId entryId
    (updateMutation P namespace_ entryId newRevisionId newContent now) inputs

def tombstoneOf (newRevisionId : String) (now : Nat) : MemoryEntry :=
  { entry with
    id := newRevisionId
    parentRevisionId := some entry.id
    accessCount := 0
    lastAccessed := now
    createdAt := now
    deletedAt := some now
    supersededBy := none }

def headConflict (entryId actual : String) : DurableMemoryMutationError :=
  .ledger (.headConflict entry.memoryId (.revision entryId) (some actual))

def deleteMutation (namespace_ entryId newRevisionId : String) (now : Nat) (candidate : List MemoryEntry) :
    Except DurableMemoryMutationError Mutation := do
  let entry ← required (candidate.find? fun entry => entry.id = entryId) (.notFound entryId)
  refuse (entry.tenantId ≠ namespace_) (.namespaceMismatch entryId)
  refuse (entry.deletedAt.isSome) (headConflict entry entryId entry.id)
  match candidate.find? fun child => child.parentRevisionId = some entryId with
  | some child =>
    if child.deletedAt.isSome then pure (.existing child) else .error (headConflict entry entryId child.id)
  | none => pure (.candidate (candidate ++ [tombstoneOf entry newRevisionId now]))

def deleteWorkingDurable (agentId namespace_ entryId newRevisionId : String) (now : Nat)
    (inputs : CommitInputs) : Mutated MemoryEntry :=
  m.commitWorkingMutation P agentId entryId (deleteMutation namespace_ entryId newRevisionId now) inputs

/-! ## Restoring and tracking -/

/-- Replace one tier of a role by what the ledger restored of it. -/
def restoreTier (restored : List (MemoryTier × List CanonicalRevision)) (m : LayeredMemory)
    (tier : MemoryTier) : LayeredMemory :=
  match restored.lookup tier with
  | some records => m.setTier agentId tier (records.map (CanonicalRevision.intoRuntimeEntry agentId))
  | none => m.setTierMap ((m.tierMap tier).erase agentId) tier

/-- Rebuild the durable tiers of a role from the ledger. -/
def restoreAgent : LayeredMemory :=
  match m.ledger with
  | none => m
  | some ledger =>
    [MemoryTier.working, .longTerm, .procedural].foldl
      (restoreTier agentId (rebuildOriginRole ledger.state agentId)) m

/-- Count an access on every entry of a role in one tier. -/
def recallTier (clock : MemoryTier → Nat → Nat) (m : LayeredMemory) (tier : MemoryTier) : LayeredMemory :=
  match (m.tierMap tier).lookup agentId with
  | none => m
  | some entries => m.setTier agentId tier (entries.mapIdx fun i entry => entry.onMemoryAccess (clock tier i))

/-- Read all entries of a role, counting the access on each; `clock` gives the time of each reading. -/
def recallWithTracking (clock : MemoryTier → Nat → Nat) : LayeredMemory × List MemoryEntry :=
  let m := tiers.foldl (recallTier agentId clock) m
  (m, tiers.flatMap (m.getTier agentId))

def touch (now : Nat) (entry : MemoryEntry) : MemoryEntry :=
  { entry with accessCount := entry.accessCount + 1, lastAccessed := now }

/-- Change the first entry with the id. -/
def touchFirst (entryId : String) (now : Nat) : List MemoryEntry → List MemoryEntry
  | [] => []
  | entry :: rest => if entry.id = entryId then touch now entry :: rest else entry :: touchFirst entryId now rest

/-- Count an access on the first entry with the id, in the order of the tiers. -/
def touchEntry (agentId entryId : String) (now : Nat) : LayeredMemory × Bool :=
  match tiers.find? fun tier =>
    (m.getTier agentId tier).any fun entry => entry.id = entryId with
  | none => (m, false)
  | some tier => (m.setTier agentId tier (touchFirst entryId now (m.getTier agentId tier)), true)

/-- Keep an ephemeral entry; durable ones are refused. -/
def store : Mutated Unit :=
  match sealed P entry with
  | .error e => (m, .error e)
  | .ok entry =>
    if entry.tier ≠ .ephemeral then (m, .error (.ledger (.invalid "durable_entry_requires_create_durable")))
    else (m.storeInner entry, .ok ())

def storeCounted (quota current : Nat) : Mutated Unit :=
  match checkQuota quota current with
  | .error e => (m, .error e)
  | .ok _ => m.store P entry

def storeChecked (quota : Nat) : Mutated Unit :=
  m.storeCounted P entry quota (m.countForAgent entry.agentId)

end LayeredMemory

/-! ## Runs -/

/-- An operation on the memory, with what it reads from outside. -/
inductive Op where
  | createWorking (entry : MemoryEntry) (quota : Nat) (inputs : CommitInputs)
  | create (entry : MemoryEntry) (quota : Nat) (inputs : CommitInputs)
  | createBatch (entries : List MemoryEntry) (quota : Nat) (inputs : CommitInputs)
  | createWorkingBatch (entries : List MemoryEntry) (quota : Nat) (inputs : CommitInputs)
  | update (agentId namespace_ entryId newContent newRevisionId : String) (now : Nat) (inputs : CommitInputs)
  | delete (agentId namespace_ entryId newRevisionId : String) (now : Nat) (inputs : CommitInputs)
  | restore (agentId : String)
  | recall (agentId : String) (clock : MemoryTier → Nat → Nat)
  | touch (agentId entryId : String) (now : Nat)
  | store (entry : MemoryEntry)

def Op.run (P : LedgerPlatform) (m : LayeredMemory) : Op → LayeredMemory
  | .createWorking entry quota inputs => (m.createWorkingDurable P entry quota inputs).1
  | .create entry quota inputs => (m.createDurable P entry quota inputs).1
  | .createBatch entries quota inputs => (m.createBatchDurable P entries quota inputs).1
  | .createWorkingBatch entries quota inputs => (m.createWorkingBatchDurable P entries quota inputs).1
  | .update agentId namespace_ entryId newContent newRevisionId now inputs =>
    (m.updateWorkingDurable P agentId namespace_ entryId newContent newRevisionId now inputs).1
  | .delete agentId namespace_ entryId newRevisionId now inputs =>
    (m.deleteWorkingDurable P agentId namespace_ entryId newRevisionId now inputs).1
  | .restore agentId => m.restoreAgent agentId
  | .recall agentId clock => (m.recallWithTracking agentId clock).1
  | .touch agentId entryId now => (m.touchEntry agentId entryId now).1
  | .store entry => (m.store P entry).1

def runOps (P : LedgerPlatform) (m : LayeredMemory) (ops : List Op) : LayeredMemory :=
  ops.foldl (Op.run P) m

/-! ## Calls that overlap

A call counts the entries of its agent one tier after the other, each under the lock of the tier, and then
goes on with the number it has. All calls but `store_checked` hold `persist_lock` meanwhile. -/

inductive QuotaCall where
  | storeChecked (entry : MemoryEntry) (quota : Nat)
  | createWorking (entry : MemoryEntry) (quota : Nat) (inputs : CommitInputs)
  | create (entry : MemoryEntry) (quota : Nat) (inputs : CommitInputs)
  | createBatch (entries : List MemoryEntry) (quota : Nat) (inputs : CommitInputs)
  | createWorkingBatch (entries : List MemoryEntry) (quota : Nat) (inputs : CommitInputs)
  | update (agentId namespace_ entryId newContent newRevisionId : String) (now : Nat) (inputs : CommitInputs)
  | delete (agentId namespace_ entryId newRevisionId : String) (now : Nat) (inputs : CommitInputs)

namespace QuotaCall

def takesPersistLock : QuotaCall → Bool
  | .storeChecked .. => false
  | _ => true

def agentId : QuotaCall → String
  | .storeChecked entry _ | .createWorking entry .. | .create entry .. => entry.agentId
  | .createBatch entries .. | .createWorkingBatch entries .. => LayeredMemory.agentOf entries
  | .update agentId .. | .delete agentId .. => agentId

/-- The tiers a call counts, in its order. -/
def countedTiers : QuotaCall → List MemoryTier
  | .storeChecked _ quota => if 0 < quota then LayeredMemory.tiers else []
  | .createWorking .. | .createWorkingBatch .. => [.ephemeral, .longTerm, .procedural, .working]
  | .create entry .. =>
    if entry.tier = .working then [.ephemeral, .longTerm, .procedural, .working] else LayeredMemory.tiers
  | .createBatch .. => LayeredMemory.tiers
  | .update .. | .delete .. => []

/-- The entries that a call returns are left out. -/
def discard {α : Type} (out : Mutated α) : Mutated Unit :=
  (out.1, out.2.map fun _ => ())

/-- What a call does that has counted `current` entries. -/
def finish (P : LedgerPlatform) (m : LayeredMemory) (current : Nat) :
    QuotaCall → Mutated Unit
  | .storeChecked entry quota => m.storeCounted P entry quota current
  | .createWorking entry quota inputs => discard (m.createWorkingCounted P entry quota current inputs)
  | .create entry quota inputs => discard (m.createCounted P entry quota current inputs)
  | .createBatch entries quota inputs => discard (m.createBatchCounted P entries quota current inputs)
  | .createWorkingBatch entries quota inputs => discard (m.createWorkingBatchCounted P entries quota current inputs)
  | .update agentId namespace_ entryId newContent newRevisionId now inputs =>
    discard (m.updateWorkingDurable P agentId namespace_ entryId newContent newRevisionId now inputs)
  | .delete agentId namespace_ entryId newRevisionId now inputs =>
    discard (m.deleteWorkingDurable P agentId namespace_ entryId newRevisionId now inputs)

end QuotaCall

inductive QuotaPhase where
  | waiting
  | counting (unread : List MemoryTier) (counted : Nat)
  | finished
  deriving DecidableEq

structure QuotaThread where
  call : QuotaCall
  phase : QuotaPhase

structure QuotaSystem where
  memory : LayeredMemory
  threads : List QuotaThread

namespace QuotaSystem

/-- The calls are all to come. -/
def start (memory : LayeredMemory) (calls : List QuotaCall) : QuotaSystem :=
  ⟨memory, calls.map fun call => ⟨call, .waiting⟩⟩

variable (P : LedgerPlatform) (s : QuotaSystem) (i : Nat)

def persistLocked : Bool :=
  s.threads.any fun t => t.call.takesPersistLock && t.phase matches .counting ..

/-- The call need not wait. -/
def admits (call : QuotaCall) : Bool :=
  !(call.takesPersistLock && s.persistLocked)

def setPhase (t : QuotaThread) (phase : QuotaPhase) : List QuotaThread :=
  s.threads.set i { t with phase }

/-- One step of the thread `i`; a thread that waits for the lock stays as it is. -/
def step : QuotaSystem :=
  match s.threads[i]? with
  | none => s
  | some t =>
    match t.phase with
    | .waiting =>
      if s.admits t.call then { s with threads := s.setPhase i t (.counting t.call.countedTiers 0) } else s
    | .counting (tier :: unread) counted =>
      { s with
        threads := s.setPhase i t (.counting unread (counted + (s.memory.getTier t.call.agentId tier).length)) }
    | .counting [] counted =>
      { memory := (t.call.finish P s.memory counted).1, threads := s.setPhase i t .finished }
    | .finished => s

end QuotaSystem

end Plico.Layered
