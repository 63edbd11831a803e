import Plico.Model.Memory.Content

/-!
# Records of the canonical ledger (memory/ledger/model.rs)

The ledger is three logs (revisions, policies, relations), stored as linked segments, and a chain of
roots, each naming the heads of the logs and the current view of that generation. `LedgerPlatform`
adds the JSON codecs of the stored objects to the libraries the program calls.
-/

namespace Plico

abbrev MemoryId := String
abbrev MemoryRevisionId := String
abbrev CanonicalContentHash := String

def personalOwnerRoleId : String := "personal-owner"

def defaultTenant : String := "default"

namespace Ledger

def revisionSchema : String := "plico.memory.revision/v1"
def policySchema : String := "plico.memory.policy/v1"
def relationSchema : String := "plico.memory.relation/v1"
def revisionSegmentSchema : String := "plico.memory.revision-segment/v1"
def policySegmentSchema : String := "plico.memory.policy-segment/v1"
def relationSegmentSchema : String := "plico.memory.relation-segment/v1"
def rootSchema : String := "plico.memory.root/v1"
def currentViewSchema : String := "plico.memory.current-view/v1"
def rootPointerSchema : String := "plico.memory.root-pointer/v1"

structure CanonicalRevision where
  schema : String
  sequence : Nat
  memoryId : MemoryId
  revisionId : MemoryRevisionId
  parentRevisionId : Option MemoryRevisionId
  content : MemoryContent
  contentHash : CanonicalContentHash
  tags : List String
  memoryType : MemoryType
  cognitiveTier : MemoryTier
  deletedAt : Option Nat
  committedAt : Nat
  committedByRole : String
  deriving DecidableEq

inductive PolicyMode where
  | private_
  | explicitRoleSet
  deriving DecidableEq, Repr

structure PolicyRecord where
  schema : String
  sequence : Nat
  policyId : String
  memoryId : MemoryId
  effectiveFromRevisionId : MemoryRevisionId
  originRoleId : String
  mode : PolicyMode
  readerRoles : List String
  writerRoles : List String
  committedAt : Nat
  committedByRole : String
  deriving DecidableEq, Repr

structure RelationRecord where
  schema : String
  sequence : Nat
  relationId : String
  subjectRevisionId : MemoryRevisionId
  predicate : String
  objectRevisionId : MemoryRevisionId
  epistemicState : String
  provenanceManifestId : String
  committedAt : Nat
  committedByRole : String
  deriving DecidableEq, Repr

inductive LogKind where
  | revision
  | policy
  | relation
  deriving DecidableEq, Repr

structure Segment (α : Type) where
  schema : String
  firstSequence : Nat
  lastSequence : Nat
  previousSegmentHash : Option String
  records : List α
  deriving DecidableEq

structure LedgerRoot where
  schema : String
  generation : Nat
  previousRootHash : Option String
  revisionHead : Option String
  revisionWatermark : Nat
  policyHead : Option String
  policyWatermark : Nat
  relationHead : Option String
  relationWatermark : Nat
  currentViewHash : String
  migrationManifestHash : Option String
  committedAt : Nat
  committedByRole : String
  deriving DecidableEq, Repr

structure CurrentStream where
  memoryId : MemoryId
  headRevisionId : MemoryRevisionId
  deleted : Bool
  policyId : String
  deriving DecidableEq, Repr

structure CurrentView where
  schema : String
  generation : Nat
  revisionWatermark : Nat
  policyWatermark : Nat
  relationWatermark : Nat
  streams : List CurrentStream
  deriving DecidableEq, Repr

inductive ExpectedHead where
  | absent
  | revision (id : MemoryRevisionId)
  deriving DecidableEq, Repr

structure LedgerCommit where
  generation : Nat
  revisionSequence : Nat
  revisionId : MemoryRevisionId
  committedAt : Nat
  deriving DecidableEq, Repr

/-- The pointer that names the active root (store.rs). -/
structure ActivePointer where
  schema : String
  rootHash : String
  deriving DecidableEq, Repr

/-- What the storage layer reports as an I/O error (cas/ledger_store.rs). -/
inductive IoError where
  | invalidHash
  | collision
  | notFound
  | tooLarge
  | fault
  deriving DecidableEq, Repr

inductive LedgerError where
  | io (error : IoError)
  | serialization
  | cas (message : String)
  | invalid (category : String)
  | unsupportedPolicy (category : String)
  | headConflict (memoryId : MemoryId) (expected : ExpectedHead) (actual : Option MemoryRevisionId)
  | commitIndeterminate
  | writerPoisoned
  | vaultLocked
  deriving DecidableEq, Repr

/-- The state behind the ledger's lock (store.rs). -/
structure LedgerState where
  poisoned : Bool
  rootHash : Option String
  root : Option LedgerRoot
  view : Option CurrentView
  revisions : List CanonicalRevision
  policies : List PolicyRecord
  relations : List RelationRecord
  deriving DecidableEq

end Ledger

end Plico
