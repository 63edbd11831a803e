import Plico.Framework.ObjectStore
import Plico.Model.Ledger.MigrationManifest

/-!
# Ledger storage and object hashes (cas/ledger_store.rs, memory/ledger/hash.rs)

Ledger objects live in a write-once store under the hash of a domain and their canonical JSON, and
one pointer names the active root. `LedgerPlatform` adds the codecs of the stored types to the
libraries the program calls.
-/

namespace Plico.Ledger

structure LedgerPlatform extends Platform where
  revisionSegment : Serde (Segment CanonicalRevision)
  policySegment : Serde (Segment PolicyRecord)
  relationSegment : Serde (Segment RelationRecord)
  root : Serde LedgerRoot
  view : Serde CurrentView
  pointer : Serde ActivePointer
  sourceManifest : Serde SourceManifest
  migrationManifest : Serde MigrationManifest

/-- `ImmutableLedgerStorage`. -/
abbrev LedgerStorage := ObjectStore String Bytes

def IoError.ofStore : StoreError → IoError
  | .collision => .collision
  | .missing => .notFound
  | .failed => .fault

def validateHash (hash : String) : Except IoError Unit :=
  refuse (isLowerHash hash = false) .invalidHash

def putImmutable (st : LedgerStorage) (hash : String) (bytes : Bytes) (fault : PutFault) :
    LedgerStorage × Except IoError Unit :=
  match validateHash hash with
  | .error e => (st, .error e)
  | .ok _ => ((st.put hash bytes fault).1, (st.put hash bytes fault).2.mapError .ofStore)

def getImmutable (st : LedgerStorage) (hash : String) : Except IoError Bytes := do
  validateHash hash
  (st.get hash).mapError .ofStore

/-- The bytes of the pointer slot; an empty slot is no pointer. -/
def readActive (st : LedgerStorage) : Option Bytes :=
  st.active.filter fun bytes => !bytes.isEmpty

variable (P : LedgerPlatform)

/-! ## Hashes -/

def segmentDomain : String := "plico.memory.segment.v1\x00"
def rootDomain : String := "plico.memory.root.v1\x00"
def viewDomain : String := "plico.memory.current-view.v1\x00"

def domainHash (domain : String) (bytes : Bytes) : String :=
  P.sha256 (utf8 domain ++ bytes)

def canonicalBytesAndHash {α : Type} (domain : String) (codec : Serde α) (value : α) :
    Except LedgerError (Bytes × String) := do
  let bytes ← jcs codec value
  pure (bytes, domainHash P domain bytes)

def verifyHash {α : Type} (domain : String) (codec : Serde α) (value : α) (expected category : String) :
    Except LedgerError Unit := do
  let (_, actual) ← canonicalBytesAndHash P domain codec value
  refuse (actual ≠ expected) (.invalid category)

def verifySegmentHash {α : Type} (codec : Serde (Segment α)) (segment : Segment α) (expected : String) :
    Except LedgerError Unit :=
  verifyHash P segmentDomain codec segment expected "segment_hash_mismatch"

def verifyRootHash (root : LedgerRoot) (expected : String) : Except LedgerError Unit :=
  verifyHash P rootDomain P.root root expected "root_hash_mismatch"

def verifyViewHash (view : CurrentView) (expected : String) : Except LedgerError Unit :=
  verifyHash P viewDomain P.view view expected "current_view_hash_mismatch"

def SourceManifest.verifyHash (m : SourceManifest) (expected : String) : Except LedgerError Unit := do
  m.validate
  Ledger.verifyHash P sourceManifestDomain P.sourceManifest m expected "source_manifest_hash_mismatch"

def MigrationManifest.verifyHash (m : MigrationManifest) (expected : String) : Except LedgerError Unit := do
  m.validateShape P.toPlatform
  Ledger.verifyHash P targetManifestDomain P.migrationManifest m expected "migration_manifest_hash_mismatch"

/-- The object stored under `hash`, decoded, if its bytes are canonical. -/
def readHashedObject {α : Type} (codec : Serde α) (st : LedgerStorage) (hash : String) :
    Except LedgerError α := do
  let bytes ← (getImmutable st hash).mapError .io
  let value ← required (codec.fromSlice bytes) .serialization
  let canonical ← jcs codec value
  refuse (bytes ≠ canonical) (.invalid "non_canonical_object_bytes")
  pure value

end Plico.Ledger
