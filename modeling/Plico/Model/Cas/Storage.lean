import Mathlib.Data.List.AList
import Plico.Model.Memory.Content

/-!
# Content-addressed objects (cas/object.rs, cas/storage.rs)

An object is filed under the hash of its bytes; its metadata is stored next to them and is not hashed. The
storage is the map from a CID to the object that its file holds. The access log, which no answer of the
storage depends on, is left out.
-/

namespace Plico.Cas

inductive ObjectScope where
  | private_
  | shared
  deriving DecidableEq, Repr

inductive ContentType where
  | text
  | image
  | audio
  | video
  | structured
  | binary
  | unknown
  deriving DecidableEq, Repr

/-- The `Display` text; the lower-case `Debug` text is the same. -/
def ContentType.display : ContentType → String
  | .text => "text"
  | .image => "image"
  | .audio => "audio"
  | .video => "video"
  | .structured => "structured"
  | .binary => "binary"
  | .unknown => "unknown"

def ContentType.isMultimedia : ContentType → Bool
  | .image | .audio | .video => true
  | .text | .structured | .binary | .unknown => false

def defaultTenant : String := "default"

structure AIObjectMeta where
  contentType : ContentType
  tags : List String
  createdBy : String
  createdAt : Nat
  intent : Option String
  tenantId : String
  scope : ObjectScope
  deriving DecidableEq, Repr

structure AIObject where
  cid : String
  data : Bytes
  meta_ : AIObjectMeta
  deriving DecidableEq, Repr

namespace AIObject

def new (sha256 : Bytes → String) (data : Bytes) (meta_ : AIObjectMeta) : AIObject :=
  ⟨sha256 data, data, meta_⟩

def verifyIntegrity (sha256 : Bytes → String) (obj : AIObject) : Bool :=
  obj.cid == sha256 obj.data

end AIObject

inductive CASError where
  | notFound (cid : String)
  | integrityFailed (cid : String)
  | putRefused (cid : String)
  | invalidCid (cid : String)
  deriving DecidableEq, Repr

def CASError.display : CASError → String
  | .notFound cid => "Object not found: CID=" ++ cid
  | .integrityFailed cid => "Integrity check failed for CID=" ++ cid
  | .putRefused cid => "Object integrity check failed for CID=" ++ cid
  | .invalidCid cid => "Invalid CID format: '" ++ cid ++ "' — must be at least 2 hex characters"

/-- `char::is_ascii_hexdigit`. -/
def isAsciiHexdigit (c : Char) : Bool :=
  ('0' ≤ c && c ≤ '9') || ('a' ≤ c && c ≤ 'f') || ('A' ≤ c && c ≤ 'F')

def validateCid (cid : String) : Except CASError Unit := do
  refuse ((utf8 cid).length < 2) (.invalidCid cid)
  refuse (cid.toList.all isAsciiHexdigit = false) (.invalidCid cid)

abbrev CASStorage := AList (fun _ : String => AIObject)

namespace CASStorage

variable (sha256 : Bytes → String)

/-- Store an object. A CID that is taken keeps the object it has. -/
def put (cas : CASStorage) (obj : AIObject) : Except CASError (CASStorage × String) := do
  refuse (obj.verifyIntegrity sha256 = false) (.putRefused obj.cid)
  validateCid obj.cid
  match cas.lookup obj.cid with
  | some _ => pure (cas, obj.cid)
  | none => pure (cas.insert obj.cid obj, obj.cid)

def getRaw (cas : CASStorage) (cid : String) : Except CASError AIObject := do
  validateCid cid
  let obj ← required (cas.lookup cid) (.notFound cid)
  refuse (obj.cid ≠ cid ∨ obj.verifyIntegrity sha256 = false) (.integrityFailed cid)
  pure obj

/-- `get` is `get_raw` followed by an entry in the access log. -/
def get (cas : CASStorage) (cid : String) : Except CASError AIObject :=
  cas.getRaw sha256 cid

end CASStorage

end Plico.Cas
