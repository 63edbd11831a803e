import Plico.Model.Ledger.Types

/-!
# Public requests (api/public/mod.rs, api/public/input.rs)

The commands of `plico.personal.v2` with their inputs and the limits that `validate` checks. Lengths are those of the
UTF-8 text. `Base64` is the standard alphabet's decoder.
-/

namespace Plico.Api

def personalProtocol : String := "plico.personal.v2"

def publicOperations : List String :=
  ["capabilities.describe", "runtime.readiness", "object.put", "object.get", "object.search", "memory.create",
    "memory.get", "memory.recall", "projection.status", "projection.rebuild", "memory.update", "memory.delete",
    "session.start", "session.end"]

def maxTextBytes : Nat := 256 * 1024
def maxObjectBytes : Nat := 10 * 1024 * 1024
def maxQueryBytes : Nat := 8 * 1024
def maxAuthBytes : Nat := 4 * 1024
def maxTags : Nat := 32
def maxTagBytes : Nat := 64
def defaultLimit : Nat := 20
def maxLimit : Nat := 100

/-- `str::len`. -/
def byteLength (s : String) : Nat := (utf8 s).length

/-! ## Inputs -/

structure PublicAuth where
  bearer : String
  deriving DecidableEq, Repr

inductive ObjectEncoding where
  | utf8
  | base64
  deriving DecidableEq, Repr

structure ObjectPutInput where
  content : String
  encoding : ObjectEncoding
  tags : List String
  deriving DecidableEq, Repr

structure ObjectSearchInput where
  query : String
  limit : Nat
  requireTags : List String
  excludeTags : List String
  deriving DecidableEq, Repr

structure MemoryCreateInput where
  content : String
  tags : List String
  deriving DecidableEq, Repr

structure MemoryRecallInput where
  query : String
  limit : Nat
  deriving DecidableEq, Repr

structure MemoryUpdateInput where
  entryId : Uuid
  content : String
  deriving DecidableEq, Repr

inductive ProjectionKindInput where
  | memoryEmbedding
  deriving DecidableEq, Repr

inductive ProjectionRebuildSelectorInput where
  | currentRevision (revisionId : Uuid)
  | allEligible
  deriving DecidableEq, Repr

inductive PublicCommand where
  | capabilitiesDescribe
  | runtimeReadiness
  | objectPut (input : ObjectPutInput)
  | objectGet (cid : String)
  | objectSearch (input : ObjectSearchInput)
  | memoryCreate (input : MemoryCreateInput)
  | memoryGet (entryId : Uuid)
  | memoryRecall (input : MemoryRecallInput)
  | memoryUpdate (input : MemoryUpdateInput)
  | memoryDelete (entryId : Uuid)
  | projectionStatus (kind : ProjectionKindInput) (revisionId : Uuid)
  | projectionRebuild (kind : ProjectionKindInput) (selector : ProjectionRebuildSelectorInput)
  | sessionStart (lastSeenSeq : Option Nat)
  | sessionEnd (sessionId : Uuid)
  deriving DecidableEq, Repr

def PublicCommand.operation : PublicCommand → String
  | .capabilitiesDescribe => "capabilities.describe"
  | .runtimeReadiness => "runtime.readiness"
  | .objectPut _ => "object.put"
  | .objectGet _ => "object.get"
  | .objectSearch _ => "object.search"
  | .memoryCreate _ => "memory.create"
  | .memoryGet _ => "memory.get"
  | .memoryRecall _ => "memory.recall"
  | .memoryUpdate _ => "memory.update"
  | .memoryDelete _ => "memory.delete"
  | .projectionStatus .. => "projection.status"
  | .projectionRebuild .. => "projection.rebuild"
  | .sessionStart _ => "session.start"
  | .sessionEnd _ => "session.end"

structure PublicRequest where
  protocol : String
  requestId : Uuid
  auth : Option PublicAuth
  command : PublicCommand
  deriving DecidableEq, Repr

/-! ## Validation -/

/-- The decoders that the program calls. `parseJson` keeps the fields of an object in the order of the text, with
repetitions. -/
structure ApiPlatform where
  parseJson : Bytes → Option Value
  parseUuid : String → Option Uuid
  base64Decode : String → Option Bytes

def validateNonEmptyBounded (value : String) (maximum : Nat) (field : String) : Except String Unit :=
  refuse (byteLength value = 0 ∨ byteLength value > maximum)
    (field ++ " must contain 1..=" ++ toString maximum ++ " UTF-8 bytes")

def validateTags (tags : List String) : Except String Unit := do
  refuse (tags.length > maxTags) ("tags must contain at most " ++ toString maxTags ++ " items")
  checkAll (validateNonEmptyBounded · maxTagBytes "tag") tags

def validateLimit (limit : Nat) : Except String Unit :=
  refuse (¬ (1 ≤ limit ∧ limit ≤ maxLimit)) ("limit must be in 1..=" ++ toString maxLimit)

def validateUuid (value : Uuid) (field : String) : Except String Unit :=
  refuse (value = 0) (field ++ " must not be a nil UUID")

/-- `is_ascii_digit() || (b'a'..=b'f').contains(&byte)`. -/
def isLowerHexByte (b : UInt8) : Bool :=
  (48 ≤ b && b ≤ 57) || (97 ≤ b && b ≤ 102)

def validateCid (value : String) : Except String Unit :=
  refuse (byteLength value ≠ 64 ∨ (utf8 value).all isLowerHexByte = false)
    "cid must be a 64-character lowercase SHA-256 hex value"

section

variable (P : ApiPlatform)

def ObjectPutInput.validate (input : ObjectPutInput) : Except String Unit := do
  match input.encoding with
  | .utf8 => validateNonEmptyBounded input.content maxObjectBytes "content"
  | .base64 => do
    let decoded ← required (P.base64Decode input.content) "content must be valid standard base64"
    refuse (decoded = [] ∨ decoded.length > maxObjectBytes)
      ("decoded content must contain 1..=" ++ toString maxObjectBytes ++ " bytes")
  validateTags input.tags

def ObjectSearchInput.validate (input : ObjectSearchInput) : Except String Unit := do
  validateNonEmptyBounded input.query maxQueryBytes "query"
  validateLimit input.limit
  validateTags input.requireTags
  validateTags input.excludeTags

def MemoryCreateInput.validate (input : MemoryCreateInput) : Except String Unit := do
  validateNonEmptyBounded input.content maxTextBytes "content"
  validateTags input.tags

def MemoryRecallInput.validate (input : MemoryRecallInput) : Except String Unit := do
  validateNonEmptyBounded input.query maxQueryBytes "query"
  validateLimit input.limit

def MemoryUpdateInput.validate (input : MemoryUpdateInput) : Except String Unit := do
  validateUuid input.entryId "entry_id"
  validateNonEmptyBounded input.content maxTextBytes "content"

def ProjectionRebuildSelectorInput.validate : ProjectionRebuildSelectorInput → Except String Unit
  | .currentRevision revisionId => validateUuid revisionId "selector.revision_id"
  | .allEligible => .ok ()

def PublicCommand.validate : PublicCommand → Except String Unit
  | .capabilitiesDescribe | .runtimeReadiness | .sessionStart _ => .ok ()
  | .objectPut input => input.validate P
  | .objectGet cid => validateCid cid
  | .objectSearch input => input.validate
  | .memoryCreate input => input.validate
  | .memoryGet entryId | .memoryDelete entryId => validateUuid entryId "entry_id"
  | .memoryRecall input => input.validate
  | .memoryUpdate input => input.validate
  | .projectionStatus _ revisionId => validateUuid revisionId "revision_id"
  | .projectionRebuild _ selector => selector.validate
  | .sessionEnd sessionId => validateUuid sessionId "session_id"

/-- The checks of the protocol, the id and the credential, which the head of a request has as well. -/
def validateEnvelope (protocol : String) (requestId : Uuid) : Except String Unit := do
  refuse (protocol ≠ personalProtocol) ("protocol must be exactly '" ++ personalProtocol ++ "'")
  validateUuid requestId "request_id"

def validateAuth : Option PublicAuth → Except String Unit
  | some auth => validateNonEmptyBounded auth.bearer maxAuthBytes "auth.bearer"
  | none => .ok ()

def PublicRequest.validate (request : PublicRequest) : Except String Unit := do
  validateEnvelope request.protocol request.requestId
  validateAuth request.auth
  request.command.validate P

end

/-! ## The head of a request -/

/-- `PublicRequestHead`, without the input that nothing reads. -/
structure PublicRequestHead where
  protocol : String
  requestId : Uuid
  auth : Option PublicAuth
  operation : String
  deriving DecidableEq, Repr

namespace PublicRequestHead

def validateMetadata (head : PublicRequestHead) : Except String Unit := do
  validateEnvelope head.protocol head.requestId
  validateNonEmptyBounded head.operation 128 "operation"
  validateAuth head.auth

def operationSupported (head : PublicRequestHead) : Bool :=
  publicOperations.contains head.operation

end PublicRequestHead

/-! ## Who sends a request -/

inductive PublicTransport where
  | tcp
  | uds
  | embedded
  | mcp
  deriving DecidableEq, Repr

inductive PublicAccess where
  | localOwner
  | authenticatedRole (roleId : String)
  deriving DecidableEq, Repr

structure PublicRequestContext where
  access : PublicAccess
  transport : PublicTransport
  deriving DecidableEq, Repr

namespace PublicRequestContext

def localOwner (transport : PublicTransport) : PublicRequestContext :=
  ⟨.localOwner, transport⟩

def authenticatedRole (roleId : String) (transport : PublicTransport) : PublicRequestContext :=
  ⟨if roleId = personalOwnerRoleId then .localOwner else .authenticatedRole roleId, transport⟩

def roleId (context : PublicRequestContext) : String :=
  match context.access with
  | .localOwner => personalOwnerRoleId
  | .authenticatedRole roleId => roleId

end PublicRequestContext

end Plico.Api
