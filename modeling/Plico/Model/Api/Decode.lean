import Plico.Model.Api.Public

/-!
# Decoding a request (the derived deserializers of api/public/input.rs)

A frame is decoded twice, as a `PublicRequestHead` and as a `PublicRequest`, from the same JSON tree. A derived
structure takes an object without unknown or repeated fields, or an array with its fields in order. `PublicRequest`
flattens its command: it takes objects only, its own fields are read in place and the other ones are given to the
command, which takes `operation` and `input` and leaves none.
-/

namespace Plico.Api

open Value

/-! ## Derived structures -/

/-- The fields of a derived structure that denies unknown fields: what each name stands for, if it is there. -/
def structFields (names : List String) : Value → Option (String → Option Value)
  | .object fields =>
    if (∀ field ∈ fields, field.1 ∈ names) ∧ (fields.map Prod.fst).Nodup then some fun name => fields.lookup name
    else none
  | .array values => if values.length ≤ names.length then some fun name => values[names.idxOf name]? else none
  | _ => none

/-- A field of type `Option<T>` that may be missing. -/
def optionField {α : Type} (decode : Value → Option α) : Option Value → Option (Option α)
  | none | some .null => some none
  | some value => (decode value).map some

/-- A field with a default. -/
def defaultField {α : Type} (default : α) (decode : Value → Option α) : Option Value → Option α
  | none => some default
  | some value => decode value

variable (P : ApiPlatform) (value : Value)

def decodeStrings : Option (List String) := do
  let values ← value.asArray
  values.mapM asStr

/-- A variant without data: its name, or an object with the name and `null`. -/
def unitVariant {α : Type} (variants : List (String × α)) : Value → Option α
  | .string name => variants.lookup name
  | .object [(name, .null)] => variants.lookup name
  | _ => none

section

def decodeUuid : Option Uuid := do
  let text ← value.asStr
  P.parseUuid text

def decodeAuth : Option PublicAuth := do
  let field ← structFields ["bearer"] value
  let bearer ← (field "bearer").bind asStr
  pure ⟨bearer⟩

/-! ## The head -/

def decodeHead : Option PublicRequestHead := do
  let field ← structFields ["protocol", "request_id", "auth", "operation", "input"] value
  let protocol ← (field "protocol").bind asStr
  let requestId ← (field "request_id").bind (decodeUuid P)
  let auth ← optionField decodeAuth (field "auth")
  let operation ← (field "operation").bind asStr
  pure ⟨protocol, requestId, auth, operation⟩

/-! ## Inputs -/

def decodeEncoding : Option ObjectEncoding :=
  unitVariant [("utf8", .utf8), ("base64", .base64)] value

def decodeKind : Option ProjectionKindInput :=
  unitVariant [("memory_embedding", .memoryEmbedding)] value

def decodeEmpty : Option Unit := do
  let _ ← structFields [] value
  pure ()

def decodeObjectPut : Option ObjectPutInput := do
  let field ← structFields ["content", "encoding", "tags"] value
  let content ← (field "content").bind asStr
  let encoding ← defaultField .utf8 decodeEncoding (field "encoding")
  let tags ← defaultField [] decodeStrings (field "tags")
  pure ⟨content, encoding, tags⟩

def decodeObjectGet : Option String := do
  let field ← structFields ["cid"] value
  (field "cid").bind asStr

def decodeObjectSearch : Option ObjectSearchInput := do
  let field ← structFields ["query", "limit", "require_tags", "exclude_tags"] value
  let query ← (field "query").bind asStr
  let limit ← defaultField defaultLimit asU64 (field "limit")
  let requireTags ← defaultField [] decodeStrings (field "require_tags")
  let excludeTags ← defaultField [] decodeStrings (field "exclude_tags")
  pure ⟨query, limit, requireTags, excludeTags⟩

def decodeMemoryCreate : Option MemoryCreateInput := do
  let field ← structFields ["content", "tags"] value
  let content ← (field "content").bind asStr
  let tags ← defaultField [] decodeStrings (field "tags")
  pure ⟨content, tags⟩

/-- A structure with one id. -/
def decodeId (name : String) (value : Value) : Option Uuid := do
  let field ← structFields [name] value
  (field name).bind (decodeUuid P)

def decodeMemoryRecall : Option MemoryRecallInput := do
  let field ← structFields ["query", "limit"] value
  let query ← (field "query").bind asStr
  let limit ← defaultField defaultLimit asU64 (field "limit")
  pure ⟨query, limit⟩

def decodeMemoryUpdate : Option MemoryUpdateInput := do
  let field ← structFields ["entry_id", "content"] value
  let entryId ← (field "entry_id").bind (decodeUuid P)
  let content ← (field "content").bind asStr
  pure ⟨entryId, content⟩

def decodeProjectionStatus : Option (ProjectionKindInput × Uuid) := do
  let field ← structFields ["kind", "revision_id"] value
  let kind ← (field "kind").bind decodeKind
  let revisionId ← (field "revision_id").bind (decodeUuid P)
  pure (kind, revisionId)

/-- The variant that the `type` tag names, from the rest of the value. The variant without data ignores the rest. -/
def decodeSelectorVariant (tag rest : Value) : Option ProjectionRebuildSelectorInput := do
  match ← tag.asStr with
  | "current_revision" => (decodeId P "revision_id" rest).map .currentRevision
  | "all_eligible" => some .allEligible
  | _ => none

/-- An internally tagged enumeration: the tag is a field, or the first element. -/
def decodeSelector : Value → Option ProjectionRebuildSelectorInput
  | .object fields =>
    match fields.partition fun field => field.1 = "type" with
    | ([(_, tag)], rest) => decodeSelectorVariant P tag (.object rest)
    | _ => none
  | .array (tag :: rest) => decodeSelectorVariant P tag (.array rest)
  | _ => none

def decodeProjectionRebuild : Option (ProjectionKindInput × ProjectionRebuildSelectorInput) := do
  let field ← structFields ["kind", "selector"] value
  let kind ← (field "kind").bind decodeKind
  let selector ← (field "selector").bind (decodeSelector P)
  pure (kind, selector)

def decodeSessionStart : Option (Option Nat) := do
  let field ← structFields ["last_seen_seq"] value
  optionField asU64 (field "last_seen_seq")

/-! ## Commands -/

/-- The variants of `PublicCommand` in the order of their declaration, each with the decoder of its input. -/
def commandVariants : List (String × (Value → Option PublicCommand)) :=
  [("capabilities.describe", fun value => (decodeEmpty value).map fun _ => .capabilitiesDescribe),
    ("runtime.readiness", fun value => (decodeEmpty value).map fun _ => .runtimeReadiness),
    ("object.put", fun value => (decodeObjectPut value).map .objectPut),
    ("object.get", fun value => (decodeObjectGet value).map .objectGet),
    ("object.search", fun value => (decodeObjectSearch value).map .objectSearch),
    ("memory.create", fun value => (decodeMemoryCreate value).map .memoryCreate),
    ("memory.get", fun value => (decodeId P "entry_id" value).map .memoryGet),
    ("memory.recall", fun value => (decodeMemoryRecall value).map .memoryRecall),
    ("memory.update", fun value => (decodeMemoryUpdate P value).map .memoryUpdate),
    ("memory.delete", fun value => (decodeId P "entry_id" value).map .memoryDelete),
    ("projection.status", fun value => (decodeProjectionStatus P value).map fun input =>
      .projectionStatus input.1 input.2),
    ("projection.rebuild", fun value => (decodeProjectionRebuild P value).map fun input =>
      .projectionRebuild input.1 input.2),
    ("session.start", fun value => (decodeSessionStart value).map .sessionStart),
    ("session.end", fun value => (decodeId P "session_id" value).map .sessionEnd)]

/-- The variant that a tag names: by its name, or by its number. -/
def commandVariant : Value → Option (String × (Value → Option PublicCommand))
  | .string name => (commandVariants P).find? fun variant => variant.1 = name
  | .number (.posInt n) => (commandVariants P)[n.toNat]?
  | _ => none

/-- The adjacently tagged command, from the fields that the request leaves to it. -/
def decodeCommand (fields : List (String × Value)) : Option PublicCommand := do
  let field ← structFields ["operation", "input"] (.object fields)
  let variant ← (field "operation").bind (commandVariant P)
  let input ← field "input"
  variant.2 input

/-! ## Requests -/

def requestFields : List String := ["protocol", "request_id", "auth"]

def decodeRequest : Value → Option PublicRequest
  | .object fields => do
    let field ← structFields requestFields (.object (fields.filter fun field => field.1 ∈ requestFields))
    let protocol ← (field "protocol").bind asStr
    let requestId ← (field "request_id").bind (decodeUuid P)
    let auth ← optionField decodeAuth (field "auth")
    let command ← decodeCommand P (fields.filter fun field => field.1 ∉ requestFields)
    pure ⟨protocol, requestId, auth, command⟩
  | _ => none

end

end Plico.Api
