import Plico.Framework.JsonText
import Plico.Model.Api.Public
import Plico.Model.Fs.Search
import Plico.Model.Memory.Json

/-!
# Public responses (api/public/output.rs)

A response carries either data or an error. Data without a text of their own, such as the readiness and the
projection's answers, are given by the tree that is written for them. Numbers of 64 bits are kept as naturals and
written modulo `2 ^ 64`; the digits of an `f32` are the library's.
-/

namespace Plico.Api

open Plico.Fs

/-- What is written for a result. -/
abbrev Answer := Output F32

/-! ## Errors -/

inductive PublicErrorCode where
  | invalidArgument
  | unauthenticated
  | permissionDenied
  | notFound
  | conflict
  | limitExceeded
  | busy
  | providerUnavailable
  | dependencyUnavailable
  | unsupportedCapability
  | internal
  deriving DecidableEq, Repr

def PublicErrorCode.name : PublicErrorCode → String
  | .invalidArgument => "INVALID_ARGUMENT"
  | .unauthenticated => "UNAUTHENTICATED"
  | .permissionDenied => "PERMISSION_DENIED"
  | .notFound => "NOT_FOUND"
  | .conflict => "CONFLICT"
  | .limitExceeded => "LIMIT_EXCEEDED"
  | .busy => "BUSY"
  | .providerUnavailable => "PROVIDER_UNAVAILABLE"
  | .dependencyUnavailable => "DEPENDENCY_UNAVAILABLE"
  | .unsupportedCapability => "UNSUPPORTED_CAPABILITY"
  | .internal => "INTERNAL"

/-- The details are an object with the category. -/
structure PublicError where
  code : PublicErrorCode
  message : String
  retryable : Bool
  category : String
  deriving DecidableEq, Repr

/-! ## Results -/

structure ObjectView where
  cid : String
  contentBase64 : String
  contentType : String
  tags : List String
  createdAt : Nat
  deriving DecidableEq

structure ObjectSearchHit where
  cid : String
  score : F32
  snippet : String
  tags : List String
  contentType : String
  createdAt : Nat
  deriving DecidableEq

structure ObjectSearchResult where
  hits : List ObjectSearchHit
  retrieval : List SearchPathExecution
  embeddingQuery : EmbeddingQueryState
  deriving DecidableEq

structure MemoryEntryView where
  entryId : Uuid
  content : String
  tags : List String
  createdAt : Nat
  deriving DecidableEq

structure MemoryRecallHit where
  entry : MemoryEntryView
  score : F32
  deriving DecidableEq

structure SessionChangeView where
  seq : Nat
  changeType : String
  objectId : String
  changedAtMs : Nat
  deriving DecidableEq

structure SessionStartResult where
  sessionId : Uuid
  watermark : Nat
  changes : List SessionChangeView
  deriving DecidableEq

/-- The data of a response. Every commit state is `canonical`, and every memory is matched by lexical overlap. -/
inductive PublicData where
  | capabilitiesDescribe
  | runtimeReadiness (view : Answer)
  | objectPut (cid : String)
  | objectGet (view : ObjectView)
  | objectSearch (result : ObjectSearchResult)
  | memoryCreate (entry : MemoryEntryView)
  | memoryGet (entry : MemoryEntryView)
  | memoryRecall (hits : List MemoryRecallHit)
  | memoryUpdate (previousEntryId : Uuid) (entry : MemoryEntryView)
  | memoryDelete (entryId : Uuid) (deletedAt : Nat)
  | projectionStatus (result : Answer)
  | projectionRebuild (result : Answer)
  | sessionStart (result : SessionStartResult)
  | sessionEnd (sessionId : Uuid) (lastSeq : Nat)

def PublicData.operation : PublicData → String
  | .capabilitiesDescribe => "capabilities.describe"
  | .runtimeReadiness _ => "runtime.readiness"
  | .objectPut _ => "object.put"
  | .objectGet _ => "object.get"
  | .objectSearch _ => "object.search"
  | .memoryCreate _ => "memory.create"
  | .memoryGet _ => "memory.get"
  | .memoryRecall _ => "memory.recall"
  | .memoryUpdate .. => "memory.update"
  | .memoryDelete .. => "memory.delete"
  | .projectionStatus _ => "projection.status"
  | .projectionRebuild _ => "projection.rebuild"
  | .sessionStart _ => "session.start"
  | .sessionEnd .. => "session.end"

/-! ## Responses -/

structure PublicResponse where
  protocol : String
  requestId : Uuid
  ok : Bool
  data : Option PublicData
  error : Option PublicError

namespace PublicResponse

def success (requestId : Uuid) (data : PublicData) : PublicResponse :=
  ⟨personalProtocol, requestId, true, some data, none⟩

def failure (requestId : Uuid) (error : PublicError) : PublicResponse :=
  ⟨personalProtocol, requestId, false, none, some error⟩

def validate (response : PublicResponse) : Except String Unit := do
  validateEnvelope response.protocol response.requestId
  match response.ok, response.data.isSome, response.error.isSome with
  | true, true, false | false, false, true => .ok ()
  | _, _, _ => .error "response must contain exactly one of data or error matching ok"

def validateFor (response : PublicResponse) (request : PublicRequest) : Except String Unit := do
  response.validate
  refuse (response.requestId ≠ request.requestId) "response request_id does not match request"
  refuse ((response.data.any fun data => data.operation ≠ request.command.operation) = true)
    "response operation does not match request operation"

end PublicResponse

/-! ## What is written -/

/-- A `u64`. -/
def number (n : Nat) : Answer := .nat (UInt64.ofNat n)

def uuid (id : Uuid) : Answer := .string (uuidText id)

def strings (l : List String) : Answer := .array (l.map .string)

/-- An optional field is left out when it is `None`. -/
def optional {α : Type} (name : String) (value : α → Answer) (field : Option α) : List (String × Answer) :=
  field.toList.map fun a => (name, value a)

def commit : String × Answer := ("commit", .string "canonical")

/-- `CapabilityCatalog::default`. -/
def capabilityCatalog : Answer :=
  .object
    [("protocol", .string personalProtocol),
      ("operations", strings publicOperations),
      ("limits", .object
        [("max_text_bytes", number maxTextBytes), ("max_object_bytes", number maxObjectBytes),
          ("max_query_bytes", number maxQueryBytes), ("max_tags", number maxTags),
          ("max_tag_bytes", number maxTagBytes), ("max_results", number maxLimit)]),
      ("projections", .object
        [("memory_embedding", .object
          [("control_plane", .string "supported"), ("retrieval", .string "unsupported")]),
          ("memory_vector_recall", .string "unsupported"), ("memory_hybrid_recall", .string "unsupported")]),
      ("consistency", strings
        ["object CID reads are content-verified",
          "memory writes acknowledge canonical persistence before projection work",
          "memory lexical recall is immediately visible after commit"]),
      ("unsupported", strings
        ["memory BM25 or hybrid recall", "thermal or deep recall", "evidence projection",
          "human document projection", "session checkpoint"])]

def ObjectView.toAnswer (view : ObjectView) : Answer :=
  .object
    [("cid", .string view.cid), ("content_base64", .string view.contentBase64),
      ("content_type", .string view.contentType), ("tags", strings view.tags), ("created_at", number view.createdAt)]

def ObjectSearchHit.toAnswer (hit : ObjectSearchHit) : Answer :=
  .object
    [("cid", .string hit.cid), ("score", .real hit.score), ("snippet", .string hit.snippet), ("tags", strings hit.tags),
      ("content_type", .string hit.contentType), ("created_at", number hit.createdAt)]

/-- `RetrievalPath`. -/
def pathName : SearchPath → String
  | .bm25 => "bm25"
  | .vector => "vector"
  | .tagFallback => "tag_fallback"
  | .knowledgeGraphTemporal => "knowledge_graph_temporal"
  | .knowledgeGraphPpr => "knowledge_graph_ppr"
  | .knowledgeGraphPathDiscovery => "knowledge_graph_path_discovery"
  | .knowledgeGraphCausal => "knowledge_graph_causal"
  | .reranker => "reranker"

/-- `RetrievalExecution`. -/
def retrievalAnswer (execution : SearchPathExecution) : Answer :=
  .object
    ([("path", .string (pathName execution.path)), ("candidates", number execution.candidates),
      ("accepted", number execution.accepted)] ++
      if execution.failed then [("degradation", .string "execution_failed")] else [])

def degradationName : EmbeddingDegradation → String
  | .providerUnavailable => "provider_unavailable"
  | .modelUnavailable => "model_unavailable"
  | .inputRejected => "input_rejected"
  | .executionFailed => "execution_failed"

/-- `EmbeddingQueryView`. -/
def embeddingQueryAnswer : EmbeddingQueryState → Answer
  | .notProbed _ => .object [("state", .string "not_probed")]
  | .succeeded _ => .object [("state", .string "succeeded")]
  | .degraded _ reason => .object [("state", .string "degraded"), ("degradation", .string (degradationName reason))]

def ObjectSearchResult.toAnswer (result : ObjectSearchResult) : Answer :=
  .object
    [("hits", .array (result.hits.map ObjectSearchHit.toAnswer)),
      ("retrieval", .array (result.retrieval.map retrievalAnswer)),
      ("embedding_query", embeddingQueryAnswer result.embeddingQuery)]

def MemoryEntryView.toAnswer (entry : MemoryEntryView) : Answer :=
  .object
    [("entry_id", uuid entry.entryId), ("content", .string entry.content), ("tags", strings entry.tags),
      ("created_at", number entry.createdAt)]

def MemoryRecallHit.toAnswer (hit : MemoryRecallHit) : Answer :=
  .object
    [("entry", hit.entry.toAnswer), ("score", .real hit.score), ("matched_by", .string "lexical_overlap")]

def SessionChangeView.toAnswer (change : SessionChangeView) : Answer :=
  .object
    [("seq", number change.seq), ("change_type", .string change.changeType), ("object_id", .string change.objectId),
      ("changed_at_ms", number change.changedAtMs)]

def SessionStartResult.toAnswer (result : SessionStartResult) : Answer :=
  .object
    [("session_id", uuid result.sessionId), ("watermark", number result.watermark),
      ("changes", .array (result.changes.map SessionChangeView.toAnswer))]

/-- The `result` of the adjacently tagged data. -/
def PublicData.result : PublicData → Answer
  | .capabilitiesDescribe => capabilityCatalog
  | .runtimeReadiness view => view
  | .objectPut cid => .object [("cid", .string cid), commit]
  | .objectGet view => view.toAnswer
  | .objectSearch result => result.toAnswer
  | .memoryCreate entry => .object [("entry", entry.toAnswer), commit]
  | .memoryGet entry => entry.toAnswer
  | .memoryRecall hits => .object [("hits", .array (hits.map MemoryRecallHit.toAnswer))]
  | .memoryUpdate previousEntryId entry =>
    .object [("previous_entry_id", uuid previousEntryId), ("entry", entry.toAnswer), commit]
  | .memoryDelete entryId deletedAt => .object [("entry_id", uuid entryId), ("deleted_at", number deletedAt), commit]
  | .projectionStatus result => result
  | .projectionRebuild result => result
  | .sessionStart result => result.toAnswer
  | .sessionEnd sessionId lastSeq => .object [("session_id", uuid sessionId), ("last_seq", number lastSeq)]

def PublicData.toAnswer (data : PublicData) : Answer :=
  .object [("operation", .string data.operation), ("result", data.result)]

def PublicError.toAnswer (error : PublicError) : Answer :=
  .object
    [("code", .string error.code.name), ("message", .string error.message), ("retryable", .bool error.retryable),
      ("details", .object [("category", .string error.category)])]

def PublicResponse.toAnswer (response : PublicResponse) : Answer :=
  .object
    ([("protocol", .string response.protocol), ("request_id", uuid response.requestId), ("ok", .bool response.ok)] ++
      optional "data" PublicData.toAnswer response.data ++ optional "error" PublicError.toAnswer response.error)

/-- `serde_json::to_vec`. -/
def PublicResponse.text (f32Text : F32 → Bytes) (response : PublicResponse) : Bytes :=
  response.toAnswer.text f32Text

end Plico.Api
