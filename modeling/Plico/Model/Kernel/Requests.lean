import Plico.Model.Fs.Search
import Plico.Model.Kernel.Objects

/-!
# Requests that read objects, and histories (kernel/handlers/cas.rs, core_ops.rs, memory.rs, intent.rs)

`ReadRequest.handle` is the answer of the kernel to each request through which object data can be read.
`KernelOp` lists everything that can happen to the kernel between two requests.
-/

namespace Plico.Kernel

open Plico.Cas Plico.Fs

/-! ## Responses -/

structure SearchResultDto where
  cid : String
  relevance : F32
  tags : List String
  snippet : String
  contentType : String
  createdAt : Nat
  deriving DecidableEq, Repr

structure DeletedDto where
  cid : String
  deletedAt : Nat
  tags : List String
  deriving DecidableEq, Repr

/-- The text of the `data` field: the text of an object, or a JSON array of CIDs. -/
inductive ResponseData where
  | text (text : String)
  | cids (cids : List String)
  deriving DecidableEq, Repr

structure ApiResponse where
  ok : Bool
  error : Option String
  data : Option ResponseData
  results : Option (List SearchResultDto)
  deleted : Option (List DeletedDto)
  nodes : Option (List Graph.KGNode)
  contextData : Option LoadedContext
  contextAssembly : Option BudgetAllocation

namespace ApiResponse

def accepted : ApiResponse := ⟨true, none, none, none, none, none, none, none⟩

def failed (message : String) : ApiResponse := { accepted with ok := false, error := some message }

end ApiResponse

/-! ## Requests -/

inductive ReadRequest where
  | read (cid agentId : String) (tenantId : Option String)
  | coreGet (id : String) (variant : Option String) (agentId : String)
  | coreList (variant : Option String) (limit offset : Option Nat) (agentId : String)
  | loadContext (cid layer agentId : String)
  | contextAssemble (agentId : String) (cids : List String) (budgetTokens : Nat)
  | listDeleted (agentId : String)
  | history (cid agentId : String)
  | restore (cid agentId : String)

/-- The role that a request is issued as. -/
def ReadRequest.agentId : ReadRequest → String
  | .read _ agentId _ | .coreGet _ _ agentId | .coreList _ _ _ agentId | .loadContext _ _ agentId
  | .contextAssemble agentId _ _ | .listDeleted agentId | .history _ agentId | .restore _ agentId => agentId

/-- What a request finds outside: the readings of the operation, the listing of the storage and the summarizer. -/
structure RequestInputs extends OpInputs where
  cids : List String
  summarizer : Option Summarizer
  toUppercase : String → String

namespace AIKernel

variable (P : FsPlatform)
variable (k : AIKernel)

def handleRead (cid agentId : String) (tenantId : Option String) (now : Nat) : ApiResponse :=
  match k.getObject P cid agentId (tenantId.getD defaultTenant) now with
  | .ok obj => { ApiResponse.accepted with data := some (.text (P.fromUtf8Lossy obj.data)) }
  | .error e => .failed e.message

def handleGetNode (nodeId agentId : String) (now : Nat) : ApiResponse :=
  match k.kgGetNode nodeId agentId defaultTenant now with
  | .ok (some node) => { ApiResponse.accepted with nodes := some [node] }
  | .ok none => .failed ("node not found: " ++ nodeId)
  | .error e => .failed e.message

def handleListNodes (agentId : String) (limit offset : Option Nat) (now : Nat) : ApiResponse :=
  match k.kgListNodes agentId defaultTenant now with
  | .ok nodes =>
    { ApiResponse.accepted with
      nodes := some ((nodes.drop (offset.getD 0)).take (limit.getD nodes.length)) }
  | .error e => .failed e.message

/-- The other variants ask components that hold no object data. -/
def coreGet (id : String) (variant : Option String) (agentId : String) (now : Nat) : ApiResponse :=
  match variant.getD "object" with
  | "object" | "cas" => k.handleRead P id agentId none now
  | "node" | "graph" => k.handleGetNode id agentId now
  | "task" | "event" => .accepted
  | variant => .failed ("Unsupported core_get variant: " ++ variant)

/-- The entry of one CID in the list of objects. -/
def listEntry (cid : String) : Option SearchResultDto :=
  (k.fs.cas.getRaw P.sha256 cid).toOption.map fun obj =>
    { cid
      relevance := 0x3f800000#32
      tags := obj.meta_.tags
      snippet := String.ofList ((P.fromUtf8Lossy obj.data).toList.take 200)
      contentType := obj.meta_.contentType.display
      createdAt := obj.meta_.createdAt }

/-- The part of the listing that a request for the objects asks for. A sum that overflows ends in a panic. -/
def listPage (cids : List String) (limit offset : Option Nat) : Option (List String) :=
  let start := offset.getD 0
  let limit := limit.getD 100
  if start < cids.length then
    if 2 ^ 64 ≤ start + limit then none else some ((cids.drop start).take limit)
  else some []

def coreList (variant : Option String) (limit offset : Option Nat) (agentId : String)
    (cids : List String) (now : Nat) : Option ApiResponse :=
  match variant.getD "object" with
  | "object" | "cas" =>
    (listPage cids limit offset).map fun page =>
      { ApiResponse.accepted with results := some (page.filterMap (k.listEntry P)) }
  | "node" | "graph" => some (k.handleListNodes agentId limit offset now)
  | "agent" | "edge" | "event" => some .accepted
  | variant => some (.failed ("Unsupported core_list variant: " ++ variant))

/-- A request that panics changes nothing and has no response. -/
def handleLoadContext (cid layer agentId : String) (inputs : RequestInputs) : AIKernel × Option ApiResponse :=
  match ContextLayer.parseLayer inputs.toUppercase layer with
  | none => (k, some (.failed ("Invalid layer '" ++ layer ++ "'. Use L0, L1, or L2.")))
  | some layer =>
    match k.contextLoad P inputs.summarizer cid layer agentId inputs.now with
    | .error e => (k, some (.failed e.message))
    | .ok (.error (.notFound message)) => (k, some (.failed message))
    | .ok (.error .panicked) => (k, none)
    | .ok (.ok (k, loaded)) => (k, some { ApiResponse.accepted with contextData := some loaded })

def handleContextAssemble (agentId : String) (cids : List String) (budgetTokens : Nat)
    (inputs : RequestInputs) : AIKernel × Option ApiResponse :=
  match k.contextAssemble P inputs.summarizer cids budgetTokens agentId inputs.now with
  | .error e => (k, some (.failed e.message))
  | .ok (.error (.notFound message)) => (k, some (.failed message))
  | .ok (.error .panicked) => (k, none)
  | .ok (.ok (k, allocation)) => (k, some { ApiResponse.accepted with contextAssembly := some allocation })

def handleListDeleted (agentId : String) : ApiResponse :=
  { ApiResponse.accepted with
    deleted := some ((k.listDeleted agentId).map fun entry =>
      ⟨entry.cid, entry.deletedAt, entry.originalMeta.tags⟩) }

def handleRestore (cid agentId : String) (inputs : OpInputs) : AIKernel × ApiResponse :=
  match k.restoreDeleted P cid agentId inputs with
  | .ok k => (k, .accepted)
  | .error e => (k, .failed e.message)

/-- The kernel after the request, and the response unless the request panicked. -/
def handle (inputs : RequestInputs) : ReadRequest → AIKernel × Option ApiResponse
  | .read cid agentId tenantId => (k, some (k.handleRead P cid agentId tenantId inputs.now))
  | .coreGet id variant agentId => (k, some (k.coreGet P id variant agentId inputs.now))
  | .coreList variant limit offset agentId =>
    (k, k.coreList P variant limit offset agentId inputs.cids inputs.now)
  | .loadContext cid layer agentId => k.handleLoadContext P cid layer agentId inputs
  | .contextAssemble agentId cids budgetTokens => k.handleContextAssemble P agentId cids budgetTokens inputs
  | .listDeleted agentId => (k, some (k.handleListDeleted agentId))
  | .history cid agentId =>
    (k, some { ApiResponse.accepted with data := some (.cids (k.versionHistory cid agentId inputs.now)) })
  | .restore cid agentId =>
    let (k, response) := k.handleRestore P cid agentId inputs.toOpInputs
    (k, some response)

end AIKernel

/-! ## Search for a role -/

/-- `semantic_search_diagnosed`: the role and its namespace are put into the filter. -/
def AIKernel.semanticSearchDiagnosed (P : SearchPlatform) (env : SearchEnv) (k : AIKernel) (query roleId : String)
    (limit : Nat) (requireTags excludeTags : List String) (now mono : Nat) : Except IoError DiagnosedSearch := do
  k.check (.new roleId defaultTenant) .read now
  let filter := { SearchFilter.default with requireTags, excludeTags }
  pure (k.fs.searchVisibleWithDiagnostics P env query limit filter roleId defaultTenant
    (k.permissions.canReadAny roleId now) mono).2

/-! ## Histories -/

/-- What can happen to the kernel. `put` stands for the summaries and checkpoints that other components store. -/
inductive KernelOp where
  | create (content : Bytes) (tags : List String) (agentId : String) (intent : Option String) (scope : ObjectScope)
      (inputs : OpInputs)
  | createWithEmbedding (content : Bytes) (tags : List String) (agentId : String) (intent : Option String)
      (scope : ObjectScope) (now : Nat) (embedding : Embedding)
  | storeObject (data : Bytes) (meta_ : AIObjectMeta) (agentId : String) (now : Nat)
  | put (obj : AIObject)
  | update (cid : String) (newContent : Bytes) (newTags : Option (List String)) (agentId tenantId : String)
      (inputs : OpInputs)
  | delete (cid agentId tenantId : String) (now : Nat)
  | rollback (cid agentId : String) (inputs : OpInputs)
  | processDocument (cid agentId : String) (answer : EmbedOutcome) (chunks : List (String × EmbedOutcome))
  | search (env : SearchEnv) (query : String) (limit : Nat) (filter : SearchFilter) (allowCache : Bool) (mono : Nat)
  | request (req : ReadRequest) (inputs : RequestInputs)
  | flush
  | restart (cids : List String) (embedBatch : List String → Option (List Embedding))
  | permissions (guard : PermissionGuard)
  | graph (knowledgeGraph : Option Graph.PetgraphBackend)

/-- The kernel of a result, or the one before when the operation failed. -/
def kernelOr {ε α : Type} (k : AIKernel) : Except ε (AIKernel × α) → AIKernel
  | .ok (k, _) => k
  | .error _ => k

def KernelOp.apply (P : SearchPlatform) (k : AIKernel) : KernelOp → AIKernel
  | .create content tags agentId intent scope inputs =>
    kernelOr k (k.semanticCreate P.toFsPlatform content tags agentId intent scope inputs)
  | .createWithEmbedding content tags agentId intent scope now embedding =>
    match k.fs.createWithEmbedding P.toFsPlatform content tags agentId intent scope now embedding with
    | .ok (fs, _) => { k with fs }
    | .error _ => k
  | .storeObject data meta_ agentId now => kernelOr k (k.storeObject P.toFsPlatform data meta_ agentId now)
  | .put obj =>
    match k.fs.cas.put P.sha256 obj with
    | .ok (cas, _) => { k with fs := { k.fs with cas } }
    | .error _ => k
  | .update cid newContent newTags agentId tenantId inputs =>
    kernelOr k (k.semanticUpdate P.toFsPlatform cid newContent newTags agentId tenantId inputs)
  | .delete cid agentId tenantId now =>
    match k.semanticDelete P.toFsPlatform cid agentId tenantId now with
    | .ok k => k
    | .error _ => k
  | .rollback cid agentId inputs => kernelOr k (k.rollback P.toFsPlatform cid agentId inputs)
  | .processDocument cid agentId answer chunks =>
    { k with fs := k.fs.processDocument P.toFsPlatform cid agentId answer chunks }
  | .search env query limit filter allowCache mono =>
    { k with fs := (k.fs.searchWithFilterInternal P env query limit filter allowCache mono).1 }
  | .request req inputs => (k.handle P.toFsPlatform inputs req).1
  | .flush => { k with fs := k.fs.flushTagIndex.persistSearchIndex }
  | .restart cids embedBatch => { k with fs := k.fs.restart P.toFsPlatform cids embedBatch }
  | .permissions guard => { k with permissions := guard }
  | .graph knowledgeGraph => { k with knowledgeGraph }

def runKernel (P : SearchPlatform) (k : AIKernel) (ops : List KernelOp) : AIKernel :=
  ops.foldl (KernelOp.apply P) k

end Plico.Kernel
