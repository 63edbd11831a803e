import Plico.Model.Fs.Graph
import Plico.Model.Fs.SemanticFs
import Plico.Model.Kernel.Permission

/-!
# Object requests of the kernel (kernel/ops/fs.rs, kernel/handlers/cas.rs, core_ops.rs, memory.rs, intent.rs)

The operations on objects and the requests that lead to them. The kernel is its permission guard, the semantic
filesystem and the knowledge graph. Events, metrics and the requests answered by other components
are left out. `now` is the clock reading of a request; the directory listing, the summarizer and the embedding
provider answer from outside.
-/

namespace Plico.Kernel

open PermissionContext Plico.Cas Plico.Fs

structure AIKernel where
  permissions : PermissionGuard
  fs : SemanticFS
  knowledgeGraph : Option Graph.PetgraphBackend

/-- The readings of one operation: the clock, whether the pipeline took the document, and the provider's answer. -/
structure OpInputs where
  now : Nat
  queued : Bool
  answer : EmbedOutcome

def denied (e : PermissionDenied) : IoError := ⟨.permissionDenied, e.message⟩

namespace AIKernel

variable (P : FsPlatform)

def check (k : AIKernel) (ctx : PermissionContext) (action : PermissionAction) (now : Nat) : Except IoError Unit :=
  (k.permissions.check ctx action now).mapError denied

variable (k : AIKernel)

/-- The two checks made of an object: its namespace, then its owner. -/
def checkObject (ctx : PermissionContext) (obj : AIObject) (now : Nat) : Except IoError Unit := do
  (PermissionGuard.checkNamespaceAccess ctx obj.meta_.tenantId).mapError denied
  (k.permissions.checkOwnership ctx obj.meta_.createdBy now).mapError denied

/-- `fs.read(&Query::ByCid(cid))`. -/
def readByCid (cid : String) : Except IoError AIObject :=
  (k.fs.cas.get P.sha256 cid).mapError casNotFound

def storeObject (data : Bytes) (meta_ : AIObjectMeta) (agentId : String) (now : Nat) :
    Except IoError (AIKernel × String) := do
  k.check (.new agentId defaultTenant) .write now
  let (cas, cid) ← (k.fs.cas.put P.sha256 (.new P.sha256 data meta_)).mapError casIoError
  pure ({ k with fs := { k.fs with cas } }, cid)

def getObject (cid agentId tenantId : String) (now : Nat) : Except IoError AIObject := do
  let ctx := new agentId tenantId
  k.check ctx .read now
  let obj ← k.readByCid P cid
  k.checkObject ctx obj now
  pure obj

def semanticCreate (content : Bytes) (tags : List String) (agentId : String) (intent : Option String)
    (scope : ObjectScope) (inputs : OpInputs) : Except IoError (AIKernel × String) := do
  k.check (.new agentId defaultTenant) .write inputs.now
  refuse (content = []) ⟨.invalidInput, "Cannot create object with empty content"⟩
  let (fs, cid) ← k.fs.create P content tags agentId intent scope inputs.now inputs.queued inputs.answer
  pure ({ k with fs }, cid)

def semanticUpdate (cid : String) (newContent : Bytes) (newTags : Option (List String))
    (agentId tenantId : String) (inputs : OpInputs) : Except IoError (AIKernel × String) := do
  let ctx := new agentId tenantId
  k.check ctx .write inputs.now
  match k.readByCid P cid with
  | .ok existing => k.checkObject ctx existing inputs.now
  | .error _ => pure ()
  let (fs, newCid) ← k.fs.update P cid newContent newTags inputs.now inputs.answer
  pure ({ k with fs }, newCid)

def semanticDelete (cid agentId tenantId : String) (now : Nat) : Except IoError AIKernel := do
  let existing ← k.readByCid P cid
  let ctx := new agentId tenantId
  k.check ctx .delete now
  k.checkObject ctx existing now
  let fs ← k.fs.delete P cid now
  refuse ((fs.listDeleted.any fun entry => entry.cid == cid) = false)
    ⟨.interrupted, "Effect contract violated: deleted CID not in recycle bin"⟩
  pure { k with fs }

def restoreDeleted (cid agentId : String) (inputs : OpInputs) : Except IoError AIKernel := do
  k.check (.new agentId defaultTenant) .write inputs.now
  let fs ← k.fs.restore P cid inputs.now inputs.answer
  pure { k with fs }

def listDeleted (k : AIKernel) (_agentId : String) : List RecycleEntry :=
  k.fs.listDeleted

/-- The version that a document supersedes. -/
def previousVersion (graph : Graph.PetgraphBackend) (current : String) : Option String :=
  ((Graph.getNeighbors current (some .supersedes) graph).find? fun (_, edge) =>
    edge.edgeType = .supersedes && edge.src = current).map fun (node, _) => node.id

/-- Follow the superseded versions, fifty at most. -/
def historyLoop (graph : Graph.PetgraphBackend) : Nat → String → List String
  | 0, _ => []
  | n + 1, current =>
    match previousVersion graph current with
    | some id => id :: historyLoop graph n id
    | none => []

def versionHistory (cid agentId : String) (now : Nat) : List String :=
  match k.check (.new agentId defaultTenant) .read now with
  | .error _ => []
  | .ok () =>
    match k.knowledgeGraph with
    | none => [cid]
    | some graph => cid :: historyLoop graph 50 cid

def rollback (k : AIKernel) (cid agentId : String) (inputs : OpInputs) : Except String (AIKernel × String) := do
  (k.check (.new agentId defaultTenant) .write inputs.now).mapError (·.message)
  let previousCid ← required (k.versionHistory cid agentId inputs.now)[1]? "No previous version to rollback to"
  let previous ← (k.readByCid P previousCid).mapError fun e =>
    "Cannot read previous version " ++ previousCid ++ ": " ++ e.message
  (k.semanticUpdate P cid previous.data (some previous.meta_.tags) agentId "default" inputs).mapError fun e =>
    "Rollback update failed: " ++ e.message

/-- A panic is not an I/O error: it ends the request. -/
def contextLoad (summarizer : Option Summarizer) (k : AIKernel) (cid : String) (layer : ContextLayer)
    (agentId : String) (now : Nat) : Except IoError (Except ContextError (AIKernel × LoadedContext)) := do
  k.check (.new agentId defaultTenant) .read now
  pure ((k.fs.ctxLoader.load P summarizer k.fs.cas cid layer).map fun (ctxLoader, loaded) =>
    ({ k with fs := { k.fs with ctxLoader } }, loaded))

def contextAssemble (summarizer : Option Summarizer) (k : AIKernel) (candidates : List String) (budgetTokens : Nat)
    (agentId : String) (now : Nat) : Except IoError (Except ContextError (AIKernel × BudgetAllocation)) := do
  k.check (.new agentId defaultTenant) .read now
  pure ((assemble P summarizer k.fs.cas k.fs.ctxLoader candidates budgetTokens).map fun (ctxLoader, allocation) =>
    ({ k with fs := { k.fs with ctxLoader } }, allocation))

def kgGetNode (nodeId agentId tenantId : String) (now : Nat) : Except IoError (Option Graph.KGNode) := do
  let ctx := new agentId tenantId
  k.check ctx .read now
  match k.knowledgeGraph.bind (Graph.getNode nodeId) with
  | none => pure none
  | some node =>
    (PermissionGuard.checkNamespaceAccess ctx node.tenantId).mapError denied
    pure (some node)

def kgListNodes (agentId tenantId : String) (now : Nat) : Except IoError (List Graph.KGNode) := do
  k.check (.new agentId tenantId) .read now
  match k.knowledgeGraph with
  | none => pure []
  | some graph => pure ((Graph.listNodes agentId graph).filter fun node => node.tenantId == tenantId)

end AIKernel

end Plico.Kernel
