import Plico.Model.Kernel.Security

/-!
# Handling requests (kernel/api_dispatch.rs, builtin_tools.rs, tools/permission.rs, handlers/permission.rs, tools.rs,
core_ops.rs, ops/dispatch.rs)

The routes from a request to the permissions: the permission requests, the tools, and the core verb that calls tools.
The other handlers are components: they see the permissions and may change the tokens and the rest of the kernel.
They have no way to change the permissions, since only the code modelled here calls `permission_grant` and
`permission_revoke`.
-/

namespace Plico.Kernel

open PermissionGuard

/-! ## Answers -/

inductive ToolResult where
  | ok (output : Value)
  | error (message : String)
  deriving DecidableEq

/-- The response of a request. `other` is the answer of a component. -/
inductive Reply (ρ : Type) where
  | accepted
  | message (text : String)
  | failed (message : String)
  | tool (result : ToolResult)
  | data (value : Value)
  | other (answer : ρ)

/-- A kernel and the state `σ` of its other components. -/
structure GuardedKernel (σ : Type) extends SecurityState where
  rest : σ

/-- The code outside: libraries, hooks, the scheduler, external tools and the other handlers. -/
structure Components (σ ρ : Type) where
  toLowercase : String → String
  /-- The `Debug` text of a list of names. -/
  debugNames : List String → String
  /-- `serde_json::from_str` for requests. -/
  fromStr : String → Option ApiRequest
  /-- The reason for which a hook blocks a tool call. -/
  hookBlocks : σ → String → String → Value → Option String
  postHooks : σ → String → String → ToolResult → σ
  allowedTools : σ → String → List String
  recordToolCall : σ → String → σ
  /-- The handler registered for an external tool. -/
  externalTool : σ → String → Option (Value → String → σ × ToolResult)
  /-- The built-in tools that do not concern permissions. -/
  builtinTool : GuardedKernel σ → String → Value → String → AgentKeyStore × σ × ToolResult
  ensureAgentRegistered : σ → String → σ
  recordSkill : σ → String → String → Value → σ
  markFixed : σ → String → σ
  /-- The handlers of the other requests. -/
  handle : GuardedKernel σ → ApiRequest → Clock → AgentKeyStore × σ × ρ
  finish : σ → Option String → σ

variable {σ ρ : Type} (C : Components σ ρ)

namespace PermissionGuard

def parseAction (s : String) : Option PermissionAction :=
  match C.toLowercase s with
  | "read" => some .read
  | "read_any" | "readany" => some .readAny
  | "write" => some .write
  | "delete" => some .delete
  | "network" => some .network
  | "execute" => some .execute
  | "send_message" | "sendmessage" => some .sendMessage
  | "manage_permissions" | "managepermissions" => some .managePermissions
  | "all" => some .all
  | _ => none

end PermissionGuard

namespace GuardedKernel

variable (k : GuardedKernel σ)
variable (agentId : String)

def permissionGrant (action : PermissionAction) (scope : Option String) (expiresAt : Option Nat) : GuardedKernel σ :=
  { k with permissions := k.permissions.grant agentId ⟨action, scope, expiresAt⟩ }

def permissionRevoke (action : PermissionAction) : GuardedKernel σ :=
  { k with permissions := k.permissions.revoke agentId action }

def permissionCheck (action : PermissionAction) (clock : Clock) : Bool :=
  (k.permissions.check (.new agentId "default") action clock.ms).toOption.isSome

/-- The grants of an agent as the answers show them. -/
def grantsValue : Value :=
  .array ((k.permissions.listGrants agentId).map fun g => .object
    [("action", .string g.action.debug), ("scope", .option .string g.scope),
      ("expires_at", .option .nat g.expiresAt)])

/-! ## Tools -/

def canManagePermissions (clock : Clock) : Bool :=
  (k.permissions.listGrants agentId).any fun g => g.covers .managePermissions clock.ms

def mutationDenied : ToolResult :=
  .error ("permission mutation denied: Agent '" ++ agentId ++ "' lacks explicit ManagePermissions permission")

def strParam (params : Value) (key default : String) : String :=
  ((params.get key).bind Value.asStr).getD default

/-- The tools whose names start with `permission.`. -/
def permissionTool (name : String) (params : Value) (agentId : String) (clock : Clock) :
    GuardedKernel σ × ToolResult :=
  let actionStr := strParam params "action" ""
  match name with
  | "permission.grant" =>
    if k.canManagePermissions agentId clock = false then (k, mutationDenied agentId)
    else
      let target := strParam params "agent_id" ""
      match parseAction C actionStr with
      | some action =>
        (k.permissionGrant target action ((params.get "scope").bind Value.asStr)
          ((params.get "expires_at").bind Value.asU64),
          .ok (.object [("granted", .bool true), ("agent_id", .string target), ("action", .string actionStr)]))
      | none => (k, .error ("Unknown action: " ++ actionStr))
  | "permission.revoke" =>
    if k.canManagePermissions agentId clock = false then (k, mutationDenied agentId)
    else
      let target := strParam params "agent_id" ""
      match parseAction C actionStr with
      | some action =>
        (k.permissionRevoke target action,
          .ok (.object [("revoked", .bool true), ("agent_id", .string target), ("action", .string actionStr)]))
      | none => (k, .error ("Unknown action: " ++ actionStr))
  | "permission.list" =>
    let target := strParam params "agent_id" agentId
    (k, .ok (.object [("agent_id", .string target), ("grants", k.grantsValue target)]))
  | "permission.check" =>
    let target := strParam params "agent_id" agentId
    match parseAction C actionStr with
    | some action =>
      (k, .ok (.object [("agent_id", .string target), ("action", .string actionStr),
        ("allowed", .bool (k.permissionCheck target action clock))]))
    | none => (k, .error ("Unknown action: " ++ actionStr))
  | name => (k, .error ("unknown permission tool: " ++ name))

/-- The categories of the built-in tools other than `permission.`. -/
def toolPrefixes : List String := ["cas.", "memory.", "kg.", "agent.", "tools.", "message.", "context."]

def startsWith (name start : String) : Bool := (utf8 start).isPrefixOf (utf8 name)

def executeToolImpl (name : String) (params : Value) (agentId : String) (clock : Clock) :
    GuardedKernel σ × ToolResult :=
  let allowed := C.allowedTools k.rest agentId
  if allowed ≠ [] ∧ name ∉ allowed then
    (k, .error ("Tool '" ++ name ++ "' not in agent's allowed list: " ++ C.debugNames allowed))
  else
    let k := { k with rest := C.recordToolCall k.rest agentId }
    match C.externalTool k.rest name with
    | some run =>
      match k.permissions.checkScoped (.new agentId "default") .execute (some ("tool:" ++ name)) clock.ms with
      | .error _ =>
        (k, .error ("Agent '" ++ agentId ++ "' lacks Execute permission for external tool '" ++ name ++ "'"))
      | .ok () =>
        let (rest, result) := run params agentId
        ({ k with rest }, result)
    | none =>
      if toolPrefixes.any (startsWith name) then
        let (keyStore, rest, result) := C.builtinTool k name params agentId
        ({ k with keyStore, rest }, result)
      else if startsWith name "permission." then k.permissionTool C name params agentId clock
      else (k, .error ("unknown tool: " ++ name))

def executeTool (name : String) (params : Value) (agentId : String) (clock : Clock) : GuardedKernel σ × ToolResult :=
  match C.hookBlocks k.rest agentId name params with
  | some reason => (k, .error ("blocked by hook: " ++ reason))
  | none =>
    let (k, result) := k.executeToolImpl C name params agentId clock
    ({ k with rest := C.postHooks k.rest agentId name result }, result)

/-! ## Requests -/

def coreExec (action : String) (params : Value) (agentId : String) (clock : Clock) : GuardedKernel σ × Reply ρ :=
  match action with
  | "tool_call" =>
    let toolName := strParam params "tool" ""
    let toolParams := (params.get "params").getD .null
    let k := { k with rest := C.recordSkill k.rest agentId toolName toolParams }
    let (k, result) := k.executeTool C toolName toolParams agentId clock
    (k, .tool result)
  | "retry_diagnostic" =>
    let taskId := strParam params "task_id" ""
    ({ k with rest := C.markFixed k.rest taskId }, .message ("Recovery initiated for task " ++ taskId))
  | action => (k, .failed ("Unsupported core_exec action: " ++ action))

def route (req : ApiRequest) (clock : Clock) : GuardedKernel σ × Reply ρ :=
  match req with
  | .grantPermission agentId _ _ action scope expiresAt =>
    match parseAction C action with
    | some act => (k.permissionGrant agentId act scope expiresAt, .accepted)
    | none => (k, .failed ("Unknown action: " ++ action))
  | .revokePermission agentId _ _ action =>
    match parseAction C action with
    | some act => (k.permissionRevoke agentId act, .accepted)
    | none => (k, .failed ("Unknown action: " ++ action))
  | .listPermissions agentId => (k, .data (.object [("grants", k.grantsValue agentId)]))
  | .checkPermission agentId action =>
    match parseAction C action with
    | some act => (k, .data (.object [("allowed", .bool (k.permissionCheck agentId act clock))]))
    | none => (k, .failed ("Unknown action: " ++ action))
  | .toolCall tool params agentId =>
    let (k, result) := k.executeTool C tool params agentId clock
    (k, .tool result)
  | .coreExec action params agentId => k.coreExec C action params agentId clock
  | req =>
    let (keyStore, rest, answer) := C.handle k req clock
    ({ k with keyStore, rest }, .other answer)

/-- The requests that do not register the agent they name. -/
def skipAutoRegister : ApiRequest → Bool
  | .agentStatus _ | .agentSuspend _ | .agentResume _ | .agentTerminate _ | .agentComplete _ | .agentFail _
  | .agentCheckpoint _ | .agentUsage _ | .agentSetResources _ => true
  | _ => false

/-- What is recorded of the agent before a request is handled. -/
def recordAgent (req : ApiRequest) : GuardedKernel σ :=
  match (extractSecurityInfo req).1 with
  | none => k
  | some agentId =>
    let rest := if skipAutoRegister req then k.rest else C.ensureAgentRegistered k.rest agentId
    { k with rest := C.recordToolCall rest agentId }

def handleApiRequestWithOrigin (req : ApiRequest) (trustedInternalOrigin : Bool)
    (clock : Clock) : GuardedKernel σ × Reply ρ :=
  match k.validateSecurityForOrigin req trustedInternalOrigin clock with
  | .error e => (k, .failed e)
  | .ok () =>
    let (k, reply) := (k.recordAgent C req).route C req clock
    ({ k with rest := C.finish k.rest (extractSecurityInfo req).1 }, reply)

def handleApiRequest (req : ApiRequest) (clock : Clock) : GuardedKernel σ × Reply ρ :=
  k.handleApiRequestWithOrigin C req false clock

end GuardedKernel

/-! ## Histories -/

/-- A request, or an intent whose action the dispatcher executes. -/
inductive ServiceStep where
  | request (req : ApiRequest) (clock : Clock)
  | dispatch (actionJson : String) (clock : Clock)

namespace ServiceStep

def clock : ServiceStep → Clock
  | .request _ clock | .dispatch _ clock => clock

/-- The request that a step processes. An action that is not a request is answered with an error. -/
def processed : ServiceStep → Option ApiRequest
  | .request req _ => some req
  | .dispatch actionJson _ => C.fromStr actionJson

def apply (k : GuardedKernel σ) (step : ServiceStep) : GuardedKernel σ :=
  match step.processed C with
  | some req => (k.handleApiRequest C req step.clock).1
  | none => k

end ServiceStep

def serve (k : GuardedKernel σ) (steps : List ServiceStep) : GuardedKernel σ :=
  steps.foldl (ServiceStep.apply C) k

end Plico.Kernel
