import Plico.Model.Kernel.Permission

/-!
# The security checks of a request (kernel/ops/security.rs, api/agent_auth.rs)

Every request passes `validateSecurityForOrigin` before it is handled. Two tables drive it: who a request comes from,
and which action it takes. A request has the fields that the checks and the permission handlers read. `Clock` is the
reading of the two clocks during one request.
-/

namespace Plico.Kernel

structure Clock where
  ms : Nat
  secs : Nat
  deriving DecidableEq, Repr

/-! ## Tokens -/

inductive AgentAuthMode where
  | optional
  | required
  deriving DecidableEq, Repr

structure AgentToken where
  agentId : String
  token : String
  expiresAt : Option Nat
  deriving DecidableEq, Repr

structure AgentKeyStore where
  tokens : AList (fun _ : String => AgentToken)
  mode : AgentAuthMode

namespace AgentKeyStore

def verifyToken (store : AgentKeyStore) (agentId token : String) (now : Nat) : Bool :=
  match store.tokens.lookup agentId with
  | none => false
  | some stored =>
    if stored.expiresAt.any fun expiresAt => now > expiresAt then false
    else utf8 stored.token == utf8 token

def requiresToken (store : AgentKeyStore) : Bool := store.mode = .required

def verifyAgentToken (store : AgentKeyStore) (agentId : String) (token : Option String) (now : Nat) :
    Except String Unit :=
  match store.mode, token with
  | .required, none => .error ("Agent '" ++ agentId ++ "': token required but none provided")
  | .optional, none => .ok ()
  | _, some token =>
    refuse (store.verifyToken agentId token now = false) ("Agent '" ++ agentId ++ "': invalid token")

end AgentKeyStore

/-! ## Requests -/

inductive ApiRequest where
  | create (agentId : String) (agentToken tenantId : Option String)
  | read (agentId : String) (agentToken tenantId : Option String)
  | search (agentId : String) (agentToken tenantId : Option String)
  | update (agentId : String) (agentToken tenantId : Option String)
  | delete (agentId : String) (agentToken tenantId : Option String)
  | registerAgent (name : String)
  | listAgents
  | remember (agentId : String) (tenantId : Option String)
  | recall (agentId : String)
  | rememberLongTerm (agentId : String) (tenantId : Option String)
  | explore (agentId : String)
  | grantPermission (agentId : String) (callerAgentId agentToken : Option String) (action : String)
      (scope : Option String) (expiresAt : Option Nat)
  | revokePermission (agentId : String) (callerAgentId agentToken : Option String) (action : String)
  | listPermissions (agentId : String)
  | checkPermission (agentId action : String)
  | listDeleted (agentId : String)
  | restore (agentId : String)
  | history (agentId : String)
  | rollback (agentId : String)
  | createEvent (agentId : String)
  | listEvents (agentId : String)
  | listEventsText (agentId : String)
  | eventAttach (agentId : String)
  | addNode (agentId : String) (tenantId : Option String)
  | addEdge (agentId : String) (tenantId : Option String)
  | listNodes (agentId : String) (tenantId : Option String)
  | listNodesAtTime (agentId : String) (tenantId : Option String)
  | findPaths
  | submitIntent (agentId : String)
  | agentStatus (agentId : String)
  | agentSuspend (agentId : String)
  | agentResume (agentId : String)
  | agentTerminate (agentId : String)
  | toolCall (tool : String) (params : Value) (agentId : String)
  | toolList
  | toolDescribe
  | rememberProcedural (agentId : String)
  | recallProcedural (agentId : String)
  | agentSetResources (callerAgentId : String)
  | agentCheckpoint (agentId : String)
  | sendMessage (sender : String)
  | readMessages (agentId : String)
  | ackMessage (agentId : String)
  | coreGet (agentId : String)
  | coreList (agentId : String)
  | coreSearch (agentId : String)
  | coreCreate (agentId : String)
  | coreUpdate (agentId : String)
  | coreDelete (agentId : String)
  | coreExec (action : String) (params : Value) (agentId : String)
  | coreObserve (agentId : String)
  | coreLink (agentId : String)
  | coreAsk (agentId : String)
  | coreState (agentId : String)
  | getNode (agentId : String) (tenantId : Option String)
  | listEdges (agentId : String) (tenantId : Option String)
  | removeNode (agentId : String) (tenantId : Option String)
  | removeEdge (agentId : String) (tenantId : Option String)
  | updateNode (agentId : String) (tenantId : Option String)
  | agentComplete (agentId : String)
  | agentFail (agentId : String)
  | memoryDeleteEntry (agentId : String) (tenantId : Option String)
  | loadContext (agentId : String) (tenantId : Option String)
  | edgeHistory (agentId : String) (tenantId : Option String)
  | eventSubscribe (agentId : String)
  | eventPoll
  | eventUnsubscribe
  | systemStatus
  | contextAssemble (agentId : String)
  | agentUsage (agentId : String)
  | cacheStats
  | cacheInvalidate
  | intentCacheStats
  | queryTokenUsage (agentId : String)
  | deltaSince
  | startSession (agentId : String) (agentToken : Option String)
  | endSession (agentId : String)
  | discoverAgents
  | delegateTask (fromAgent : String)
  | queryTaskStatus
  | taskStart (agentId : String)
  | taskComplete (agentId : String)
  | taskFail (agentId : String)
  | eventHistory
  | registerSkill (agentId : String)
  | discoverSkills
  | declareIntent (agentId : String)
  | fetchAssembledContext (agentId : String)
  | intentFeedback
  | batchCreate (agentId : String) (tenantId : Option String)
  | batchMemoryStore (agentId : String) (tenantId : Option String)
  | batchSubmitIntent (agentId : String)
  | batchQuery (agentId : String) (tenantId : Option String)
  | kgCausalPath (agentId : String) (tenantId : Option String)
  | kgImpactAnalysis (agentId : String) (tenantId : Option String)
  | kgTemporalChanges (agentId : String) (tenantId : Option String)
  | switchLlmModel
  | checkModelHealth
  | queryGrowthReport (agentId : String)
  | memoryStats (agentId : String) (tenantId : Option String)
  | objectUsage (agentId : String)
  | storageStats (agentId : String)
  | hookList
  | hookRegister
  | healthReport
  | costSessionSummary
  | costAgentTrend (agentId : String)
  | costAnomalyCheck (agentId : String)
  | listPrompts
  | getPromptInfo
  | setPromptOverride
  | removePromptOverride
  | rememberLongTermBatch (agentId : String) (tenantId : Option String)
  | traceList
  | traceShow
  | traceFailures
  | importFiles (agentId : String) (tenantId : Option String)

/-- Who a request comes from: the agent, its token and its namespace. -/
def extractSecurityInfo : ApiRequest → Option String × Option String × Option String
  | .create agentId agentToken tenantId | .read agentId agentToken tenantId
  | .search agentId agentToken tenantId | .update agentId agentToken tenantId
  | .delete agentId agentToken tenantId =>
    (some agentId, agentToken, tenantId)
  | .remember agentId tenantId | .rememberLongTerm agentId tenantId | .addNode agentId tenantId
  | .addEdge agentId tenantId | .listNodes agentId tenantId | .listNodesAtTime agentId tenantId
  | .getNode agentId tenantId | .listEdges agentId tenantId | .removeNode agentId tenantId
  | .removeEdge agentId tenantId | .updateNode agentId tenantId | .memoryDeleteEntry agentId tenantId
  | .loadContext agentId tenantId | .edgeHistory agentId tenantId | .batchCreate agentId tenantId
  | .batchMemoryStore agentId tenantId | .batchQuery agentId tenantId | .kgCausalPath agentId tenantId
  | .kgImpactAnalysis agentId tenantId | .kgTemporalChanges agentId tenantId | .memoryStats agentId tenantId
  | .rememberLongTermBatch agentId tenantId | .importFiles agentId tenantId => (some agentId, none, tenantId)
  | .startSession agentId agentToken => (some agentId, agentToken, none)
  | .registerAgent name => (some name, none, none)
  | .grantPermission _ callerAgentId agentToken _ _ _ | .revokePermission _ callerAgentId agentToken _ =>
    (callerAgentId, agentToken, none)
  | .sendMessage sender => (some sender, none, none)
  | .delegateTask fromAgent => (some fromAgent, none, none)
  | .agentSetResources callerAgentId => (some callerAgentId, none, none)
  | .recall agentId | .explore agentId | .listPermissions agentId | .checkPermission agentId _
  | .listDeleted agentId | .restore agentId | .history agentId | .rollback agentId | .createEvent agentId
  | .listEvents agentId | .listEventsText agentId | .eventAttach agentId | .submitIntent agentId
  | .agentStatus agentId | .agentSuspend agentId | .agentResume agentId | .agentTerminate agentId
  | .rememberProcedural agentId | .recallProcedural agentId | .agentCheckpoint agentId | .readMessages agentId
  | .ackMessage agentId | .coreGet agentId | .coreList agentId | .coreSearch agentId | .coreCreate agentId
  | .coreUpdate agentId | .coreDelete agentId | .coreObserve agentId | .coreLink agentId | .coreAsk agentId
  | .coreState agentId | .agentComplete agentId | .agentFail agentId | .eventSubscribe agentId
  | .contextAssemble agentId | .agentUsage agentId | .queryTokenUsage agentId | .endSession agentId
  | .taskStart agentId | .taskComplete agentId | .taskFail agentId | .registerSkill agentId
  | .declareIntent agentId | .fetchAssembledContext agentId | .batchSubmitIntent agentId
  | .queryGrowthReport agentId | .objectUsage agentId | .storageStats agentId | .costAgentTrend agentId
  | .costAnomalyCheck agentId =>
    (some agentId, none, none)
  | .toolCall _ _ agentId | .coreExec _ _ agentId => (some agentId, none, none)
  | _ => (none, none, none)

def permissionTools : List String := ["permission.grant", "permission.revoke"]

def mapRequestToAction : ApiRequest → PermissionAction
  | .read _ _ _ | .recall _ | .recallProcedural _ | .loadContext _ _ | .search _ _ _ | .history _
  | .listDeleted _ | .listEvents _ | .listEventsText _ | .listNodes _ _ | .listNodesAtTime _ _ | .listEdges _ _
  | .getNode _ _ | .findPaths | .edgeHistory _ _ | .kgCausalPath _ _ | .kgImpactAnalysis _ _
  | .kgTemporalChanges _ _ | .explore _ | .objectUsage _ | .storageStats _ | .readMessages _ | .agentStatus _
  | .agentUsage _ | .queryTaskStatus | .queryTokenUsage _ | .queryGrowthReport _ | .memoryStats _ _
  | .fetchAssembledContext _ | .batchQuery _ _ | .coreGet _ | .coreList _ | .coreSearch _ | .coreObserve _
  | .coreAsk _ => .read
  | .create _ _ _ | .update _ _ _ | .restore _ | .rollback _ | .remember _ _ | .rememberLongTerm _ _
  | .rememberProcedural _ | .rememberLongTermBatch _ _ | .addNode _ _ | .addEdge _ _ | .updateNode _ _
  | .createEvent _ | .eventAttach _ | .submitIntent _ | .declareIntent _ | .ackMessage _ | .taskStart _
  | .taskComplete _ | .batchCreate _ _ | .batchMemoryStore _ _ | .batchSubmitIntent _ | .importFiles _ _
  | .coreCreate _ | .coreUpdate _ | .coreLink _ | .coreState _ => .write
  | .delete _ _ _ | .removeNode _ _ | .removeEdge _ _ | .memoryDeleteEntry _ _ | .coreDelete _ => .delete
  | .coreExec action params _ =>
    if action = "tool_call" ∧ (params.get "tool").bind Value.asStr ∈ permissionTools.map some then .managePermissions
    else .execute
  | .toolCall tool _ _ => if tool ∈ permissionTools then .managePermissions else .execute
  | .sendMessage _ | .delegateTask _ => .sendMessage
  -- the lifecycle counts as writing
  | .registerAgent _ | .registerSkill _ | .startSession _ _ | .endSession _ | .agentSuspend _ | .agentResume _
  | .agentTerminate _ | .agentCheckpoint _ | .agentSetResources _ | .agentComplete _ | .agentFail _
  | .taskFail _ => .write
  | .grantPermission _ _ _ _ _ _ | .revokePermission _ _ _ _ => .managePermissions
  | .listPermissions _ | .checkPermission _ _ => .read
  | _ => .read

/-! ## The checks -/

structure SecurityState where
  permissions : PermissionGuard
  keyStore : AgentKeyStore

namespace SecurityState

variable (s : SecurityState)

/-- The names of the internal principals are refused to callers from outside. -/
def checkReserved (agentId : Option String) (trustedInternalOrigin : Bool) : Except String Unit :=
  refuse (agentId.any s.permissions.isTrusted ∧ trustedInternalOrigin = false)
    ("Security Red Line (Identity): reserved agent '" ++ agentId.getD "" ++ "' is restricted to kernel-owned calls")

/-- Changes of the permissions need a token, whatever the mode. -/
def checkManager (agentId token : Option String) (clock : Clock) : Except String Unit := do
  let caller ← required agentId "Security Red Line (Identity): permission mutation requires caller_agent_id"
  let callerToken ← required token
    ("Security Red Line (Identity): Agent '" ++ caller ++ "': token required for permission mutation")
  refuse (s.keyStore.verifyToken caller callerToken clock.secs = false)
    ("Security Red Line (Identity): Agent '" ++ caller ++ "': invalid token")

def checkIdentity (req : ApiRequest) (agentId token : Option String) (clock : Clock) : Except String Unit :=
  match agentId, req with
  | some _, .registerAgent _ => .ok ()
  | some agentId, _ =>
    (s.keyStore.verifyAgentToken agentId token clock.secs).mapError ("Security Red Line (Identity): " ++ ·)
  | none, .systemStatus | none, .healthReport => .ok ()
  | none, _ => refuse s.keyStore.requiresToken "Security Red Line (Identity): Anonymous request denied"

def checkCapability (agentId tenantId : Option String) (action : PermissionAction)
    (clock : Clock) : Except String Unit :=
  match agentId with
  | none => .ok ()
  | some agentId =>
    (s.permissions.check (.new agentId (tenantId.getD "default")) action clock.ms).mapError fun e =>
      "Security Red Line (Capability): " ++ e.message

def validateSecurityForOrigin (req : ApiRequest) (trustedInternalOrigin : Bool) (clock : Clock) :
    Except String Unit := do
  let (agentId, token, tenantId) := extractSecurityInfo req
  let action := mapRequestToAction req
  s.checkReserved agentId trustedInternalOrigin
  checkIf (action = .managePermissions) (s.checkManager agentId token clock)
  s.checkIdentity req agentId token clock
  s.checkCapability agentId tenantId action clock

end SecurityState

end Plico.Kernel
