import Mathlib.Data.List.AList
import Plico.Model.Memory.Content

/-!
# The permission guard (api/permission.rs)

A registry of grants per agent and the checks made against it. The clock is an input: `now` is the reading
of `now_ms` during one check.
-/

namespace Plico.Kernel

inductive PermissionAction where
  | read
  | readAny
  | write
  | delete
  | network
  | execute
  | sendMessage
  | managePermissions
  | all
  deriving DecidableEq, Repr

/-- The `Debug` text of an action, as the error messages show it. -/
def PermissionAction.debug : PermissionAction → String
  | .read => "Read"
  | .readAny => "ReadAny"
  | .write => "Write"
  | .delete => "Delete"
  | .network => "Network"
  | .execute => "Execute"
  | .sendMessage => "SendMessage"
  | .managePermissions => "ManagePermissions"
  | .all => "All"

structure PermissionGrant where
  action : PermissionAction
  scope : Option String
  expiresAt : Option Nat
  deriving DecidableEq, Repr

/-- `strip_suffix('*')` on the grant's scope, then `starts_with`. -/
def globMatches (grantScope context : String) : Bool :=
  (utf8 grantScope).getLast? == some 42 && (utf8 grantScope).dropLast.isPrefixOf (utf8 context)

def scopeMatches (scope scopeContext : Option String) : Bool :=
  match scope, scopeContext with
  | none, _ => true
  | some _, none => true
  | some grantScope, some context => grantScope == context || globMatches grantScope context

namespace PermissionGrant

def coversScoped (g : PermissionGrant) (action : PermissionAction) (scopeContext : Option String) (now : Nat) : Bool :=
  if g.expiresAt.any fun expiry => now > expiry then false
  else if g.action ≠ .all ∧ g.action ≠ action then false
  else scopeMatches g.scope scopeContext

def covers (g : PermissionGrant) (action : PermissionAction) (now : Nat) : Bool :=
  g.coversScoped action none now

def new (action : PermissionAction) : PermissionGrant := ⟨action, none, none⟩

end PermissionGrant

structure PermissionContext where
  agentId : String
  tenantId : String
  embeddedGrants : List PermissionGrant
  deriving DecidableEq, Repr

def PermissionContext.new (agentId tenantId : String) : PermissionContext := ⟨agentId, tenantId, []⟩

def PermissionContext.hasPermission (ctx : PermissionContext) (action : PermissionAction) (now : Nat) : Bool :=
  ctx.embeddedGrants.any fun g => g.covers action now

abbrev GrantTable := AList (fun _ : String => List PermissionGrant)

structure PermissionGuard where
  trustedAgents : List String
  grants : GrantTable

/-- An I/O error of kind `PermissionDenied` with its message. -/
structure PermissionDenied where
  message : String
  deriving DecidableEq, Repr

namespace PermissionGuard

def new : PermissionGuard := ⟨["kernel", "system"], ∅⟩

variable (guard : PermissionGuard)
variable (agentId : String)

def isTrusted : Bool :=
  guard.trustedAgents.contains agentId

def listGrants : List PermissionGrant :=
  (guard.grants.lookup agentId).getD []

/-! ## Checks -/

/-- What `check` answers when no grant covers the action: reading and writing are allowed. -/
def defaultPolicy (action : PermissionAction) : Except PermissionDenied Unit :=
  match action with
  | .read | .write => .ok ()
  | .all => .error ⟨"Permission 'All' not granted"⟩
  | action => .error ⟨"Agent '" ++ agentId ++ "' lacks permission for " ++ action.debug ++
      ". Grant it first: grant(..., " ++ action.debug ++ ")"⟩

def check (ctx : PermissionContext) (action : PermissionAction) (now : Nat) : Except PermissionDenied Unit :=
  if guard.isTrusted ctx.agentId then .ok ()
  else if ctx.hasPermission action now then .ok ()
  else if (guard.listGrants ctx.agentId).any fun g => g.covers action now then .ok ()
  else defaultPolicy ctx.agentId action

def defaultPolicyScoped (action : PermissionAction) (scope : Option String) : Except PermissionDenied Unit :=
  match action with
  | .read | .write => .ok ()
  | action => .error ⟨"Agent '" ++ agentId ++ "' lacks " ++ action.debug ++ " permission" ++
      (scope.map fun s => " for scope '" ++ s ++ "'").getD ""⟩

def checkScoped (ctx : PermissionContext) (action : PermissionAction)
    (scope : Option String) (now : Nat) : Except PermissionDenied Unit :=
  if guard.isTrusted ctx.agentId then .ok ()
  else if ctx.embeddedGrants.any fun g => g.coversScoped action scope now then .ok ()
  else if (guard.listGrants ctx.agentId).any fun g => g.coversScoped action scope now then .ok ()
  else defaultPolicyScoped ctx.agentId action scope

/-- A grant of the registry that lifts the ownership boundary. -/
def grantsReadAny (now : Nat) : Bool :=
  (guard.listGrants agentId).any fun g => g.covers .readAny now || g.covers .all now

def canReadAny (now : Nat) : Bool :=
  guard.isTrusted agentId || guard.grantsReadAny agentId now

def checkOwnership (ctx : PermissionContext) (ownerId : String) (now : Nat) : Except PermissionDenied Unit :=
  if ctx.agentId = ownerId then .ok ()
  else if guard.isTrusted ctx.agentId then .ok ()
  else if guard.grantsReadAny ctx.agentId now then .ok ()
  else if ctx.hasPermission .readAny now then .ok ()
  else .error ⟨"Agent '" ++ ctx.agentId ++ "' cannot access object owned by '" ++ ownerId ++
    "'. Grant ReadAny to override."⟩

def checkNamespaceAccess (ctx : PermissionContext) (resourceNamespace : String) : Except PermissionDenied Unit :=
  if ctx.tenantId = resourceNamespace then .ok ()
  else .error ⟨"Agent '" ++ ctx.agentId ++ "' cannot cross local namespace boundary '" ++ ctx.tenantId ++
    "' -> '" ++ resourceNamespace ++ "'."⟩

/-! ## Changes -/

/-- Add grants to those an agent has. -/
def addGrants (table : GrantTable) (agentId : String) (added : List PermissionGrant) : GrantTable :=
  table.insert agentId ((table.lookup agentId).getD [] ++ added)

def grant (g : PermissionGrant) : PermissionGuard :=
  { guard with grants := addGrants guard.grants agentId [g] }

def revokeAll : PermissionGuard :=
  { guard with grants := guard.grants.erase agentId }

/-- Remove the grants of one action; an agent without grants has no entry. -/
def revoke (action : PermissionAction) : PermissionGuard :=
  match guard.grants.lookup agentId with
  | none => guard
  | some held =>
    let kept := held.filter fun g => g.action ≠ action
    if kept.isEmpty then { guard with grants := guard.grants.erase agentId }
    else { guard with grants := guard.grants.insert agentId kept }

/-- Add a persisted table to the registry, agent by agent. -/
def restore (table : GrantTable) : PermissionGuard :=
  { guard with grants := table.entries.foldl (fun grants entry => addGrants grants entry.1 entry.2) guard.grants }

end PermissionGuard

end Plico.Kernel
