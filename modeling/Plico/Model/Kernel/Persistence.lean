import Plico.Framework.Disk
import Plico.Model.Kernel.Permission

/-!
# The file of the permission grants (kernel/persistence.rs, kernel/ops/permission.rs)

A change of the grants is followed by a save of all of them: a snapshot is taken and replaces `permission_index.json` by
way of `permission_index.json.tmp`, or the file is removed when there are no grants. Change, snapshot, write and rename
are separate steps that no lock spans; calls of several threads take turns between them. All results of file operations
are ignored.
-/

namespace Plico.Kernel

/-- An index file and the temporary file that `with_extension("json.tmp")` names. -/
inductive JsonFile where
  | index
  | temp
  deriving DecidableEq, Repr

/-- Two tables with the same entries. -/
def SameTable {β : Type} (a b : AList (fun _ : String => β)) : Prop := ∀ key, a.lookup key = b.lookup key

/-- The second half of `atomic_write_json`; the temporary file may be gone. -/
def moveIntoPlace {β : Type} (disk : Disk JsonFile β) : Disk JsonFile β :=
  (disk.rename .temp .index).getD disk

inductive PermissionChange where
  | grant (agentId : String) (action : PermissionAction) (scope : Option String) (expiresAt : Option Nat)
  | revoke (agentId : String) (action : PermissionAction)
  | revokeAll (agentId : String)
  deriving DecidableEq, Repr

def PermissionChange.apply : PermissionChange → PermissionGuard → PermissionGuard
  | grant agentId action scope expiresAt, guard => guard.grant agentId ⟨action, scope, expiresAt⟩
  | revoke agentId action, guard => guard.revoke agentId action
  | revokeAll agentId, guard => guard.revokeAll agentId

/-- Where a `permission_grant`, `permission_revoke` or `permission_revoke_all` is, or a `persist_permissions` of
`persist_auxiliary_best_effort`, which begins at `changed`. -/
inductive PermissionCall where
  | changing (change : PermissionChange)
  | changed
  | taken (grants : GrantTable)
  | written (grants : GrantTable)
  | returned

/-- The call has a snapshot that is not in place yet. -/
def PermissionCall.saving : PermissionCall → Bool
  | taken _ | written _ => true
  | _ => false

structure PermissionSystem (β : Type) where
  guard : PermissionGuard
  disk : Disk JsonFile β
  calls : List PermissionCall

inductive PermissionStep where
  | call (change : PermissionChange)
  | persist
  | step (i : Nat)
  deriving DecidableEq, Repr

namespace PermissionSystem

variable {β : Type} (codec : Codec GrantTable β SameTable)

/-- `restore_permissions`. -/
def restorePermissions (disk : Disk JsonFile β) (guard : PermissionGuard) : PermissionGuard :=
  match (disk.read .index).bind codec.decode with
  | some grants => guard.restore grants
  | none => guard

/-- A kernel that has just been started over a vault. -/
def opened (disk : Disk JsonFile β) : PermissionSystem β :=
  ⟨restorePermissions codec disk .new, disk, []⟩

/-- One step of a call. -/
def callStep (s : PermissionSystem β) (i : Nat) (call : PermissionCall) : PermissionSystem β :=
  match call with
  | .changing change => { s with guard := change.apply s.guard, calls := s.calls.set i .changed }
  | .changed => { s with calls := s.calls.set i (.taken s.guard.grants) }
  | .taken grants =>
    if grants.entries.isEmpty then
      { s with disk := (s.disk.remove .index).getD s.disk, calls := s.calls.set i .returned }
    else { s with disk := s.disk.writeFile .temp (codec.encode grants), calls := s.calls.set i (.written grants) }
  | .written _ => { s with disk := moveIntoPlace s.disk, calls := s.calls.set i .returned }
  | .returned => s

def step (s : PermissionSystem β) : PermissionStep → PermissionSystem β
  | .call change => { s with calls := s.calls ++ [.changing change] }
  | .persist => { s with calls := s.calls ++ [.changed] }
  | .step i =>
    match s.calls[i]? with
    | some call => s.callStep codec i call
    | none => s

def run (s : PermissionSystem β) (steps : List PermissionStep) : PermissionSystem β :=
  steps.foldl (step codec) s

end PermissionSystem

end Plico.Kernel
