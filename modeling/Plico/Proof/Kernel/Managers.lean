import Plico.Model.Kernel.Dispatch
import Plico.Proof.Kernel.Permission

/-!
# Who changes the permissions

The grants of an agent change only while a request to grant or revoke is processed, and only for a caller that
presents its stored token and holds a grant to manage permissions. The other routes to the permissions, by the tools
`permission.grant` and `permission.revoke`, are closed: the checks ask these requests for a token, which they have no
field for.
-/

namespace Plico.Kernel

open PermissionGuard GuardedKernel Except

variable {σ ρ : Type} {req : ApiRequest} {agentId : String}

/-! ## What the checks establish -/

/-- The caller is no internal principal, presents its stored token, and holds a grant that has not expired to manage
permissions. -/
def ByManager (s : SecurityState) (clock : Clock) (caller token : Option String) : Prop :=
  ∃ agentId, caller = some agentId ∧ s.permissions.isTrusted agentId = false ∧
    (∃ stored, s.keyStore.tokens.lookup agentId = some stored ∧ token = some stored.token) ∧
    ∃ g ∈ s.permissions.listGrants agentId, g.Unexpired clock.ms ∧ g.IsFor .managePermissions

/-- A request to grant or revoke that comes from a manager. -/
def ManagerRequest (s : SecurityState) (clock : Clock) : ApiRequest → Prop
  | .grantPermission _ caller token _ _ _ | .revokePermission _ caller token _ => ByManager s clock caller token
  | _ => False

theorem lookup_of_verifyToken {store : AgentKeyStore} {token : String} {now : Nat}
    (h : store.verifyToken agentId token now = true) :
    ∃ stored, store.tokens.lookup agentId = some stored ∧ token = stored.token := by
  unfold AgentKeyStore.verifyToken at h
  cases hstored : store.tokens.lookup agentId with
  | none => simp [hstored] at h
  | some stored =>
    rw [hstored] at h
    dsimp only at h
    split at h
    · cases h
    · exact ⟨stored, rfl, (utf8_injective (beq_iff_eq.mp h)).symm⟩

variable {s : SecurityState} {clock : Clock}

theorem checkManager_ok {agentId token : Option String} (h : s.checkManager agentId token clock = .ok ()) :
    ∃ caller stored, agentId = some caller ∧ s.keyStore.tokens.lookup caller = some stored ∧
      token = some stored.token := by
  obtain ⟨caller, hcaller, h⟩ := of_seq h
  obtain ⟨callerToken, htoken, h⟩ := of_seq h
  have hverified : s.keyStore.verifyToken caller callerToken clock.secs = true := by
    simpa using refuse_eq_ok.mp h
  obtain ⟨stored, hlookup, rfl⟩ := lookup_of_verifyToken hverified
  exact ⟨caller, stored, required_eq_ok.mp hcaller, hlookup, required_eq_ok.mp htoken⟩

/-- Without a grant, managing permissions is denied by default. -/
theorem exists_manager_grant {tenantId : Option String} (hagent : s.permissions.isTrusted agentId = false)
    (h : s.checkCapability (some agentId) tenantId .managePermissions clock = .ok ()) :
    ∃ g ∈ s.permissions.listGrants agentId, g.Unexpired clock.ms ∧ g.IsFor .managePermissions := by
  have hcheck := mapError_ok_iff.mp h
  by_cases hany : ((s.permissions.listGrants agentId).any fun g => g.covers .managePermissions clock.ms) = true
  · obtain ⟨g, hg, hcovers⟩ := List.any_eq_true.mp hany
    obtain ⟨hunexpired, hfor, -⟩ := coversScoped_iff.mp hcovers
    exact ⟨g, hg, hunexpired, hfor⟩
  · simp [check, PermissionContext.new, PermissionContext.hasPermission, hagent, hany, defaultPolicy] at hcheck

theorem byManager_of_validate (haction : mapRequestToAction req = .managePermissions)
    (h : s.validateSecurityForOrigin req false clock = .ok ()) :
    ByManager s clock (extractSecurityInfo req).1 (extractSecurityInfo req).2.1 := by
  obtain ⟨_, hreserved, _, hmanager, _, -, hcapability⟩ := of_seq₃ h
  obtain ⟨caller, stored, hcaller, hlookup, htoken⟩ := checkManager_ok (checkIf_eq_ok.mp hmanager haction)
  rw [hcaller, SecurityState.checkReserved] at hreserved
  have hagent : s.permissions.isTrusted caller = false := by simpa using hreserved
  rw [hcaller, haction] at hcapability
  exact ⟨caller, hcaller, hagent, ⟨stored, hlookup, htoken⟩, exists_manager_grant hagent hcapability⟩

/-- Among the requests that count as managing permissions, only those to grant and to revoke carry a token. -/
theorem managerRequest_of_action (haction : mapRequestToAction req = .managePermissions)
    (h : ByManager s clock (extractSecurityInfo req).1 (extractSecurityInfo req).2.1) : ManagerRequest s clock req := by
  have hnone {caller : Option String} (h : ByManager s clock caller none) : False := by
    obtain ⟨_, -, -, ⟨_, -, htoken⟩, -⟩ := h
    cases htoken
  cases req
  case grantPermission => exact h
  case revokePermission => exact h
  case toolCall => exact (hnone h).elim
  case coreExec => exact (hnone h).elim
  all_goals nomatch haction

/-! ## What the routes change -/

section

variable (C : Components σ ρ) (k : GuardedKernel σ) (agentId : String) (params : Value) (clock : Clock) {name : String}

theorem permissions_permissionTool (h : name ∉ permissionTools) :
    (k.permissionTool C name params agentId clock).1.permissions = k.permissions := by
  unfold permissionTool
  split
  · exact absurd (by decide) h
  · exact absurd (by decide) h
  · rfl
  · dsimp only
    split <;> rfl
  · rfl

theorem permissions_executeToolImpl (h : name ∉ permissionTools) :
    (k.executeToolImpl C name params agentId clock).1.permissions = k.permissions := by
  unfold executeToolImpl
  dsimp only
  split
  · rfl
  · split
    · split <;> rfl
    · split
      · rfl
      · split
        · exact permissions_permissionTool C _ agentId params clock h
        · rfl

/-- A tool other than `permission.grant` and `permission.revoke` leaves the permissions. -/
theorem permissions_executeTool (h : name ∉ permissionTools) :
    (k.executeTool C name params agentId clock).1.permissions = k.permissions := by
  unfold executeTool
  split
  · rfl
  · exact permissions_executeToolImpl C k agentId params clock h

/-- The verb reads the name of the tool as the checks do. -/
theorem permissions_coreExec {action : String}
    (h : mapRequestToAction (.coreExec action params agentId) ≠ .managePermissions) :
    (k.coreExec C action params agentId clock).1.permissions = k.permissions := by
  unfold coreExec
  split
  · have htool : strParam params "tool" "" ∉ permissionTools := by
      intro hmem
      apply h
      refine if_pos ⟨rfl, ?_⟩
      unfold strParam at hmem
      cases hname : (params.get "tool").bind Value.asStr with
      | none =>
        rw [hname] at hmem
        exact absurd hmem (by decide)
      | some name =>
        rw [hname] at hmem
        exact List.mem_map_of_mem hmem
    exact permissions_executeTool C _ agentId _ clock htool
  · rfl
  · rfl

theorem permissions_recordAgent : (k.recordAgent C req).permissions = k.permissions := by
  unfold recordAgent
  split <;> rfl

/-- A request that does not count as managing permissions leaves them. -/
theorem permissions_route (h : mapRequestToAction req ≠ .managePermissions) :
    (k.route C req clock).1.permissions = k.permissions := by
  unfold route
  split
  · exact absurd rfl h
  · exact absurd rfl h
  · rfl
  · split <;> rfl
  · rename_i tool params agentId
    have htool : tool ∉ permissionTools := fun hmem => h (if_pos hmem)
    exact permissions_executeTool C k agentId params clock htool
  · exact permissions_coreExec C k _ _ clock h
  · rfl

end

/-! ## One request, and histories of them -/

/-- A request from outside that changes the permissions comes from a manager. -/
theorem managerRequest_of_changed (C : Components σ ρ) {k : GuardedKernel σ}
    (h : (k.handleApiRequest C req clock).1.permissions ≠ k.permissions) :
    ManagerRequest k.toSecurityState clock req := by
  unfold handleApiRequest handleApiRequestWithOrigin at h
  cases hvalid : k.validateSecurityForOrigin req false clock with
  | error e =>
    rw [hvalid] at h
    exact absurd rfl h
  | ok u =>
    rw [hvalid] at h
    have haction : mapRequestToAction req = .managePermissions := by
      by_contra hother
      apply h
      calc ((k.recordAgent C req).route C req clock).1.permissions
          = (k.recordAgent C req).permissions := permissions_route C _ clock hother
        _ = k.permissions := permissions_recordAgent C k
    exact managerRequest_of_action haction (byManager_of_validate haction hvalid)

/-- In every history, the grants of an agent change only while a request of a manager is processed: sent by itself,
or carried by an intent. -/
theorem grants_changed_by_manager (C : Components σ ρ) (k : GuardedKernel σ) (before : List ServiceStep)
    (step : ServiceStep) (agentId : String)
    (changed : (serve C k (before ++ [step])).permissions.listGrants agentId ≠
      (serve C k before).permissions.listGrants agentId) :
    ∃ req, step.processed C = some req ∧
      ManagerRequest (serve C k before).toSecurityState step.clock req := by
  have hstep : serve C k (before ++ [step]) = step.apply C (serve C k before) := by
    simp [serve]
  rw [hstep] at changed
  unfold ServiceStep.apply at changed
  cases hreq : step.processed C with
  | none =>
    rw [hreq] at changed
    exact absurd rfl changed
  | some req =>
    rw [hreq] at changed
    refine ⟨req, rfl, managerRequest_of_changed C fun hsame => changed ?_⟩
    exact congrArg (·.listGrants agentId) hsame

/-! ## A manager at work -/

/-- Components that do nothing. -/
def idleComponents : Components Unit Unit where
  toLowercase := id
  debugNames := fun _ => ""
  fromStr := fun _ => none
  hookBlocks := fun _ _ _ _ => none
  postHooks := fun _ _ _ _ => ()
  allowedTools := fun _ _ => []
  recordToolCall := fun _ _ => ()
  externalTool := fun _ _ => none
  builtinTool := fun k _ _ _ => (k.keyStore, (), .ok .null)
  ensureAgentRegistered := fun _ _ => ()
  recordSkill := fun _ _ _ _ => ()
  markFixed := fun _ _ => ()
  handle := fun k _ _ => (k.keyStore, (), ())
  finish := fun _ _ => ()

/-- Alice has a token and manages permissions. -/
def managedKernel : GuardedKernel Unit where
  permissions := new.grant "alice" (.new .managePermissions)
  keyStore := ⟨AList.singleton "alice" ⟨"alice", "secret", none⟩, .optional⟩
  rest := ()

def aliceGrants : ServiceStep :=
  .request (.grantPermission "bob" (some "alice") (some "secret") "delete" none none) ⟨5, 5⟩

theorem alice_grants_delete :
    (serve idleComponents managedKernel [aliceGrants]).permissions.listGrants "bob" = [.new .delete] ∧
      ∃ req, aliceGrants.processed idleComponents = some req ∧
        ManagerRequest (serve idleComponents managedKernel []).toSecurityState aliceGrants.clock req := by
  have hgrants : (serve idleComponents managedKernel [aliceGrants]).permissions.listGrants "bob" = [.new .delete] := by
    decide
  refine ⟨hgrants, grants_changed_by_manager idleComponents managedKernel [] aliceGrants "bob" ?_⟩
  decide

end Plico.Kernel
