import Mathlib.Data.List.Induction
import Plico.Model.Kernel.Permission

/-!
# What a grant authorises

`Holds` says from the history of the registry alone which grants an agent has: those given to it and not
taken away since. `mem_listGrants` shows that the registry holds exactly these. Each check allows what one of
these grants authorises (`Authorised`): an unexpired one for the action whose scope admits the exercised one. A check
that exercises no scope asks for none.
-/

namespace Plico.Kernel

open PermissionContext PermissionGrant AList List PermissionGuard

variable {scope : Option String}

/-! ## Histories -/

/-- The changes of the registry. -/
inductive GuardOp where
  | grant (agentId : String) (g : PermissionGrant)
  | revoke (agentId : String) (action : PermissionAction)
  | revokeAll (agentId : String)
  | restore (table : GrantTable)

def GuardOp.apply (guard : PermissionGuard) : GuardOp → PermissionGuard
  | .grant agentId g => guard.grant agentId g
  | .revoke agentId action => guard.revoke agentId action
  | .revokeAll agentId => guard.revokeAll agentId
  | .restore table => guard.restore table

/-- The guard after a history of changes. -/
def guardAfter (history : List GuardOp) : PermissionGuard :=
  history.foldl GuardOp.apply .new

/-- The operation gives `g` to the agent. -/
def GuardOp.Gives (agentId : String) (g : PermissionGrant) : GuardOp → Prop
  | .grant agent given => agent = agentId ∧ given = g
  | .restore table => ∃ given ∈ table.lookup agentId, g ∈ given
  | .revoke .. | .revokeAll _ => False

/-- The operation takes `g` from the agent. -/
def GuardOp.Takes (agentId : String) (g : PermissionGrant) : GuardOp → Prop
  | .revoke agent action => agent = agentId ∧ action = g.action
  | .revokeAll agent => agent = agentId
  | .grant .. | .restore _ => False

/-- `g` was given to the agent and has not been taken since. -/
def Holds (history : List GuardOp) (agentId : String) (g : PermissionGrant) : Prop :=
  ∃ before op later, history = before ++ op :: later ∧ op.Gives agentId g ∧ ∀ next ∈ later, ¬ next.Takes agentId g

variable {history : List GuardOp} {agentId : String} {g : PermissionGrant} {action : PermissionAction}
  {guard : PermissionGuard} {table : GrantTable} {op : GuardOp} {now : Nat} {other : String}

theorem holds_concat :
    Holds (history ++ [op]) agentId g ↔ op.Gives agentId g ∨ (Holds history agentId g ∧ ¬ op.Takes agentId g) := by
  constructor
  · rintro ⟨before, given, later, heq, hgives, hkept⟩
    rcases eq_nil_or_concat later with rfl | ⟨init, last, rfl⟩
    · obtain ⟨-, hlast⟩ := append_inj' heq rfl
      obtain rfl : op = given := by simpa using hlast
      exact .inl hgives
    · rw [concat_eq_append, ← cons_append, ← append_assoc] at heq
      obtain ⟨rfl, hlast⟩ := append_inj' heq rfl
      obtain rfl : op = last := by simpa using hlast
      refine .inr ⟨⟨before, given, init, rfl, hgives, fun next hn => hkept next ?_⟩, hkept op ?_⟩ <;> simp [*]
  · rintro (hgives | ⟨⟨before, given, later, rfl, hgives, hkept⟩, hnot⟩)
    · exact ⟨history, op, [], rfl, hgives, by simp⟩
    · exact ⟨before, given, later ++ [op], by simp, hgives,
        forall_mem_append.mpr ⟨hkept, forall_mem_singleton.mpr hnot⟩⟩

/-! ## The registry -/

theorem listGrants_addGrants {added : List PermissionGrant} :
    ((addGrants table agentId added).lookup other).getD [] =
      (table.lookup other).getD [] ++ if other = agentId then added else [] := by
  unfold addGrants
  by_cases h : other = agentId
  · subst h
    simp
  · simp [h]

theorem listGrants_revoke :
    (guard.revoke agentId action).listGrants other =
      if other = agentId then (guard.listGrants other).filter fun g => g.action ≠ action
      else guard.listGrants other := by
  unfold PermissionGuard.revoke listGrants
  by_cases h : other = agentId
  · subst h
    cases hheld : guard.grants.lookup other with
    | none => simp [hheld]
    | some held =>
      simp only [Option.getD_some]
      split
      · rename_i hempty
        rw [lookup_erase, isEmpty_iff.mp hempty]
        rfl
      · rw [lookup_insert]
        rfl
  · rw [if_neg h]
    cases hheld : guard.grants.lookup agentId with
    | none => rfl
    | some held =>
      simp only
      split
      · rw [lookup_erase_ne h]
      · rw [lookup_insert_ne h]

/-- Restoring a table adds, for each agent, the grants that the table has for it. -/
theorem mem_foldl_addGrants {entries : List (Sigma fun _ : String => List PermissionGrant)} :
    g ∈ ((entries.foldl (fun grants entry => addGrants grants entry.1 entry.2) table).lookup agentId).getD [] ↔
      g ∈ (table.lookup agentId).getD [] ∨ ∃ given, ⟨agentId, given⟩ ∈ entries ∧ g ∈ given := by
  induction entries generalizing table with
  | nil => simp
  | cons entry rest ih =>
    obtain ⟨agent, given⟩ := entry
    rw [foldl_cons, ih, listGrants_addGrants]
    by_cases h : agentId = agent <;> simp [h, or_and_right, exists_or, or_assoc]

theorem mem_restore :
    g ∈ (guard.restore table).listGrants agentId ↔
      g ∈ guard.listGrants agentId ∨ ∃ given ∈ table.lookup agentId, g ∈ given := by
  unfold PermissionGuard.restore listGrants
  rw [mem_foldl_addGrants]
  simp only [mem_lookup_iff.symm]

theorem mem_apply :
    g ∈ (op.apply guard).listGrants agentId ↔
      op.Gives agentId g ∨ (g ∈ guard.listGrants agentId ∧ ¬ op.Takes agentId g) := by
  cases op with
  | grant agent given =>
    show g ∈ ((addGrants guard.grants agent [given]).lookup agentId).getD [] ↔ _
    rw [listGrants_addGrants, mem_append]
    simp only [GuardOp.Gives, GuardOp.Takes, not_false_eq_true, and_true]
    rw [or_comm]
    refine or_congr ?_ Iff.rfl
    by_cases h : agentId = agent
    · simp [eq_comm]
    · simp [h, Ne.symm h]
  | revoke agent action =>
    show g ∈ (guard.revoke agent action).listGrants agentId ↔ _
    rw [listGrants_revoke]
    by_cases h : agentId = agent
    · subst h
      simp [GuardOp.Gives, GuardOp.Takes, @eq_comm _ action]
    · simp [h, Ne.symm h, GuardOp.Gives, GuardOp.Takes]
  | revokeAll agent =>
    show g ∈ ((guard.grants.erase agent).lookup agentId).getD [] ↔ _
    by_cases h : agentId = agent
    · subst h
      simp [GuardOp.Gives, GuardOp.Takes]
    · simp [lookup_erase_ne h, Ne.symm h, GuardOp.Gives, GuardOp.Takes, listGrants]
  | restore table =>
    show g ∈ (guard.restore table).listGrants agentId ↔ _
    rw [mem_restore]
    simp only [GuardOp.Takes, not_false_eq_true, and_true]
    exact or_comm

/-- The registry holds exactly the grants that were given and not taken since. -/
theorem mem_listGrants : g ∈ (guardAfter history).listGrants agentId ↔ Holds history agentId g := by
  induction history using List.reverseRecOn with
  | nil =>
    simp only [guardAfter, foldl_nil, PermissionGuard.new, listGrants, lookup_empty, Option.getD_none,
      not_mem_nil, false_iff]
    rintro ⟨before, op, later, h, -⟩
    simp at h
  | append_singleton history op ih =>
    rw [holds_concat, ← ih, guardAfter, foldl_append]
    exact mem_apply

theorem trustedAgents_guardAfter : (guardAfter history).trustedAgents = ["kernel", "system"] := by
  induction history using List.reverseRecOn with
  | nil => rfl
  | append_singleton history op ih =>
    rw [guardAfter, foldl_append]
    refine Eq.trans ?_ ih
    cases op with
    | grant | revokeAll | restore => rfl
    | revoke agentId action =>
      show ((guardAfter history).revoke agentId action).trustedAgents = _
      unfold PermissionGuard.revoke
      split
      · rfl
      · simp only
        split <;> rfl

/-! ## Terms -/

/-- The grant has not expired. -/
def PermissionGrant.Unexpired (g : PermissionGrant) (now : Nat) : Prop :=
  ∀ expiry ∈ g.expiresAt, now ≤ expiry

/-- The grant is for the action, or for all of them. -/
def PermissionGrant.IsFor (g : PermissionGrant) (action : PermissionAction) : Prop :=
  g.action = action ∨ g.action = .all

/-- The exercised scope matches the granted one: both are the same, or the granted one is a pattern `stem*` and the
exercised one starts with the stem. -/
def ScopeMatch (granted exercised : String) : Prop :=
  granted = exercised ∨ ∃ stem, utf8 granted = stem ++ utf8 "*" ∧ stem <+: utf8 exercised

/-- A grant without a scope admits every scope, and every grant admits a check that exercises none. -/
def PermissionGrant.Admits (g : PermissionGrant) (scope : Option String) : Prop :=
  ∀ granted ∈ g.scope, ∀ exercised ∈ scope, ScopeMatch granted exercised

theorem globMatches_iff {granted exercised : String} :
    globMatches granted exercised = true ↔ ∃ stem, utf8 granted = stem ++ utf8 "*" ∧ stem <+: utf8 exercised := by
  have hstar : utf8 "*" = [42] := rfl
  simp only [globMatches, Bool.and_eq_true, beq_iff_eq, isPrefixOf_iff_prefix, hstar]
  constructor
  · rintro ⟨hlast, hstem⟩
    exact ⟨_, (dropLast_append_getLast? 42 hlast).symm, hstem⟩
  · rintro ⟨stem, hgranted, hstem⟩
    simp [hgranted, hstem]

theorem scopeMatches_iff : scopeMatches g.scope scope = true ↔ g.Admits scope := by
  unfold PermissionGrant.Admits scopeMatches
  cases g.scope <;> cases scope <;> simp [ScopeMatch, globMatches_iff]

theorem coversScoped_iff :
    g.coversScoped action scope now = true ↔ g.Unexpired now ∧ g.IsFor action ∧ g.Admits scope := by
  have hexpired : (g.expiresAt.any fun expiry => decide (now > expiry)) = true ↔ ¬ g.Unexpired now := by
    unfold PermissionGrant.Unexpired
    cases g.expiresAt <;> simp
  have hother : (g.action ≠ .all ∧ g.action ≠ action) ↔ ¬ g.IsFor action := by
    rw [PermissionGrant.IsFor, not_or, and_comm]
  unfold coversScoped
  by_cases hu : g.Unexpired now <;> by_cases hf : g.IsFor action <;>
    simp [hexpired, hother, hu, hf, scopeMatches_iff]

/-- Some grant that satisfies `held` authorises the action: it has not expired, it is for the action, and it admits the
exercised scope. -/
def Authorised (held : PermissionGrant → Prop) (action : PermissionAction) (scope : Option String) (now : Nat) : Prop :=
  ∃ g, held g ∧ g.Unexpired now ∧ g.IsFor action ∧ g.Admits scope

theorem authorised_iff {held : PermissionGrant → Prop} :
    Authorised held action scope now ↔ ∃ g, held g ∧ g.coversScoped action scope now = true := by
  simp only [Authorised, coversScoped_iff]

/-! ## The checks -/

/-- The grants that count at a check: those the agent holds and those its context carries. -/
def HeldBy (history : List GuardOp) (ctx : PermissionContext) (g : PermissionGrant) : Prop :=
  Holds history ctx.agentId g ∨ g ∈ ctx.embeddedGrants

theorem isTrusted_guardAfter (h : agentId ∉ ["kernel", "system"]) : (guardAfter history).isTrusted agentId = false := by
  unfold isTrusted
  rw [trustedAgents_guardAfter]
  simpa using h

section

variable {history : List GuardOp} {ctx : PermissionContext} {now : Nat}

variable {action : PermissionAction}

theorem exists_covering_iff :
    (∃ g, HeldBy history ctx g ∧ g.coversScoped action scope now = true) ↔
      (ctx.embeddedGrants.any fun g => g.coversScoped action scope now) = true ∨
        (((guardAfter history).listGrants ctx.agentId).any fun g => g.coversScoped action scope now) = true := by
  simp only [any_eq_true, mem_listGrants, HeldBy, or_and_right, exists_or]
  exact or_comm

theorem check_ok_iff (hagent : ctx.agentId ∉ ["kernel", "system"]) (hread : action ≠ .read) (hwrite : action ≠ .write) :
    (guardAfter history).check ctx action now = .ok () ↔
      ∃ g, HeldBy history ctx g ∧ g.coversScoped action none now = true := by
  have hdefault : defaultPolicy ctx.agentId action ≠ .ok () := by
    cases action <;> simp_all [defaultPolicy]
  rw [exists_covering_iff]
  unfold PermissionGuard.check hasPermission covers
  rw [isTrusted_guardAfter hagent, if_neg Bool.false_ne_true]
  split
  · simp [*]
  · split <;> simp [*]

theorem checkScoped_ok_iff (hagent : ctx.agentId ∉ ["kernel", "system"]) (hread : action ≠ .read)
    (hwrite : action ≠ .write) :
    (guardAfter history).checkScoped ctx action scope now = .ok () ↔
      ∃ g, HeldBy history ctx g ∧ g.coversScoped action scope now = true := by
  have hdefault : defaultPolicyScoped ctx.agentId action scope ≠ .ok () := by
    cases action <;> simp_all [defaultPolicyScoped]
  rw [exists_covering_iff]
  unfold PermissionGuard.checkScoped
  rw [isTrusted_guardAfter hagent, if_neg Bool.false_ne_true]
  split
  · simp [*]
  · split <;> simp [*]

/-- A grant of everything covers reading foreign objects, so asking for it as well changes nothing. -/
theorem grantsReadAny_iff : (guardAfter history).grantsReadAny agentId now = true ↔
    ∃ g, Holds history agentId g ∧ g.coversScoped .readAny none now = true := by
  have hall : ∀ g : PermissionGrant, g.covers .all now = true → g.covers .readAny now = true := by
    intro g h
    unfold covers at h ⊢
    rw [coversScoped_iff] at h ⊢
    refine ⟨h.1, .inr ?_, h.2.2⟩
    exact h.2.1.elim id id
  unfold grantsReadAny
  simp only [any_eq_true, Bool.or_eq_true, mem_listGrants]
  refine exists_congr fun g => and_congr_right fun _ => ?_
  exact ⟨fun h => h.elim id (hall g), .inl⟩

theorem checkOwnership_ok_iff (hagent : ctx.agentId ∉ ["kernel", "system"]) {ownerId : String}
    (howner : ctx.agentId ≠ ownerId) :
    (guardAfter history).checkOwnership ctx ownerId now = .ok () ↔
      ∃ g, HeldBy history ctx g ∧ g.coversScoped .readAny none now = true := by
  have hsplit : (∃ g, HeldBy history ctx g ∧ g.coversScoped .readAny none now = true) ↔
      (guardAfter history).grantsReadAny ctx.agentId now = true ∨ ctx.hasPermission .readAny now = true := by
    rw [grantsReadAny_iff]
    simp only [HeldBy, or_and_right, exists_or, hasPermission, any_eq_true]
    exact Iff.rfl
  unfold PermissionGuard.checkOwnership
  rw [if_neg howner, isTrusted_guardAfter hagent, if_neg Bool.false_ne_true]
  split
  · simp [*]
  · split <;> simp [*]

theorem canReadAny_iff (hagent : ctx.agentId ∉ ["kernel", "system"]) :
    (guardAfter history).canReadAny ctx.agentId now = true ↔
      ∃ g, Holds history ctx.agentId g ∧ g.coversScoped .readAny none now = true := by
  unfold canReadAny
  rw [isTrusted_guardAfter hagent, Bool.false_or, grantsReadAny_iff]

end

/-- Each of the four checks allows exactly what a grant authorises that the agent holds. -/
theorem checks_within_terms (history : List GuardOp) (ctx : PermissionContext) (now : Nat)
    (hagent : ctx.agentId ∉ ["kernel", "system"]) :
    (∀ action, action ≠ .read → action ≠ .write →
      ((guardAfter history).check ctx action now = .ok () ↔ Authorised (HeldBy history ctx) action none now) ∧
      ∀ scope, (guardAfter history).checkScoped ctx action scope now = .ok () ↔
        Authorised (HeldBy history ctx) action scope now) ∧
    ((guardAfter history).canReadAny ctx.agentId now = true ↔
      Authorised (Holds history ctx.agentId) .readAny none now) ∧
    ∀ ownerId, ctx.agentId ≠ ownerId →
      ((guardAfter history).checkOwnership ctx ownerId now = .ok () ↔
        Authorised (HeldBy history ctx) .readAny none now) := by
  simp only [authorised_iff]
  exact ⟨fun _ hread hwrite =>
      ⟨check_ok_iff hagent hread hwrite, fun _ => checkScoped_ok_iff hagent hread hwrite⟩,
    canReadAny_iff hagent, fun _ => checkOwnership_ok_iff hagent⟩

/-- A grant for a pattern of scopes authorises a scope of the pattern until it expires. -/
theorem checks_within_terms_sample :
    let history := [.grant "agent1" ⟨.delete, some "cid:*", some 1700000000000⟩]
    Authorised (HeldBy history (.new "agent1" "default")) .delete (some "cid:a") 1700000000000 ∧
      ¬ Authorised (HeldBy history (.new "agent1" "default")) .delete (some "cid:a") 1700000000001 := by
  intro history
  have h := fun now => (((checks_within_terms history (.new "agent1" "default") now (by decide)).1 .delete
    (by decide) (by decide)).2 (some "cid:a"))
  refine ⟨(h _).mp rfl, fun hlate => ?_⟩
  cases (h _).mpr hlate

/-- A grant for one object authorises the deletion of every object: no grant that the agent holds is without a scope. -/
theorem scoped_grant_deletes_everything :
    let history := [.grant "agent1" ⟨.delete, some "cid:a", none⟩]
    (guardAfter history).check (.new "agent1" "default") .delete 0 = .ok () ∧
      ∀ g, HeldBy history (.new "agent1" "default") g → g.scope = some "cid:a" := by
  refine ⟨rfl, ?_⟩
  rintro g (hg | hg)
  · rw [← mem_listGrants] at hg
    cases mem_singleton.mp hg
    rfl
  · cases hg

end Plico.Kernel
