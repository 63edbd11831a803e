import Mathlib.Data.List.Induction
import Plico.Framework.Run
import Plico.Model.Scheduler.Agent

/-!
# Names of agents

As long as nothing is removed and every new agent has a name of its own, the index finds each agent by its name,
before a restart and after it.
-/

namespace Plico.Scheduler

open Option AgentRegistry AgentScheduler List

variable {s s' : AgentScheduler} {agents agents' : List Agent} {agent : Agent} {name : String}

/-- Agents with a name, no two of them with one id or one name. -/
structure Named (agents : List Agent) : Prop where
  nonempty : ∀ a ∈ agents, a.name ≠ ""
  distinct : ∀ a ∈ agents, ∀ b ∈ agents, a.id = b.id ∨ a.name = b.name → a = b

theorem Named.of_subset (h : Named agents) (hsub : agents' ⊆ agents) : Named agents' :=
  ⟨fun a ha => h.nonempty a (hsub ha), fun a ha b hb => h.distinct a (hsub ha) b (hsub hb)⟩

theorem Named.concat (h : Named agents) (hname : agent.name ≠ "")
    (hnew : ∀ a ∈ agents, a.id ≠ agent.id ∧ a.name ≠ agent.name) : Named (agents ++ [agent]) := by
  refine ⟨fun a ha => ?_, fun a ha b hb heq => ?_⟩
  · obtain ha | rfl := mem_concat.mp ha
    · exact h.nonempty a ha
    · exact hname
  · rw [mem_concat] at ha hb
    rcases ha with ha | rfl <;> rcases hb with hb | rfl
    · exact h.distinct a ha b hb heq
    · exact absurd heq (not_or.mpr (hnew a ha))
    · exact absurd (heq.imp Eq.symm Eq.symm) (not_or.mpr (hnew b hb))
    · rfl

/-- The scheduler has these agents, under their ids and their names. -/
structure Holds (s : AgentScheduler) (agents : List Agent) : Prop where
  byId : ∀ id a, s.agents.lookup id = some a ↔ a ∈ agents ∧ a.id = id
  byName : ∀ name id, s.nameIndex.lookup name = some id ↔ ∃ a ∈ agents, a.name = name ∧ a.id = id

theorem Holds.congr (h : Holds s agents) (hsame : ∀ a, a ∈ agents ↔ a ∈ agents') : Holds s agents' :=
  ⟨by simpa only [hsame] using h.byId, by simpa only [hsame] using h.byName⟩

theorem Holds.register (h : Holds s agents) (hnamed : Named (agents ++ [agent])) :
    Holds (s.register agent) (agents ++ [agent]) := by
  have hagent : agent ∈ agents ++ [agent] := mem_concat.mpr (.inr rfl)
  constructor
  · intro id a
    rw [AgentScheduler.register]
    by_cases hid : id = agent.id
    · subst hid
      rw [AList.lookup_insert, some.injEq]
      exact ⟨fun heq => heq ▸ ⟨hagent, rfl⟩, fun ⟨ha, hid⟩ => hnamed.distinct agent hagent a ha (.inl hid.symm)⟩
    · rw [AList.lookup_insert_ne hid, h.byId, mem_concat, or_and_right]
      exact ⟨.inl, fun ha => ha.resolve_right fun ⟨heq, ha⟩ => hid (heq ▸ ha.symm)⟩
  · intro name id
    rw [AgentScheduler.register, if_neg (hnamed.nonempty agent hagent)]
    by_cases hname : name = agent.name
    · subst hname
      rw [AList.lookup_insert, some.injEq]
      refine ⟨fun heq => ⟨agent, hagent, rfl, heq⟩, ?_⟩
      rintro ⟨a, ha, hname, rfl⟩
      rw [hnamed.distinct agent hagent a ha (.inr hname.symm)]
    · rw [AList.lookup_insert_ne hname, h.byName]
      simp only [mem_concat, or_and_right, exists_or, exists_eq_left, Ne.symm hname, false_and, or_false]

theorem holds_restoreAgents (h : Named agents) : Holds (.restoreAgents agents) agents := by
  induction agents using List.reverseRecOn with
  | nil => exact ⟨by simp [restoreAgents], by simp [restoreAgents]⟩
  | append_singleton agents agent ih =>
    rw [restoreAgents, foldl_append]
    exact (ih (h.of_subset (subset_append_left ..))).register h

theorem Holds.mem_snapshotAgents (h : Holds s agents) : agent ∈ s.snapshotAgents ↔ agent ∈ agents := by
  have hlookup : agent ∈ s.snapshotAgents ↔ ∃ id, s.agents.lookup id = some agent := by
    simp [snapshotAgents, ← mem_def, AList.mem_lookup_iff]
  simp [hlookup, h.byId]

theorem Holds.mem_iff (h : Holds s agents) {id : String} : id ∈ s.agents ↔ ∃ a ∈ agents, a.id = id := by
  simp only [← AList.lookup_isSome, isSome_iff_exists, h.byId]

theorem Holds.resolve_eq (h : Holds s agents) (h' : Holds s' agents) : s.resolve name = s'.resolve name := by
  have hindex := ext fun id => (h.byName name id).trans (h'.byName name id).symm
  simp only [resolve, h.mem_iff, h'.mem_iff, hindex]

/-- The agent has a name, and no other has its id or its name. -/
def IsNew (s : AgentRegistry) (name id : String) : Prop :=
  name ≠ "" ∧ ∀ a ∈ s.scheduler.snapshotAgents, a.id ≠ id ∧ a.name ≠ name

/-- Nothing is removed, and the agents that are added are new. -/
def RegistryAction.Orderly (s : AgentRegistry) : RegistryAction → Prop
  | .registerAgent name id => IsNew s name id
  | .ensureAgentRegistered name id => s.scheduler.resolve name = none → IsNew s name id
  | .remove _ => False
  | .restart _ => True

structure Registered (s : AgentRegistry) : Prop where
  named : Named s.persisted
  holds : Holds s.scheduler s.persisted

theorem Registered.restored {s : AgentRegistry} (h : Registered s) {order : List Agent}
    (hperm : order.Perm s.persisted) : Holds (.restoreAgents order) s.persisted :=
  (holds_restoreAgents (h.named.of_subset hperm.subset)).congr fun _ => hperm.mem_iff

theorem Registered.step {toLowercase : String → String} (s : AgentRegistry) (action : RegistryAction)
    (h : Registered s) (horderly : action.Orderly s) : Registered (s.step toLowercase action) := by
  have hadd {name id : String} (hnew : IsNew s name id) : Registered (s.addAgent name id) := by
    have hnamed : Named (s.persisted ++ [.new id name]) :=
      h.named.concat hnew.1 fun a ha => hnew.2 a (h.holds.mem_snapshotAgents.mpr ha)
    have hholds := h.holds.register hnamed
    exact ⟨hnamed.of_subset fun _ => hholds.mem_snapshotAgents.mp, hholds.congr fun _ => hholds.mem_snapshotAgents.symm⟩
  unfold AgentRegistry.step
  cases action with
  | registerAgent name id =>
    dsimp only
    split
    · exact h
    · exact hadd horderly
  | ensureAgentRegistered name id =>
    dsimp only
    split
    · exact h
    · next hnone => exact hadd (horderly (by simpa using hnone))
  | remove id => exact horderly.elim
  | restart order =>
    dsimp only
    split
    · next hperm => exact ⟨h.named, h.restored hperm⟩
    · exact h

/-- While nothing is removed and no name is used twice, a name that is no id is resolved exactly when an agent has it,
to such an agent, and a restart changes no answer. -/
theorem resolve_stable (toLowercase : String → String) {actions : List RegistryAction}
    (h : Throughout (step toLowercase) (fun s action => action.Orderly s) .start actions) :
    let s := actions.foldl (step toLowercase) .start
    (∀ name, name ∉ s.scheduler.agents →
      ((s.scheduler.resolve name).isSome ↔ ∃ a ∈ s.scheduler.snapshotAgents, a.name = name) ∧
      ∀ id, s.scheduler.resolve name = some id → ∃ a, s.scheduler.agents.lookup id = some a ∧ a.name = name) ∧
    ∀ order, order.Perm s.persisted → ∀ name,
      (restoreAgents order).resolve name = s.scheduler.resolve name := by
  intro s
  have hnil : Named [] := ⟨by simp, by simp⟩
  have hs : Registered s := h.invariant Registered.step ⟨hnil, holds_restoreAgents hnil⟩
  refine ⟨fun name hname => ?_, fun order hperm name => (hs.restored hperm).resolve_eq hs.holds⟩
  rw [resolve, if_neg hname]
  simp only [isSome_iff_exists, hs.holds.byName, hs.holds.byId, hs.holds.mem_snapshotAgents]
  grind

/-- An agent that is registered once, although it is asked for twice, and found by its name after restarts. -/
theorem registered_resolves :
    let actions := [.ensureAgentRegistered "a" "1", .ensureAgentRegistered "a" "2", .registerAgent "b" "2",
      .restart [.new "2" "b", .new "1" "a"]]
    let s := actions.foldl (step id) .start
    s.scheduler.resolve "a" = some "1" ∧ ∀ order, order.Perm s.persisted →
      (restoreAgents order).resolve "a" = some "1" := by
  intro actions s
  have horderly : Throughout (step id) (fun s action => action.Orderly s) .start actions := by
    refine ⟨fun _ => ⟨by decide, by decide⟩, fun hnone => ?_, ⟨by decide, by decide⟩, trivial, trivial⟩
    exact absurd hnone (by decide)
  exact ⟨by decide, fun order hperm => ((resolve_stable id horderly).2 order hperm "a").trans (by decide)⟩

/-- Of two agents with one name the one that was registered last is found, and after a restart perhaps the other. A
removed agent is still found by its name. -/
theorem resolution_changes :
    let s := [.registerAgent "a" "1", .registerAgent "a" "2"].foldl (step id) .start
    s.scheduler.resolve "a" = some "2" ∧
      (s.step id (.restart [.new "2" "a", .new "1" "a"])).scheduler.resolve "a" = some "1" ∧
    let s := [.registerAgent "a" "1", .remove "1"].foldl (step id) .start
    s.scheduler.resolve "a" = some "1" ∧ s.scheduler.snapshotAgents = [] := by
  decide

end Plico.Scheduler
