import Mathlib.Data.List.Induction
import Plico.Proof.Scheduler.Dispatch

/-!
# When an agent's intents run

The check that a task makes under the lock of its agent moves the agent to Running, from Created, Waiting or
Suspended; a suspended agent is thus resumed by its next intent. A terminal state is never left, so the check refuses
every intent from then on. What happens between the check and the call, or between a read of the state and the update
that follows it, is not prevented: a call can begin for an agent that was suspended or terminated meanwhile, and the
end of a call or of a submission moves a suspended agent to Waiting.
-/

namespace Plico.Scheduler

namespace DispatchSystem

variable {s : DispatchSystem} {action : DispatchAction} {i : Nat} {t : Task} {a : String} {state : AgentState}
  {target : AgentState} {actions : List DispatchAction} {elapsedMs : Nat}

/-! ## States -/

theorem canTransition_running : state.canTransition .running ↔ state ∈ [.created, .waiting, .suspended] := by
  cases state <;> decide

/-- A terminal state is never left. -/
theorem stateOf_step_of_terminal (h : s.stateOf a = some state) (hterminal : state.isTerminal) :
    (s.step action).stateOf a = some state := by
  rw [stateOf_step h]
  unfold after
  split
  · split
    · rw [AgentState.moved_of_terminal hterminal]
    · rfl
  · rfl

/-- A state that changes is changed by the update of the action. -/
theorem update_of_step (h : s.stateOf a = some state) (hstep : (s.step action).stateOf a = some target)
    (hne : target ≠ state) : s.update action = some (a, target) := by
  rw [stateOf_step h, Option.some.injEq] at hstep
  unfold after at hstep
  split at hstep
  · next id moved hupdate =>
    split at hstep
    · next ha =>
      subst ha
      unfold AgentState.moved at hstep
      split at hstep
      · rw [hupdate, hstep]
      · exact absurd hstep.symm hne
    · exact absurd hstep.symm hne
  · exact absurd hstep.symm hne

/-- Only the check of a task moves an agent to Running. -/
theorem check_of_running (hupdate : s.update action = some (a, .running)) : ∃ i elapsedMs t,
    action = .check i elapsedMs ∧ s.tasks[i]? = some t ∧ t.intent.agentId = some a ∧ t.phase = .locked := by
  cases action with
  | check i elapsedMs =>
    simp only [update] at hupdate
    split at hupdate
    · next intent call hi =>
      obtain ⟨id, hid, heq⟩ := Option.map_eq_some_iff.mp hupdate
      obtain rfl : id = a := congrArg Prod.fst heq
      exact ⟨i, elapsedMs, _, rfl, hi, hid, rfl⟩
    · cases hupdate
  | agentSuspend | agentResume | agentTerminate | submitStep | conclude =>
    -- no other action moves an agent to Running
    simp only [update] at hupdate
    repeat' split at hupdate
    all_goals simp at hupdate
  | _ => cases hupdate

/-- The action resumes the agent, or ends a successful call for it, or submits an intent for it. -/
def MovesToWaiting (s : DispatchSystem) (a : String) : DispatchAction → Prop
  | .agentResume nameOrId => s.scheduler.resolve nameOrId = some a
  | .conclude i _ =>
    ∃ intent text call, s.tasks[i]? = some ⟨intent, .settled (.ok text), call⟩ ∧ intent.agentId = some a
  | .submitStep n => ∃ intent, s.submitting[n]? = some (.first intent) ∧ intent.agentId.getD "" = a
  | _ => False

theorem movesToWaiting_of_update (hupdate : s.update action = some (a, .waiting)) : MovesToWaiting s a action := by
  cases action with
  | agentResume nameOrId => simpa [update, MovesToWaiting] using hupdate
  | submitStep n =>
    simp only [update] at hupdate
    split at hupdate
    · next intent hn => exact ⟨intent, hn, by simpa using hupdate⟩
    · cases hupdate
  | conclude i elapsedMs =>
    simp only [update] at hupdate
    split at hupdate
    · next intent text call hi => exact ⟨intent, text, call, hi, by simpa using hupdate⟩
    · simp at hupdate
    · cases hupdate
  | agentSuspend | agentTerminate | check =>
    -- these move an agent to another state
    simp only [update] at hupdate
    repeat' split at hupdate
    all_goals simp at hupdate
  | _ => cases hupdate

theorem suspended_step (h : s.stateOf a = some .suspended) (hstep : (s.step action).stateOf a = some target) :
    target = .suspended ∨ target = .terminated ∨ target = .running ∨ target = .waiting ∧ MovesToWaiting s a action := by
  by_cases hne : target = .suspended
  · exact .inl hne
  have hupdate := update_of_step h hstep hne
  have hmoved : AgentState.suspended.moved target = target := by
    rw [stateOf_step h, hupdate] at hstep
    simpa [after] using hstep
  cases target with
  | waiting => exact .inr (.inr (.inr ⟨rfl, movesToWaiting_of_update hupdate⟩))
  | _ => simp_all [AgentState.moved, AgentState.canTransition]

/-! ## Checks -/

/-- The task has passed its check. -/
def Passed (t : Task) : Prop := t.phase = .admitted ∨ t.call.isSome

/-- A task passes its check by the check alone. -/
theorem passed_step {u : Task} (hi : (s.step action).tasks[i]? = some u) (hpassed : Passed u) :
    (∃ t, s.tasks[i]? = some t ∧ Passed t ∧ t.intent = u.intent) ∨
      ∃ elapsedMs t, action = .check i elapsedMs ∧ s.tasks[i]? = some t ∧ t.intent = u.intent ∧ t.phase = .locked ∧
        ∀ a state, u.intent.agentId = some a → s.stateOf a = some state → state.canTransition .running := by
  have hstep := tasks_step action s
  generalize (s.step action).tasks = tasks at hi hstep
  cases hstep with
  | same => exact .inl ⟨u, hi, hpassed, rfl⟩
  | spawn =>
    rw [List.getElem?_append] at hi
    split at hi
    · exact .inl ⟨u, hi, hpassed, rfl⟩
    · obtain rfl := List.mem_singleton.mp (List.mem_of_getElem? hi)
      obtain hphase | hcall := hpassed
      · cases hphase
      · cases hcall
  | @move k t t' hk hmove =>
    obtain ⟨rfl, rfl⟩ | ⟨-, hiu⟩ := getElem?_set_eq_some hk hi
    · cases hmove with
      | accept hcan => exact .inr ⟨_, _, rfl, hk, rfl, rfl, hcan⟩
      | handOver => exact .inl ⟨_, hk, .inl rfl, rfl⟩
      | acquire | refuse | conclude | send =>
        exact .inl ⟨_, hk, .inr (hpassed.resolve_left (by rintro ⟨⟩)), rfl⟩
      | _ => exact .inl ⟨_, hk, .inr rfl, rfl⟩
    · exact .inl ⟨u, hiu, hpassed, rfl⟩

theorem stateOf_check_of_can (hi : s.tasks[i]? = some t) (hlocked : t.phase = .locked)
    (hta : t.intent.agentId = some a) (h : s.stateOf a = some state) (hcan : state.canTransition .running) :
    (s.step (.check i elapsedMs)).stateOf a = some .running := by
  obtain ⟨intent, phase, call⟩ := t
  cases hlocked
  have hupdate : s.update (.check i elapsedMs) = some (a, .running) := by
    have hagent : intent.agentId = some a := hta
    simp only [update, hi, hagent, Option.map_some]
  rw [stateOf_step h, hupdate]
  simp only [after, if_true, AgentState.moved, hcan]

/-- The failure that a task reports when its agent cannot be moved to Running. -/
def refusal (intent : Intent) (state : AgentState) (elapsedMs : Nat) : TaskPhase :=
  .reporting (.of intent (.error ("Cannot execute: " ++ TransitionError.display ⟨state, .running⟩)) elapsedMs)

/-- A check that cannot move the agent to Running ends in a failure, and no call is made. -/
theorem check_refused (hi : s.tasks[i]? = some t) (hlocked : t.phase = .locked)
    (hta : t.intent.agentId = some a) (h : s.stateOf a = some state) (hnot : state.canTransition .running = false) :
    (s.step (.check i elapsedMs)).tasks[i]? = some { t with phase := refusal t.intent state elapsedMs } := by
  obtain ⟨intent, phase, call⟩ := t
  cases hlocked
  obtain ⟨agent, hagent, hstate⟩ := Option.map_eq_some_iff.mp h
  have hresult : s.scheduler.updateState a .running = (.error ⟨state, .running⟩, s.scheduler) := by
    simp only [AgentScheduler.updateState, Agents.updateState, hagent, Agent.setState, hstate, hnot, Bool.false_eq_true,
      if_false]
  have hintent : intent.agentId = some a := hta
  simp only [step, check, hi, hintent, hresult]
  exact List.getElem?_set_self (List.getElem?_eq_some_iff.mp hi).1

/-! ## Runs -/

/-- Task `i` of agent `a` was let through by a check of the run. -/
def LetThrough (start : DispatchSystem) (actions : List DispatchAction) (i : Nat) (a : String) : Prop :=
  ∃ before elapsedMs later, actions = before ++ .check i elapsedMs :: later ∧
    ∀ state, (run start before).stateOf a = some state → state ∈ [.created, .waiting, .suspended] ∧
      ((run start before).step (.check i elapsedMs)).stateOf a = some .running

theorem LetThrough.concat {start : DispatchSystem} (h : LetThrough start actions i a)
    (action : DispatchAction) : LetThrough start (actions ++ [action]) i a := by
  obtain ⟨before, elapsedMs, later, rfl, hstate⟩ := h
  exact ⟨before, elapsedMs, later ++ [action], by simp, hstate⟩

theorem letThrough_of_passed {scheduler : AgentScheduler} {cpuTimeLimitMs : Nat}
    (hi : (run (.start scheduler cpuTimeLimitMs) actions).tasks[i]? = some t) (hpassed : Passed t)
    (hta : t.intent.agentId = some a) : LetThrough (.start scheduler cpuTimeLimitMs) actions i a := by
  induction actions using List.reverseRecOn generalizing t with
  | nil => cases hi
  | append_singleton actions action ih =>
    rw [run, List.foldl_append] at hi
    obtain ⟨u, hu, hbefore, hintent⟩ | ⟨elapsedMs, u, rfl, hu, hintent, hlocked, hcan⟩ := passed_step hi hpassed
    · exact (ih hu hbefore (hintent ▸ hta)).concat action
    · refine ⟨actions, elapsedMs, [], rfl, fun state hstate => ?_⟩
      have hrun := hcan a state hta hstate
      exact ⟨canTransition_running.mp hrun, stateOf_check_of_can hu hlocked (hintent ▸ hta) hstate hrun⟩

/-- Over every run: terminal states are final; an agent gets to Running by the check of one of its tasks only, and
from Suspended to Waiting only by a resume, by the end of a call for it or by a submission for it; a task has a call
only after such a check found its agent, if registered, in Created, Waiting or Suspended and moved it to Running; and
a check that finds it in another state ends in a failure. -/
theorem intents_run_when_let_through (scheduler : AgentScheduler) (cpuTimeLimitMs : Nat)
    (actions : List DispatchAction) : let start := DispatchSystem.start scheduler cpuTimeLimitMs
    let s := run start actions
    (∀ action a state, s.stateOf a = some state → state.isTerminal → (s.step action).stateOf a = some state) ∧
    (∀ action a state, s.stateOf a = some state → state ≠ .running → (s.step action).stateOf a = some .running →
      ∃ i elapsedMs t, action = .check i elapsedMs ∧ s.tasks[i]? = some t ∧ t.intent.agentId = some a ∧
        t.phase = .locked) ∧
    (∀ action a target, s.stateOf a = some .suspended → (s.step action).stateOf a = some target →
      target = .suspended ∨ target = .terminated ∨ target = .running ∨ target = .waiting ∧ MovesToWaiting s a action) ∧
    (∀ (i : Nat) (t : Task) (a : String), s.tasks[i]? = some t → t.call.isSome → t.intent.agentId = some a →
      LetThrough start actions i a) ∧
    ∀ (i elapsedMs : Nat) (t : Task) (a : String) (state : AgentState), s.tasks[i]? = some t → t.phase = .locked →
      t.intent.agentId = some a → s.stateOf a = some state → state ∉ [.created, .waiting, .suspended] →
        (s.step (.check i elapsedMs)).tasks[i]? = some { t with phase := refusal t.intent state elapsedMs } := by
  refine ⟨fun _ _ _ => stateOf_step_of_terminal,
    fun _ _ _ h hnot hrunning => check_of_running (update_of_step h hrunning hnot.symm),
    fun _ _ _ => suspended_step,
    fun i t a hi hcall hta => letThrough_of_passed hi (.inr hcall) hta,
    fun i elapsedMs t a state hi hlocked hta h hnot => check_refused hi hlocked hta h ?_⟩
  exact Bool.eq_false_iff.mpr fun hcan => hnot (canTransition_running.mp hcan)

section Samples

/-- What becomes of agent `a`: its state and the number of calls in progress for it. -/
def outcome (actions : List DispatchAction) : Option AgentState × Nat :=
  ((sampleSystem.run actions).stateOf "a", (sampleSystem.run actions).callsFor "a")

/-- The agent is suspended before the check of its first task. -/
def suspendedBefore : List DispatchAction := twoTasks ++ [.agentSuspend "worker" (.ok ()), .acquire 0]

/-- The first task has handed its intent over, and the call has not begun. -/
def handedOver : List DispatchAction := twoTasks ++ [.acquire 0, .check 0 0, .handOver 0]

/-- The check of a queued intent takes a suspended agent to Running; a call begins for an agent that was suspended or
terminated after the check; and the end of a call takes a suspended agent to Waiting. -/
theorem suspended_and_terminated_agents_run :
    (outcome suspendedBefore = (some .suspended, 0) ∧
      outcome (suspendedBefore ++ [.check 0 0, .handOver 0, .beginCall 0]) = (some .running, 1)) ∧
    (outcome (handedOver ++ [.agentSuspend "a" (.ok ())]) = (some .suspended, 0) ∧
      outcome (handedOver ++ [.agentSuspend "a" (.ok ()), .beginCall 0]) = (some .suspended, 1)) ∧
    (outcome (handedOver ++ [.agentTerminate "a"]) = (some .terminated, 0) ∧
      outcome (handedOver ++ [.agentTerminate "a", .beginCall 0]) = (some .terminated, 1)) ∧
    outcome (handedOver ++ [.beginCall 0, .agentSuspend "a" (.ok ()), .endCall 0 (.returned (.ok "")), .joined 0]) =
      (some .suspended, 0) ∧
    outcome (handedOver ++ [.beginCall 0, .agentSuspend "a" (.ok ()), .endCall 0 (.returned (.ok "")), .joined 0,
      .conclude 0 5]) = (some .waiting, 0) := by
  decide +kernel

end Samples

end DispatchSystem

end Plico.Scheduler
