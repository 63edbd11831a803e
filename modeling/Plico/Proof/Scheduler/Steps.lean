import Plico.Framework.Fold
import Plico.Framework.Run
import Plico.Model.Scheduler.Dispatch

/-!
# What one step of the dispatch system can do

A step changes agent states by at most one `update_state` (`DispatchSystem.update`, `stateOf_step`), and the tasks by
adding one that waits or by one move of one task (`TaskStep`, `tasks_step`). The results about runs use these two
descriptions and not the steps themselves.
-/

namespace Plico.Scheduler

open AgentScheduler

/-! ## Agent states -/

/-- The state after an attempt to change it. -/
def AgentState.moved (state target : AgentState) : AgentState := if state.canTransition target then target else state

variable {state : AgentState} {target : AgentState} {e : TransitionError}

theorem AgentState.canTransition_of_terminal (h : state.isTerminal) : state.canTransition target = false := by
  cases state <;> cases target <;> first | rfl | cases h

theorem AgentState.moved_of_terminal (h : state.isTerminal) : state.moved target = state :=
  if_neg (by rw [canTransition_of_terminal h]; exact Bool.false_ne_true)

theorem AgentState.isTerminal_moved_failed (h : state.canTransition .failed ∨ state.isTerminal) :
    (state.moved .failed).isTerminal := by
  cases state <;> first | rfl | exact absurd h (by decide)

namespace AgentScheduler

variable {s : AgentScheduler} {id a : String} {state : AgentState}

theorem stateOf_updateState :
    (s.updateState id target).2.stateOf a =
      if a = id then (s.stateOf id).map (·.moved target) else s.stateOf a := by
  unfold updateState Agents.updateState stateOf
  cases hid : s.agents.lookup id with
  | none =>
    by_cases ha : a = id
    · rw [if_pos ha, ha, hid]
      rfl
    · rw [if_neg ha]
  | some agent =>
    unfold Agent.setState
    by_cases hcan : agent.state.canTransition target <;> by_cases ha : a = id
    · subst ha
      simp [hcan, AgentState.moved]
    · simp [hcan, ha]
    · subst ha
      simp [hcan, hid, AgentState.moved]
    · simp [hcan, ha]

theorem updateState_eq_ok (h : (s.updateState id state).1 = .ok ()) {old : AgentState}
    (hold : s.stateOf id = some old) : old.canTransition state := by
  unfold updateState Agents.updateState at h
  obtain ⟨agent, hagent, rfl⟩ := Option.map_eq_some_iff.mp hold
  simp only [hagent, Agent.setState] at h
  by_contra hnot
  simp [hnot] at h

theorem updateState_eq_error (h : (s.updateState id state).1 = .error e) :
    ∃ old, s.stateOf id = some old ∧ old.canTransition state = false ∧ e = ⟨old, state⟩ := by
  unfold updateState Agents.updateState at h
  cases hid : s.agents.lookup id with
  | none => simp [hid] at h
  | some agent =>
    simp only [hid, Agent.setState] at h
    by_cases hcan : agent.state.canTransition state
    · simp [hcan] at h
    · simp only [hcan] at h
      refine ⟨agent.state, ?_, Bool.eq_false_iff.mpr hcan, (Except.error.inj h).symm⟩
      rw [stateOf, hid]
      rfl

end AgentScheduler

/-! ## The update of an action -/

namespace DispatchSystem

def stateOf (s : DispatchSystem) (a : String) : Option AgentState := s.scheduler.stateOf a

/-- The agent whose state an action tries to change, and the new state. -/
def update (s : DispatchSystem) : DispatchAction → Option (String × AgentState)
  | .agentSuspend nameOrId checkpoint =>
    match checkpoint with
    | .ok _ => (s.scheduler.resolve nameOrId).map (·, .suspended)
    | .error _ => none
  | .agentResume nameOrId => (s.scheduler.resolve nameOrId).map (·, .waiting)
  | .agentTerminate nameOrId => (s.scheduler.resolve nameOrId).map (·, .terminated)
  | .agentComplete id => some (id, .completed)
  | .agentFail id => some (id, .failed)
  | .submitStep n =>
    match s.submitting[n]? with
    | some (.first intent) => some (intent.agentId.getD "", .waiting)
    | _ => none
  | .check i _ =>
    match s.tasks[i]? with
    | some ⟨intent, .locked, _⟩ => intent.agentId.map (·, .running)
    | _ => none
  | .conclude i _ =>
    match s.tasks[i]? with
    | some ⟨intent, .settled (.ok _), _⟩ => intent.agentId.map (·, .waiting)
    | some ⟨intent, .settled (.error _), _⟩ => intent.agentId.map (·, .failed)
    | _ => none
  | _ => none

/-- The state of an agent after an update. -/
def after (update : Option (String × AgentState)) (a : String) (state : AgentState) : AgentState :=
  match update with
  | some (id, target) => if a = id then state.moved target else state
  | none => state

variable {s : DispatchSystem} {a : String} {state : AgentState} {scheduler : AgentScheduler} {id : String}
  {action : DispatchAction} {i : Nat}

/-- The scheduler after an update, whether it was accepted or not. -/
theorem stateOf_updated (h : scheduler.stateOf a = some state) :
    (scheduler.updateState id target).2.stateOf a = some (after (some (id, target)) a state) := by
  rw [stateOf_updateState]
  simp only [after]
  split
  · next ha =>
    subst ha
    rw [h]
    rfl
  · exact h

theorem registered (h : s.stateOf a = some state) : a ∈ s.scheduler.agents := by
  obtain ⟨agent, hagent, -⟩ := Option.map_eq_some_iff.mp h
  exact AList.lookup_isSome.mp (by rw [hagent]; rfl)

/-- Only the queue of the scheduler is changed by the loop. -/
theorem agents_loopStep {choice : Nat} : (s.loopStep choice).scheduler.agents = s.scheduler.agents := by
  unfold loopStep
  split
  · rfl
  · split
    · rfl
    · split <;> rfl
  · rfl
  · split
    · rfl
    · split <;> rfl
  · split <;> rfl
  · rfl

theorem stateOf_submitStep {n : Nat} (h : s.stateOf a = some state) :
    (s.submitStep n).stateOf a = some (after (s.update (.submitStep n)) a state) := by
  unfold submitStep
  simp only [update]
  split
  · next intent hn =>
    rw [hn]
    exact stateOf_updated h
  · next intent hn =>
    rw [hn]
    exact h
  · next hn =>
    rw [hn]
    exact h

/-- A refused update changes nothing. -/
theorem updateState_of_error {scheduler' : AgentScheduler}
    (h : scheduler.updateState id target = (.error e, scheduler')) : scheduler' = scheduler := by
  unfold updateState Agents.updateState at h
  dsimp only at h
  split at h
  · split at h <;> cases h
    rfl
  · cases h

/-! ## Moves of tasks -/

/-- The moves of task `i`, and when they can be made. -/
inductive TaskStep (s : DispatchSystem) (i : Nat) : DispatchAction → Task → Task → Prop where
  | acquire {intent : Intent} {call : Option Call} (h : s.lockFree intent.agentKey) :
    TaskStep s i (.acquire i) ⟨intent, .waiting, call⟩ ⟨intent, .locked, call⟩
  | accept {intent : Intent} {call : Option Call} {elapsedMs : Nat}
    (h : ∀ a state, intent.agentId = some a → s.stateOf a = some state → state.canTransition .running) :
    TaskStep s i (.check i elapsedMs) ⟨intent, .locked, call⟩ ⟨intent, .admitted, call⟩
  | refuse {intent : Intent} {call : Option Call} {elapsedMs : Nat} {a : String} {state : AgentState}
    (hagent : intent.agentId = some a) (hstate : s.stateOf a = some state)
    (hnot : state.canTransition .running = false) :
    TaskStep s i (.check i elapsedMs) ⟨intent, .locked, call⟩ ⟨intent, .reporting
      (.of intent (.error ("Cannot execute: " ++ TransitionError.display ⟨state, .running⟩)) elapsedMs), call⟩
  | handOver {intent : Intent} {call : Option Call} :
    TaskStep s i (.handOver i) ⟨intent, .admitted, call⟩ ⟨intent, .awaiting (s.limitMs intent), some .queued⟩
  | beginCall {intent : Intent} {phase : TaskPhase} :
    TaskStep s i (.beginCall i) ⟨intent, phase, some .queued⟩ ⟨intent, phase, some .running⟩
  | endCall {intent : Intent} {phase : TaskPhase} {outcome : Call} (h : Ended outcome) :
    TaskStep s i (.endCall i outcome) ⟨intent, phase, some .running⟩ ⟨intent, phase, some outcome⟩
  | joined {intent : Intent} {limitMs : Nat} {call : Call} {output : Except String String} (h : Ended call) :
    TaskStep s i (.joined i) ⟨intent, .awaiting limitMs, some call⟩ ⟨intent, .settled output, some call⟩
  | timeout {intent : Intent} {limitMs : Nat} {call : Call} (h : Ended call = false) :
    TaskStep s i (.timeout i) ⟨intent, .awaiting limitMs, some call⟩
      ⟨intent, .settled (.error ("Timeout after " ++ toString limitMs ++ "ms")), some call⟩
  | conclude {intent : Intent} {call : Option Call} {output : Except String String} {elapsedMs : Nat} :
    TaskStep s i (.conclude i elapsedMs) ⟨intent, .settled output, call⟩
      ⟨intent, .reporting (.of intent output elapsedMs), call⟩
  | send {intent : Intent} {call : Option Call} {result : ExecutionResult} {delivered : Bool} :
    TaskStep s i (.send i delivered) ⟨intent, .reporting result, call⟩ ⟨intent, .done, call⟩

theorem TaskStep.intent {t t' : Task} (h : TaskStep s i action t t') : t'.intent = t.intent := by
  cases h <;> rfl

/-- The tasks after an action. -/
inductive TasksStep (s : DispatchSystem) (action : DispatchAction) : List Task → Prop where
  | same : TasksStep s action s.tasks
  | spawn {intent : Intent} {choice : Nat} (haction : action = .loopStep choice) :
    TasksStep s action (s.tasks ++ [⟨intent, .waiting, none⟩])
  | move {i : Nat} {t t' : Task} (hi : s.tasks[i]? = some t) (h : TaskStep s i action t t') :
    TasksStep s action (s.tasks.set i t')

/-- What is queued, drained, popped and started, apart from the tasks. -/
structure SameFlow (s s' : DispatchSystem) : Prop where
  queue : s'.scheduler.queue = s.scheduler.queue
  loop : s'.loop = s.loop
  localQueue : s'.localQueue = s.localQueue
  intents : s'.intents = s.intents
  submitted : s'.submitted = s.submitted

/-- What an action of an agent or of a task does to the system. -/
structure Stepped (s : DispatchSystem) (action : DispatchAction) (s' : DispatchSystem) : Prop where
  tasks : TasksStep s action s'.tasks
  flow : SameFlow s s'
  state : ∀ a state, s.stateOf a = some state → s'.stateOf a = some (after (s.update action) a state)

/-- The action does nothing. -/
theorem Stepped.same (h : s.update action = none) : Stepped s action s := by
  refine ⟨.same, ⟨rfl, rfl, rfl, rfl, rfl⟩, fun a state hstate => ?_⟩
  rw [h]
  exact hstate

/-- A task moves. -/
theorem Stepped.move {t t' : Task} {results : List ExecutionResult} {executed : List Intent} (hi : s.tasks[i]? = some t)
    (h : TaskStep s i action t t') (hupdate : s.update action = none) :
    Stepped s action { s with tasks := s.tasks.set i t', results, executed } :=
  ⟨.move hi h, ⟨rfl, rfl, rfl, rfl, rfl⟩, (Stepped.same hupdate).state⟩

variable {f : AgentScheduler → Except String Unit × AgentScheduler}

/-- A call makes the update of its action. -/
theorem Stepped.call
    (hf : (f s.scheduler).2 =
      match s.update action with
      | some (id, target) => (s.scheduler.updateState id target).2
      | none => s.scheduler) :
    Stepped s action (s.onScheduler f) := by
  refine ⟨.same, ⟨?_, rfl, rfl, rfl, rfl⟩, fun a state h => ?_⟩
  · rw [onScheduler, hf]
    split <;> rfl
  · rw [onScheduler, hf]
    split
    · next hupdate => rw [hupdate]; exact stateOf_updated h
    · next hupdate => rw [hupdate]; exact h

/-- A call that names the agent by its id. -/
theorem Stepped.lifecycle
    (hf : f s.scheduler =
      if id ∈ s.scheduler.agents then s.scheduler.moveTo target id else (.error (notFound id), s.scheduler))
    (h : s.update action = some (id, target)) : Stepped s action (s.onScheduler f) := by
  refine .call ?_
  rw [hf, h]
  split
  · rfl
  · next hid =>
    have hnone : s.scheduler.agents.lookup id = none := AList.lookup_eq_none.mpr hid
    simp [updateState, Agents.updateState, hnone]

theorem stepped_check {elapsedMs : Nat} : Stepped s (.check i elapsedMs) (s.check i elapsedMs) := by
  by_cases hlocked : ∃ intent call, s.tasks[i]? = some ⟨intent, .locked, call⟩
  · obtain ⟨intent, call, hi⟩ := hlocked
    have hupdate : s.update (.check i elapsedMs) = intent.agentId.map (·, .running) := by simp only [update, hi]
    simp only [check, hi]
    split
    · next hagent =>
      rw [hagent] at hupdate
      refine .move hi (.accept fun a state ha => ?_) hupdate
      rw [hagent] at ha
      cases ha
    · next id hagent =>
      rw [hagent] at hupdate
      have hupdated : ∀ a state, s.stateOf a = some state → (s.scheduler.updateState id .running).2.stateOf a =
          some (after (s.update (.check i elapsedMs)) a state) := by
        intro a state hstate
        rw [hupdate]
        exact stateOf_updated hstate
      have hqueue : (s.scheduler.updateState id .running).2.queue = s.scheduler.queue := rfl
      split
      · next e scheduler hresult =>
        rw [hresult, updateState_of_error hresult] at hupdated
        obtain ⟨old, hold, hnot, rfl⟩ := updateState_eq_error (congrArg Prod.fst hresult)
        exact ⟨.move hi (.refuse hagent hold hnot), ⟨rfl, rfl, rfl, rfl, rfl⟩, hupdated⟩
      · next u scheduler hresult =>
        rw [hresult] at hupdated hqueue
        refine ⟨.move hi (.accept fun a state ha hstate => ?_), ⟨hqueue, rfl, rfl, rfl, rfl⟩, hupdated⟩
        cases hagent.symm.trans ha
        exact updateState_eq_ok (congrArg Prod.fst hresult) hstate
  · have hcheck : s.check i elapsedMs = s := by
      unfold check
      split
      · next hi => exact (hlocked ⟨_, _, hi⟩).elim
      · rfl
    rw [hcheck]
    refine .same ?_
    simp only [update]
    split
    · next hi => exact (hlocked ⟨_, _, hi⟩).elim
    · rfl

theorem stepped_conclude {elapsedMs : Nat} : Stepped s (.conclude i elapsedMs) (s.conclude i elapsedMs) := by
  unfold conclude
  split
  · next intent output call hi =>
    refine ⟨.move hi .conclude, ?_, fun a state h => ?_⟩
    · cases hagent : intent.agentId <;> exact ⟨rfl, rfl, rfl, rfl, rfl⟩
    · cases output with
      | ok | error =>
        simp only [update, hi]
        cases hagent : intent.agentId with
        | none => exact h
        | some id => exact stateOf_updated h
  · next hnot =>
    refine .same ?_
    simp only [update]
    split
    · next hi => exact (hnot _ _ _ hi).elim
    · next hi => exact (hnot _ _ _ hi).elim
    · rfl

/-- Every action but those of the loop and the queue. -/
theorem stepped (hsubmit : ∀ n, action ≠ .submitStep n) (hloop : ∀ n, action ≠ .loopStep n)
    (hshutdown : action ≠ .shutdown) : Stepped s action (s.step action) := by
  cases action with
  | register id name =>
    simp only [step]
    split
    · exact .same rfl
    · next hid =>
      refine ⟨.same, ⟨rfl, rfl, rfl, rfl, rfl⟩, fun a state h => ?_⟩
      have hne : a ≠ id := fun ha => hid (ha ▸ registered h)
      show ((s.scheduler.agents.insert id (.new id name)).lookup a).map Agent.state = some state
      rw [AList.lookup_insert_ne hne]
      exact h
  | agentSetResources id memoryQuota cpuTimeQuota allowedTools =>
    simp only [step, onScheduler, agentSetResources]
    split
    · next agent hagent =>
      refine ⟨.same, ⟨rfl, rfl, rfl, rfl, rfl⟩, fun a state h => ?_⟩
      show ((s.scheduler.agents.insert id { agent with resources := _ }).lookup a).map Agent.state = some state
      by_cases ha : a = id
      · subst ha
        rw [AList.lookup_insert]
        rw [stateOf, AgentScheduler.stateOf, hagent] at h
        exact h
      · rw [AList.lookup_insert_ne ha]
        exact h
    · exact .same rfl
  | agentSuspend nameOrId checkpoint =>
    refine .call ?_
    simp only [agentSuspend, update]
    cases s.scheduler.resolve nameOrId <;> cases checkpoint <;> rfl
  | agentResume nameOrId =>
    refine .call ?_
    simp only [agentResume, update]
    cases s.scheduler.resolve nameOrId <;> rfl
  | agentTerminate nameOrId =>
    refine .call ?_
    simp only [agentTerminate, update]
    cases s.scheduler.resolve nameOrId <;> rfl
  | agentComplete | agentFail => exact .lifecycle rfl rfl
  | submit intent =>
    simp only [step, submit]
    split <;> exact ⟨.same, ⟨rfl, rfl, rfl, rfl, rfl⟩, fun _ _ h => h⟩
  | submitStep n => exact absurd rfl (hsubmit n)
  | loopStep choice => exact absurd rfl (hloop choice)
  | shutdown => exact absurd rfl hshutdown
  | acquire i =>
    simp only [step, acquire]
    split
    · next hi =>
      split
      · next hfree => exact .move hi (.acquire hfree) rfl
      · exact .same rfl
    · exact .same rfl
  | check i elapsedMs => exact stepped_check
  | handOver i =>
    simp only [step, handOver]
    split
    · next hi => exact .move hi .handOver rfl
    · exact .same rfl
  | beginCall i =>
    simp only [step, beginCall]
    split
    · next hi => exact .move hi .beginCall rfl
    · exact .same rfl
  | endCall i outcome =>
    simp only [step, endCall]
    split
    · next hi =>
      split
      · next hended => exact .move hi (.endCall hended) rfl
      · exact .same rfl
    · exact .same rfl
  | joined i =>
    simp only [step, joined]
    split
    · next hi => exact .move hi (.joined rfl) rfl
    · next hi => exact .move hi (.joined rfl) rfl
    · exact .same rfl
  | timeout i =>
    simp only [step, timeout]
    split
    · next hi =>
      split
      · next hlate => exact .move hi (.timeout (by simpa using hlate.2)) rfl
      · exact .same rfl
    · exact .same rfl
  | conclude i elapsedMs => exact stepped_conclude
  | send i delivered =>
    simp only [step, send]
    split
    · next hi => exact .move hi .send rfl
    · exact .same rfl

/-- A registered agent stays registered, and its state changes by the update of the action and by nothing else. -/
theorem stateOf_step (h : s.stateOf a = some state) :
    (s.step action).stateOf a = some (after (s.update action) a state) := by
  cases action with
  | submitStep n => exact stateOf_submitStep h
  | loopStep choice =>
    show ((s.loopStep choice).scheduler.agents.lookup a).map Agent.state = some state
    rw [agents_loopStep]
    exact h
  | shutdown => exact h
  | _ => exact Stepped.state (stepped (by simp) (by simp) (by simp)) a state h

theorem tasks_step (action : DispatchAction) (s : DispatchSystem) : TasksStep s action (s.step action).tasks := by
  cases action with
  | submitStep n =>
    simp only [step, submitStep]
    split <;> exact .same
  | loopStep choice =>
    simp only [step, loopStep]
    repeat' split
    all_goals first | exact .same | exact .spawn rfl
  | shutdown => exact .same
  | _ => exact Stepped.tasks (stepped (by simp) (by simp) (by simp))

end DispatchSystem

/-! ## What the phase says about the call -/

/-- The call has not ended: it is waiting for a thread or in progress. -/
def Task.Live (t : Task) : Prop := ∃ call, t.call = some call ∧ DispatchSystem.Ended call = false

/-- What the phase says about the call. -/
def Task.Shaped (t : Task) : Prop :=
  match t.phase with
  | .waiting | .locked | .admitted => t.call = none
  | .settled (.ok _) => ¬ t.Live
  | _ => True

namespace DispatchSystem

variable {s : DispatchSystem} {action : DispatchAction} {t : Task} {phase : TaskPhase} {intent : Intent} {call : Call}

theorem not_live_of_none (hcall : t.call = none) : ¬ t.Live := by
  rintro ⟨call, hsome, -⟩
  rw [hcall] at hsome
  cases hsome

theorem not_live_of_ended (hended : Ended call) : ¬ (⟨intent, phase, some call⟩ : Task).Live := by
  rintro ⟨call', hcall, hrunning⟩
  obtain rfl : call = call' := Option.some.inj hcall
  rw [hended] at hrunning
  cases hrunning

/-- The phases of all tasks agree with their calls. -/
def Shaped (s : DispatchSystem) : Prop := ∀ (i : Nat) (t : Task), s.tasks[i]? = some t → t.Shaped

theorem Shaped.start (scheduler : AgentScheduler) (cpuTimeLimitMs : Nat) :
    Shaped (.start scheduler cpuTimeLimitMs) := by
  intro i t h
  cases h

/-- A call that goes on does not matter to the phase of its task, unless the task has taken its output. -/
theorem shaped_of_call {call' : Call} (h : (⟨intent, phase, some call⟩ : Task).Shaped)
    (hlive : (⟨intent, phase, some call'⟩ : Task).Live → (⟨intent, phase, some call⟩ : Task).Live) :
    (⟨intent, phase, some call'⟩ : Task).Shaped := by
  cases phase with
  | waiting | locked | admitted => cases h
  | settled output =>
    cases output with
    | ok out => exact fun hnow => h (hlive hnow)
    | error message => trivial
  | awaiting | reporting | done => trivial

theorem Shaped.step (h : Shaped s) (action : DispatchAction) : Shaped (s.step action) := by
  intro j u hj
  have hstep := tasks_step action s
  generalize (s.step action).tasks = tasks at hj hstep
  cases hstep with
  | same => exact h j u hj
  | spawn =>
    rw [List.getElem?_append] at hj
    split at hj
    · exact h j u hj
    · obtain rfl := List.mem_singleton.mp (List.mem_of_getElem? hj)
      rfl
  | @move i t t' hi hmove =>
    obtain ⟨-, rfl⟩ | ⟨-, hju⟩ := getElem?_set_eq_some hi hj
    · have hbefore := h i t hi
      cases hmove with
      | acquire | accept => exact hbefore
      | refuse | handOver | timeout | conclude | send => trivial
      | beginCall => exact shaped_of_call hbefore fun _ => ⟨.queued, rfl, rfl⟩
      | endCall hended => exact shaped_of_call hbefore fun hlive => absurd hlive (not_live_of_ended hended)
      | @joined _ _ _ output hended =>
        cases output with
        | ok out => exact not_live_of_ended hended
        | error message => trivial
    · exact h j u hju

end DispatchSystem

end Plico.Scheduler
