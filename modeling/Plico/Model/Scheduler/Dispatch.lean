import Plico.Model.Scheduler.Agent

/-!
# The dispatch loop (scheduler/dispatch.rs, submit_intent of kernel/ops/agent.rs)

The loop drains the scheduler's queue into its own, empties that by priority and starts one task for each intent. A
task takes the lock of its agent, moves the agent to Running, hands the intent to the executor on a blocking thread,
waits for the call or for the time limit, updates the agent's state and sends the result. A blocking call cannot be
stopped: it goes on after its task has given up on it. Tasks, blocking threads, the loop and the calls of other
threads take turns in any order; an action is one step of one of them. The guard of a lock is held in the phases from
`locked` to `reporting`, so the lock of a key is free when no task with that key is in one of them.
-/

namespace Plico.Scheduler

structure ExecutionResult where
  intentId : String
  agentId : Option String
  success : Bool
  output : String
  elapsedMs : Nat
  deriving DecidableEq

variable (intent : Intent)

/-- `ExecutionResult::success` and `ExecutionResult::failure`. -/
def ExecutionResult.of (output : Except String String) (elapsedMs : Nat) : ExecutionResult :=
  match output with
  | .ok out => ⟨intent.id, intent.agentId, true, out, elapsedMs⟩
  | .error message => ⟨intent.id, intent.agentId, false, message, elapsedMs⟩

/-- A call of the executor on a blocking thread. -/
inductive Call where
  | queued
  | running
  | returned (output : Except String String)
  | panicked (message : String)

inductive TaskPhase where
  | waiting
  | locked
  | admitted
  | awaiting (limitMs : Nat)
  | settled (output : Except String String)
  | reporting (result : ExecutionResult)
  | done

structure Task where
  intent : Intent
  phase : TaskPhase
  call : Option Call

/-- A `submit_intent` under way: one that found its agent in Created, or one whose intent only has to be queued. -/
inductive Submitting where
  | first (intent : Intent)
  | ready (intent : Intent)

inductive LoopPhase where
  | idle
  | draining (inHand : Option Intent)
  | popping
  | spawning
  | stopped

structure DispatchSystem where
  scheduler : AgentScheduler
  cpuTimeLimitMs : Nat
  submitting : List Submitting
  loop : LoopPhase
  localQueue : SchedulerQueue
  intents : List Intent
  tasks : List Task
  results : List ExecutionResult
  /-- Every intent that was queued, and every one whose execution was begun. -/
  submitted : List Intent
  executed : List Intent

/-- The loop is started over a scheduler that may have been restored with agents and intents. -/
def DispatchSystem.start (scheduler : AgentScheduler) (cpuTimeLimitMs : Nat) : DispatchSystem :=
  ⟨scheduler, cpuTimeLimitMs, [], .idle, [], [], [], [], scheduler.queue, []⟩

inductive DispatchAction where
  | register (id name : String)
  | agentSetResources (id : String) (memoryQuota cpuTimeQuota : Option Nat) (allowedTools : Option (List String))
  | agentSuspend (nameOrId : String) (checkpoint : Except String Unit)
  | agentResume (nameOrId : String)
  | agentTerminate (nameOrId : String)
  | agentComplete (id : String)
  | agentFail (id : String)
  | submit (intent : Intent)
  | submitStep (n : Nat)
  | loopStep (choice : Nat)
  | shutdown
  | acquire (i : Nat)
  | check (i elapsedMs : Nat)
  | handOver (i : Nat)
  | beginCall (i : Nat)
  | endCall (i : Nat) (outcome : Call)
  | joined (i : Nat)
  | timeout (i : Nat)
  | conclude (i elapsedMs : Nat)
  | send (i : Nat) (delivered : Bool)

def Intent.agentKey : String := intent.agentId.getD ("_anon_" ++ intent.id)

def TaskPhase.holdsLock : TaskPhase → Bool
  | .waiting | .done => false
  | _ => true

namespace DispatchSystem

/-! ## Submitting -/

/-- Why an intent is refused, or else whether its agent has to be moved from Created to Waiting. -/
def submitCheck (s : DispatchSystem) : Except String Bool :=
  match intent.agentId with
  | none => .ok false
  | some id =>
    match s.scheduler.stateOf id with
    | none => .ok false
    | some state =>
      if state.isTerminal then
        .error ("Agent " ++ id ++ " is in terminal state " ++ state.debug ++ " — cannot accept intents")
      else .ok (state = .created)

def submit (s : DispatchSystem) : DispatchSystem :=
  match s.submitCheck intent with
  | .error _ => s
  | .ok true => { s with submitting := s.submitting ++ [.first intent] }
  | .ok false => { s with submitting := s.submitting ++ [.ready intent] }

def submitStep (n : Nat) (s : DispatchSystem) : DispatchSystem :=
  match s.submitting[n]? with
  | some (.first intent) =>
    -- the result of the update is ignored
    { s with
      scheduler := (s.scheduler.updateState (intent.agentId.getD "") .waiting).2
      submitting := s.submitting.set n (.ready intent) }
  | some (.ready intent) =>
    { s with
      scheduler := { s.scheduler with queue := s.scheduler.queue.push intent }
      submitting := s.submitting.eraseIdx n
      submitted := s.submitted ++ [intent] }
  | none => s

/-! ## The loop -/

/-- `choice` says which of the entries that may be popped the heap gives. -/
def loopStep (choice : Nat) (s : DispatchSystem) : DispatchSystem :=
  match s.loop with
  | .idle => { s with loop := .draining none }
  | .draining none =>
    if s.scheduler.queue = [] then { s with loop := .popping }
    else
      match s.scheduler.queue.popAt choice with
      | some (intent, queue) =>
        { s with scheduler := { s.scheduler with queue }, loop := .draining (some intent) }
      | none => s
  | .draining (some intent) => { s with localQueue := s.localQueue.push intent, loop := .draining none }
  | .popping =>
    if s.localQueue = [] then { s with loop := .spawning }
    else
      match s.localQueue.popAt choice with
      | some (intent, localQueue) => { s with localQueue, intents := s.intents ++ [intent] }
      | none => s
  | .spawning =>
    match s.intents with
    | intent :: intents => { s with intents, tasks := s.tasks ++ [⟨intent, .waiting, none⟩] }
    | [] => { s with loop := .idle }
  | .stopped => s

/-! ## Tasks -/

def setTask (i : Nat) (task : Task) (s : DispatchSystem) : DispatchSystem := { s with tasks := s.tasks.set i task }

def lockFree (key : String) (s : DispatchSystem) : Bool :=
  s.tasks.all fun task => !(task.phase.holdsLock && task.intent.agentKey = key)

def acquire (i : Nat) (s : DispatchSystem) : DispatchSystem :=
  match s.tasks[i]? with
  | some ⟨intent, .waiting, call⟩ =>
    if s.lockFree intent.agentKey then s.setTask i ⟨intent, .locked, call⟩ else s
  | _ => s

def check (i elapsedMs : Nat) (s : DispatchSystem) : DispatchSystem :=
  match s.tasks[i]? with
  | some ⟨intent, .locked, call⟩ =>
    match intent.agentId with
    | none => s.setTask i ⟨intent, .admitted, call⟩
    | some id =>
      match s.scheduler.updateState id .running with
      | (.error e, _) =>
        s.setTask i ⟨intent, .reporting (.of intent (.error ("Cannot execute: " ++ e.display)) elapsedMs), call⟩
      | (.ok _, scheduler) => { s with scheduler }.setTask i ⟨intent, .admitted, call⟩
  | _ => s

def limitMs (s : DispatchSystem) : Nat :=
  match intent.agentId with
  | none => s.cpuTimeLimitMs
  | some id => ((s.scheduler.agents.lookup id).map fun agent => agent.resources.cpuTimeQuota).getD s.cpuTimeLimitMs

/-- `spawn_blocking`. -/
def handOver (i : Nat) (s : DispatchSystem) : DispatchSystem :=
  match s.tasks[i]? with
  | some ⟨intent, .admitted, _⟩ => s.setTask i ⟨intent, .awaiting (s.limitMs intent), some .queued⟩
  | _ => s

/-- A blocking thread takes the call up, whatever has become of the task. -/
def beginCall (i : Nat) (s : DispatchSystem) : DispatchSystem :=
  match s.tasks[i]? with
  | some ⟨intent, phase, some .queued⟩ =>
    { s with executed := s.executed ++ [intent] }.setTask i ⟨intent, phase, some .running⟩
  | _ => s

def Ended : Call → Bool
  | .returned _ | .panicked _ => true
  | _ => false

def endCall (i : Nat) (outcome : Call) (s : DispatchSystem) : DispatchSystem :=
  match s.tasks[i]? with
  | some ⟨intent, phase, some .running⟩ =>
    if Ended outcome then s.setTask i ⟨intent, phase, some outcome⟩ else s
  | _ => s

/-- The call has ended before the limit was noticed. -/
def joined (i : Nat) (s : DispatchSystem) : DispatchSystem :=
  match s.tasks[i]? with
  | some ⟨intent, .awaiting _, some (.returned output)⟩ =>
    s.setTask i ⟨intent, .settled output, some (.returned output)⟩
  | some ⟨intent, .awaiting _, some (.panicked message)⟩ =>
    s.setTask i ⟨intent, .settled (.error ("Task panicked: " ++ message)), some (.panicked message)⟩
  | _ => s

/-- The limit has passed and the call has not ended. -/
def timeout (i : Nat) (s : DispatchSystem) : DispatchSystem :=
  match s.tasks[i]? with
  | some ⟨intent, .awaiting limitMs, some call⟩ =>
    if 0 < limitMs ∧ !Ended call then
      s.setTask i ⟨intent, .settled (.error ("Timeout after " ++ toString limitMs ++ "ms")), some call⟩
    else s
  | _ => s

def conclude (i elapsedMs : Nat) (s : DispatchSystem) : DispatchSystem :=
  match s.tasks[i]? with
  | some ⟨intent, .settled output, call⟩ =>
    let result := ExecutionResult.of intent output elapsedMs
    let scheduler :=
      match intent.agentId with
      | none => s.scheduler
      | some id => (s.scheduler.updateState id (if result.success then .waiting else .failed)).2
    { s with scheduler }.setTask i ⟨intent, .reporting result, call⟩
  | _ => s

/-- Whoever reads the results may be gone. -/
def send (i : Nat) (delivered : Bool) (s : DispatchSystem) : DispatchSystem :=
  match s.tasks[i]? with
  | some ⟨intent, .reporting result, call⟩ =>
    { s with results := if delivered then s.results ++ [result] else s.results }.setTask i ⟨intent, .done, call⟩
  | _ => s

/-! ## Steps -/

def onScheduler (f : AgentScheduler → Except String Unit × AgentScheduler) (s : DispatchSystem) : DispatchSystem :=
  { s with scheduler := (f s.scheduler).2 }

def step (s : DispatchSystem) : DispatchAction → DispatchSystem
  -- the id of a new agent is drawn at random, so it is not in use
  | .register id name =>
    if id ∈ s.scheduler.agents then s else { s with scheduler := s.scheduler.register (.new id name) }
  | .agentSetResources id memoryQuota cpuTimeQuota allowedTools =>
    s.onScheduler (·.agentSetResources id memoryQuota cpuTimeQuota allowedTools)
  | .agentSuspend nameOrId checkpoint => s.onScheduler (·.agentSuspend nameOrId checkpoint)
  | .agentResume nameOrId => s.onScheduler (·.agentResume nameOrId)
  | .agentTerminate nameOrId => s.onScheduler (·.agentTerminate nameOrId)
  | .agentComplete id => s.onScheduler (·.agentComplete id)
  | .agentFail id => s.onScheduler (·.agentFail id)
  | .submit intent => s.submit intent
  | .submitStep n => s.submitStep n
  | .loopStep choice => s.loopStep choice
  | .shutdown => { s with loop := .stopped }
  | .acquire i => s.acquire i
  | .check i elapsedMs => s.check i elapsedMs
  | .handOver i => s.handOver i
  | .beginCall i => s.beginCall i
  | .endCall i outcome => s.endCall i outcome
  | .joined i => s.joined i
  | .timeout i => s.timeout i
  | .conclude i elapsedMs => s.conclude i elapsedMs
  | .send i delivered => s.send i delivered

def run (s : DispatchSystem) (actions : List DispatchAction) : DispatchSystem := actions.foldl step s

end DispatchSystem

end Plico.Scheduler
