import Mathlib.Algebra.Order.Ring.Nat
import Mathlib.Data.List.AList

/-!
# Agents, their states and their intents (scheduler/agent.rs, scheduler/mod.rs, scheduler/queue.rs, kernel/ops/agent.rs)

An agent's state only changes through `update_state`, which consults the table of transitions; an agent that is not
registered has no state, and an update of it succeeds without effect. Descriptions, times, usage counters, events and
the file of intents are left out.
-/

namespace Plico.Scheduler

/-! ## States -/

inductive AgentState where
  | created
  | waiting
  | running
  | suspended
  | completed
  | failed
  | terminated
  deriving DecidableEq, Repr

namespace AgentState

def debug : AgentState → String
  | created => "Created"
  | waiting => "Waiting"
  | running => "Running"
  | suspended => "Suspended"
  | completed => "Completed"
  | failed => "Failed"
  | terminated => "Terminated"

def isTerminal : AgentState → Bool
  | completed | failed | terminated => true
  | _ => false

def canTransition : AgentState → AgentState → Bool
  | created, waiting | created, running | created, suspended | created, terminated => true
  | waiting, running | waiting, suspended | waiting, completed | waiting, failed | waiting, terminated => true
  | running, waiting | running, suspended | running, completed | running, failed | running, terminated => true
  | suspended, waiting | suspended, running | suspended, terminated => true
  | _, _ => false

end AgentState

structure TransitionError where
  source : AgentState
  target : AgentState
  deriving DecidableEq

def TransitionError.display (e : TransitionError) : String :=
  "illegal state transition: " ++ e.source.debug ++ " → " ++ e.target.debug

/-! ## Agents -/

structure AgentResources where
  memoryQuota : Nat
  /-- In milliseconds, 0 for no limit. -/
  cpuTimeQuota : Nat
  allowedTools : List String
  deriving DecidableEq

structure Agent where
  id : String
  name : String
  state : AgentState
  resources : AgentResources
  deriving DecidableEq

def Agent.new (id name : String) : Agent := ⟨id, name, .created, ⟨0, 0, []⟩⟩

def Agent.setState (agent : Agent) (state : AgentState) : Except TransitionError Agent :=
  if agent.state.canTransition state then .ok { agent with state } else .error ⟨agent.state, state⟩

abbrev Agents := AList (fun _ : String => Agent)

def Agents.updateState (agents : Agents) (id : String) (state : AgentState) : Except TransitionError Unit × Agents :=
  match agents.lookup id with
  | some agent =>
    match agent.setState state with
    | .ok agent => (.ok (), agents.insert id agent)
    | .error e => (.error e, agents)
  | none => (.ok (), agents)

/-! ## Intents -/

inductive IntentPriority where
  | low
  | medium
  | high
  | critical
  deriving DecidableEq, Repr

def IntentPriority.rank : IntentPriority → Nat
  | low => 1
  | medium => 2
  | high => 3
  | critical => 4

structure Intent where
  id : String
  priority : IntentPriority
  description : String
  action : Option String
  agentId : Option String
  submittedAt : Nat
  deriving DecidableEq

/-- The order of the heap: higher priority first, then older. -/
def Intent.before (a b : Intent) : Bool :=
  b.priority.rank < a.priority.rank || (a.priority.rank = b.priority.rank && a.submittedAt < b.submittedAt)

/-- The heap as the list of its entries. -/
abbrev SchedulerQueue := List Intent

def SchedulerQueue.push (q : SchedulerQueue) (intent : Intent) : SchedulerQueue := q ++ [intent]

/-- `pop` takes an entry that no other comes before; which of several is up to the heap. -/
def SchedulerQueue.popAt (q : SchedulerQueue) (n : Nat) : Option (Intent × SchedulerQueue) :=
  match q[n]? with
  | some intent => if q.all fun other => !other.before intent then some (intent, q.eraseIdx n) else none
  | none => none

/-- `while let Some(intent) = queue.pop()`, with what the heap takes each time. -/
def SchedulerQueue.popAll (q : SchedulerQueue) : List Nat → Option (List Intent)
  | [] => if q = [] then some [] else none
  | n :: choices => (q.popAt n).bind fun (intent, q) => (popAll q choices).map (intent :: ·)

def SchedulerQueue.restoreIntents (q : SchedulerQueue) (intents : List Intent) : SchedulerQueue := intents.foldl push q

/-- The snapshot, and the queue after its intents are pushed again. -/
def SchedulerQueue.snapshotIntents (q : SchedulerQueue) (choices : List Nat) : Option (List Intent × SchedulerQueue) :=
  (q.popAll choices).map fun intents => (intents, restoreIntents [] intents)

/-- The queue, the last snapshot, and all intents that were submitted and dequeued, in this order. -/
structure QueueRun where
  queue : SchedulerQueue
  snapshot : List Intent
  submitted : List Intent
  dequeued : List Intent

inductive QueueAction where
  | submit (intent : Intent)
  | dequeue (choice : Nat)
  | snapshotIntents (choices : List Nat)
  | restoreIntents

def QueueRun.start : QueueRun := ⟨[], [], [], []⟩

def QueueRun.step (s : QueueRun) : QueueAction → QueueRun
  | .submit intent => { s with queue := s.queue.push intent, submitted := s.submitted ++ [intent] }
  | .dequeue choice =>
    match s.queue.popAt choice with
    | some (intent, queue) => { s with queue, dequeued := s.dequeued ++ [intent] }
    | none => s
  | .snapshotIntents choices =>
    match s.queue.snapshotIntents choices with
    | some (snapshot, queue) => { s with queue, snapshot }
    | none => s
  -- into the empty queue of a new scheduler
  | .restoreIntents => { s with queue := .restoreIntents [] s.snapshot }

/-! ## The scheduler -/

structure AgentScheduler where
  agents : Agents
  nameIndex : AList (fun _ : String => String)
  queue : SchedulerQueue

namespace AgentScheduler

def stateOf (s : AgentScheduler) (id : String) : Option AgentState := (s.agents.lookup id).map Agent.state

def register (agent : Agent) (s : AgentScheduler) : AgentScheduler :=
  { s with
    agents := s.agents.insert agent.id agent
    nameIndex := if agent.name = "" then s.nameIndex else s.nameIndex.insert agent.name agent.id }

def resolve (s : AgentScheduler) (nameOrId : String) : Option String :=
  if nameOrId ∈ s.agents then some nameOrId else s.nameIndex.lookup nameOrId

/-- `update_state`. -/
def updateState (id : String) (state : AgentState) (s : AgentScheduler) :
    Except TransitionError Unit × AgentScheduler :=
  let (result, agents) := s.agents.updateState id state
  (result, { s with agents })

/-- `update_state` of a lifecycle call, whose error becomes the call's. -/
def moveTo (state : AgentState) (id : String) (s : AgentScheduler) : Except String Unit × AgentScheduler :=
  let (result, s) := s.updateState id state
  (result.mapError TransitionError.display, s)

def notFound (id : String) : String := "Agent not found: " ++ id

/-! ## Lifecycle calls

Between finding the agent and updating its state nothing else of the scheduler is changed, so each call is one step at
its update. -/

/-- `checkpoint` is the result of storing the agent's memories. -/
def agentSuspend (nameOrId : String) (checkpoint : Except String Unit) (s : AgentScheduler) :
    Except String Unit × AgentScheduler :=
  match s.resolve nameOrId with
  | some id =>
    match checkpoint with
    | .ok _ => s.moveTo .suspended id
    | .error e => (.error e, s)
  | none => (.error (notFound nameOrId), s)

def agentResume (nameOrId : String) (s : AgentScheduler) : Except String Unit × AgentScheduler :=
  match s.resolve nameOrId with
  | some id => s.moveTo .waiting id
  | none => (.error (notFound nameOrId), s)

def agentTerminate (nameOrId : String) (s : AgentScheduler) : Except String Unit × AgentScheduler :=
  match s.resolve nameOrId with
  | some id => s.moveTo .terminated id
  | none => (.error (notFound nameOrId), s)

def agentComplete (id : String) (s : AgentScheduler) : Except String Unit × AgentScheduler :=
  if id ∈ s.agents then s.moveTo .completed id else (.error (notFound id), s)

def agentFail (id : String) (s : AgentScheduler) : Except String Unit × AgentScheduler :=
  if id ∈ s.agents then s.moveTo .failed id else (.error (notFound id), s)

def agentSetResources (id : String) (memoryQuota cpuTimeQuota : Option Nat) (allowedTools : Option (List String))
    (s : AgentScheduler) : Except String Unit × AgentScheduler :=
  match s.agents.lookup id with
  | some agent =>
    let resources : AgentResources :=
      ⟨memoryQuota.getD agent.resources.memoryQuota, cpuTimeQuota.getD agent.resources.cpuTimeQuota,
        allowedTools.getD agent.resources.allowedTools⟩
    (.ok (), { s with agents := s.agents.insert id { agent with resources } })
  | none => (.error (notFound id), s)

/-! ## Names and restarts -/

/-- The name stays in the index. -/
def remove (id : String) (s : AgentScheduler) : AgentScheduler := { s with agents := s.agents.erase id }

def snapshotAgents (s : AgentScheduler) : List Agent := s.agents.entries.map Sigma.snd

/-- `restore_agents` into a new scheduler. -/
def restoreAgents (agents : List Agent) : AgentScheduler := agents.foldl (fun s agent => s.register agent) ⟨∅, ∅, []⟩

end AgentScheduler

def reservedAgentNames : List String := ["kernel", "system", "root", "admin"]

/-- The scheduler and the persisted list of agents. -/
structure AgentRegistry where
  scheduler : AgentScheduler
  persisted : List Agent

/-- New agents are given with the id that is drawn for them, a restart with the order in which it finds the list. -/
inductive RegistryAction where
  | registerAgent (name id : String)
  | ensureAgentRegistered (agentId id : String)
  | remove (id : String)
  | restart (order : List Agent)

namespace AgentRegistry

def start : AgentRegistry := ⟨⟨∅, ∅, []⟩, []⟩

def addAgent (name id : String) (s : AgentRegistry) : AgentRegistry :=
  let scheduler := s.scheduler.register (.new id name)
  ⟨scheduler, scheduler.snapshotAgents⟩

def step (toLowercase : String → String) (s : AgentRegistry) : RegistryAction → AgentRegistry
  | .registerAgent name id => if toLowercase name ∈ reservedAgentNames then s else s.addAgent name id
  | .ensureAgentRegistered agentId id => if (s.scheduler.resolve agentId).isSome then s else s.addAgent agentId id
  | .remove id => { s with scheduler := s.scheduler.remove id }
  | .restart order => if order.Perm s.persisted then { s with scheduler := .restoreAgents order } else s

end AgentRegistry

end Plico.Scheduler
