import Mathlib.Data.List.AList
import Plico.Framework.Broadcast

/-!
# The event bus (kernel/event_bus.rs)

Events are numbered, kept in a bounded log and broadcast; a subscriber polls its receiver and falls back on the log
when the receiver has fallen behind. `emit`, `subscribe_filtered`, `poll` and `unsubscribe` run on several threads, so
each of them is cut where another thread may come between: the calls that are under way are part of the state, and an
action is one step of one of them. A poll holds the lock of the subscriptions for reading and that of its receiver for
itself. The file of the log and its rotation are left out.
-/

namespace Plico.Kernel

/-! ## Events -/

inductive KernelEvent where
  | agentStateChanged (agentId oldState newState : String)
  | objectStored (cid agentId : String) (tags : List String)
  | memoryStored (agentId tier : String)
  | intentSubmitted (intentId : String) (agentId : Option String) (priority : String)
  | intentCompleted (intentId : String) (success : Bool)
  | eventCreated (eventId label agentId : String)
  | knowledgeShared (cid agentId scope : String) (tags : List String) (summary : String)
  | knowledgeSuperseded (oldCid newCid agentId : String)
  | taskDelegated (taskId fromAgent toAgent : String)
  | taskCompleted (taskId agentId : String) (resultCids : List String)
  | verificationFailed (toolName operation reason agentId : String)
  | cognitiveConflictDetected (conflictId conflictType description : String) (involvedCids : List String)
      (agentId severity : String)
  deriving DecidableEq, Repr

namespace KernelEvent

def eventTypeName : KernelEvent → String
  | .agentStateChanged .. => "AgentStateChanged"
  | .objectStored .. => "ObjectStored"
  | .memoryStored .. => "MemoryStored"
  | .intentSubmitted .. => "IntentSubmitted"
  | .intentCompleted .. => "IntentCompleted"
  | .eventCreated .. => "EventCreated"
  | .knowledgeShared .. => "KnowledgeShared"
  | .knowledgeSuperseded .. => "KnowledgeSuperseded"
  | .taskDelegated .. => "TaskDelegated"
  | .taskCompleted .. => "TaskCompleted"
  | .verificationFailed .. => "VerificationFailed"
  | .cognitiveConflictDetected .. => "CognitiveConflictDetected"

def agentId : KernelEvent → Option String
  | .agentStateChanged agentId _ _ => some agentId
  | .objectStored _ agentId _ => some agentId
  | .memoryStored agentId _ => some agentId
  | .intentSubmitted _ agentId _ => agentId
  | .intentCompleted _ _ => none
  | .eventCreated _ _ agentId => some agentId
  | .knowledgeShared _ agentId _ _ _ => some agentId
  | .knowledgeSuperseded _ _ agentId => some agentId
  | .taskDelegated _ fromAgent _ => some fromAgent
  | .taskCompleted _ agentId _ => some agentId
  | .verificationFailed _ _ _ agentId => some agentId
  | .cognitiveConflictDetected _ _ _ _ agentId _ => some agentId

end KernelEvent

structure EventFilter where
  eventTypes : Option (List String)
  agentIds : Option (List String)
  deriving DecidableEq, Repr

def EventFilter.«matches» (filter : EventFilter) (event : KernelEvent) : Bool :=
  (filter.eventTypes.all fun types => types.any (· = event.eventTypeName)) &&
    filter.agentIds.all fun agents => event.agentId.any fun aid => agents.any (· = aid)

/-- `filter.is_none_or(|f| f.matches(event))`. -/
def wanted (filter : Option EventFilter) (event : KernelEvent) : Bool :=
  filter.all fun f => f.matches event

structure SequencedEvent where
  seq : Nat
  timestampMs : Nat
  event : KernelEvent
  deriving DecidableEq, Repr

/-! ## The log -/

structure RingEventLog where
  events : List SequencedEvent
  maxCapacity : Nat
  minSeq : Nat

namespace RingEventLog

def new (capacity : Nat) : RingEventLog := ⟨[], capacity, 0⟩

def push (log : RingEventLog) (event : SequencedEvent) : RingEventLog :=
  if log.maxCapacity ≤ log.events.length then
    match log.events with
    | evicted :: rest => { log with events := rest ++ [event], minSeq := evicted.seq + 1 }
    | [] => { log with events := [event] }
  else { log with events := log.events ++ [event] }

def eventsSince (log : RingEventLog) (sinceSeq : Nat) : List SequencedEvent :=
  let effectiveSeq := max sinceSeq (log.minSeq - 1)
  log.events.filter fun e => e.seq > effectiveSeq

end RingEventLog

/-! ## The bus -/

def defaultBroadcastCapacity : Nat := 4096
def defaultEventLogCapacity : Nat := 65536

/-- The receiver is the position of the message it reads next. -/
structure Subscription where
  receiver : Nat
  filter : Option EventFilter
  lastSeenSeq : Nat
  deriving DecidableEq

structure EventBus where
  sender : Channel KernelEvent
  subscriptions : AList (fun _ : String => Subscription)
  nextSubId : Nat
  eventLog : RingEventLog
  nextSeq : Nat

/-- `EventBus::new`, for given capacities. -/
def EventBus.new (broadcastCapacity logCapacity : Nat) : EventBus where
  sender := ⟨broadcastCapacity, []⟩
  subscriptions := ∅
  nextSubId := 1
  eventLog := .new logCapacity
  nextSeq := 1

def subscriptionId (n : Nat) : String := "sub-" ++ toString n

/-! ## Calls under way -/

/-- An `emit` that has its number: the log and the channel are still to come, or the channel only. -/
inductive Emitting where
  | reserved (event : SequencedEvent)
  | logged (event : KernelEvent)

/-- A `subscribe_filtered` that has its id. -/
inductive Subscribing where
  | named (filter : Option EventFilter)
  | listening (filter : Option EventFilter) (receiver : Nat)
  | positioned (filter : Option EventFilter) (receiver current : Nat)

/-- A `poll` that holds its locks, with the events it has collected. -/
inductive Polling where
  | receiving (events : List KernelEvent)
  | recovering (events : List KernelEvent)
  | finishing (events : List KernelEvent) (upTo : Nat)

/-- A subscription that was made, with the number of messages sent before its receiver. -/
structure Created where
  id : String
  filter : Option EventFilter
  position : Nat

/-- A poll that has returned, with the number of messages sent when it found no more. -/
structure Polled where
  id : String
  events : List KernelEvent
  upTo : Nat
  deriving DecidableEq

structure BusSystem where
  bus : EventBus
  emitting : AList (fun _ : Nat => Emitting)
  subscribing : AList (fun _ : String => Subscribing)
  polling : AList (fun _ : String => Polling)
  created : List Created
  polled : List Polled

def BusSystem.new (broadcastCapacity logCapacity : Nat) : BusSystem :=
  ⟨.new broadcastCapacity logCapacity, ∅, ∅, ∅, [], []⟩

inductive BusAction where
  | emit (event : KernelEvent) (now : Nat)
  | emitStep (seq : Nat)
  | subscribe (filter : Option EventFilter)
  | subscribeStep (id : String)
  | poll (id : String)
  | pollStep (id : String)
  | unsubscribe (id : String)

namespace BusSystem

/-! ### emit -/

def emit (event : KernelEvent) (now : Nat) (s : BusSystem) : BusSystem :=
  let seq := s.bus.nextSeq
  { s with
    bus := { s.bus with nextSeq := seq + 1 }
    emitting := s.emitting.insert seq (.reserved ⟨seq, now, event⟩) }

def emitStep (seq : Nat) (s : BusSystem) : BusSystem :=
  match s.emitting.lookup seq with
  | some (.reserved sequenced) =>
    { s with
      bus := { s.bus with eventLog := s.bus.eventLog.push sequenced }
      emitting := s.emitting.insert seq (.logged sequenced.event) }
  | some (.logged event) =>
    { s with
      bus := { s.bus with sender := s.bus.sender.send event }
      emitting := s.emitting.erase seq }
  | none => s

/-! ### subscribe_filtered -/

def subscribe (filter : Option EventFilter) (s : BusSystem) : BusSystem :=
  let id := subscriptionId s.bus.nextSubId
  { s with
    bus := { s.bus with nextSubId := s.bus.nextSubId + 1 }
    subscribing := s.subscribing.insert id (.named filter) }

variable (id : String)

def setSubscription (sub : Subscription) (s : BusSystem) : BusSystem :=
  { s with bus := { s.bus with subscriptions := s.bus.subscriptions.insert id sub } }

/-- The subscription is in the table, and the call returns its id. -/
def insertSubscription (filter : Option EventFilter) (receiver current : Nat) (s : BusSystem) : BusSystem :=
  { s.setSubscription id ⟨receiver, filter, current⟩ with
    subscribing := s.subscribing.erase id
    created := s.created ++ [⟨id, filter, receiver⟩] }

variable (s : BusSystem)

/-- The last step needs the lock of the subscriptions for writing, so it waits for the polls. -/
def subscribeStep : BusSystem :=
  match s.subscribing.lookup id with
  | some (.named filter) =>
    { s with subscribing := s.subscribing.insert id (.listening filter s.bus.sender.subscribe) }
  | some (.listening filter receiver) =>
    { s with subscribing := s.subscribing.insert id (.positioned filter receiver s.bus.nextSeq) }
  | some (.positioned filter receiver current) =>
    if s.polling.keys = [] then s.insertSubscription id filter receiver current else s
  | none => s

/-! ### poll -/

/-- An unknown subscription has nothing to return; another poll of the subscription has to return first. -/
def poll : BusSystem :=
  match s.bus.subscriptions.lookup id, s.polling.lookup id with
  | some _, none => { s with polling := s.polling.insert id (.receiving []) }
  | _, _ => s

def setPolling (p : Polling) (s : BusSystem) : BusSystem :=
  { s with polling := s.polling.insert id p }

/-- One turn of the loop. -/
def receive (sub : Subscription) (events : List KernelEvent) (s : BusSystem) : BusSystem :=
  match s.bus.sender.tryRecv sub.receiver with
  | (.message event, receiver) =>
    (s.setSubscription id { sub with receiver }).setPolling id
      (.receiving (if wanted sub.filter event then events ++ [event] else events))
  | (.empty, receiver) =>
    (s.setSubscription id { sub with receiver }).setPolling id (.finishing events s.bus.sender.sent.length)
  | (.lagged _, receiver) => (s.setSubscription id { sub with receiver }).setPolling id (.recovering events)

/-- What the log has instead of the messages that were missed. -/
def recovered (sub : Subscription) (s : BusSystem) : List KernelEvent :=
  ((s.bus.eventLog.eventsSince sub.lastSeenSeq).map SequencedEvent.event).filter (wanted sub.filter)

def finish (sub : Subscription) (events : List KernelEvent) (upTo : Nat) (s : BusSystem) : BusSystem :=
  let sub := if events = [] then sub else { sub with lastSeenSeq := s.bus.nextSeq }
  { s.setSubscription id sub with polling := s.polling.erase id, polled := s.polled ++ [⟨id, events, upTo⟩] }

def pollStep : BusSystem :=
  match s.bus.subscriptions.lookup id, s.polling.lookup id with
  | some sub, some (.receiving events) => s.receive id sub events
  | some sub, some (.recovering events) =>
    s.setPolling id (.finishing (events ++ s.recovered sub) s.bus.sender.sent.length)
  | some sub, some (.finishing events upTo) => s.finish id sub events upTo
  | _, _ => s

/-! ### unsubscribe -/

def unsubscribe : BusSystem :=
  if s.polling.keys = [] then { s with bus := { s.bus with subscriptions := s.bus.subscriptions.erase id } } else s

def step : BusAction → BusSystem
  | .emit event now => s.emit event now
  | .emitStep seq => s.emitStep seq
  | .subscribe filter => s.subscribe filter
  | .subscribeStep id => s.subscribeStep id
  | .poll id => s.poll id
  | .pollStep id => s.pollStep id
  | .unsubscribe id => s.unsubscribe id

def run (actions : List BusAction) : BusSystem := actions.foldl step s

end BusSystem

end Plico.Kernel
