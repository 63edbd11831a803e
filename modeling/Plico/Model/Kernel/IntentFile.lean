import Plico.Model.Kernel.Persistence
import Plico.Model.Scheduler.Agent

/-!
# The file of the queued intents (kernel/persistence.rs, submit_intent of kernel/ops/agent.rs)

`submit_intent` queues its intent and then saves the whole queue to `intent_index.json`; periodic saves do the same,
and the dispatcher takes intents from the queue without touching the file. A start reads the file, queues its intents
again and removes the file. A crash may come between any two steps. An intent gets its id just before it is queued, so
the check of its agent's state and the queueing are one step here; the state is an input.
-/

namespace Plico.Kernel

open Scheduler

/-- Where a `submit_intent` or a periodic `persist_intents` (without an intent) is. A snapshot carries the number of
dequeues before it. -/
inductive IntentCallPhase where
  | queued
  | taken (intents : List Intent) (seen : Nat)
  | written (intents : List Intent) (seen : Nat)
  | returned
  deriving DecidableEq

structure IntentCall where
  intent : Option Intent
  phase : IntentCallPhase
  deriving DecidableEq

/-- The call has a snapshot that is not in place yet. -/
def IntentCall.saving (call : IntentCall) : Bool :=
  match call.phase with
  | .taken .. | .written .. => true
  | _ => false

/-- The process: none, between reading the file and removing it, or started. -/
inductive ProcessPhase where
  | down
  | restoring
  | up
  deriving DecidableEq, Repr

structure IntentSystem (β : Type) where
  phase : ProcessPhase
  queue : SchedulerQueue
  disk : Disk JsonFile β
  calls : List IntentCall
  /-- Dequeued and not completed yet. -/
  running : List Intent
  /-- What the last start found in the file. -/
  restored : List Intent
  /-- The history: ids of all submitted intents, intents whose `submit_intent` returned, ids of dequeued and of
  completed ones, and the number of dequeues before the snapshot that is in place. -/
  issued : List String
  acknowledged : List Intent
  dequeued : List String
  completed : List String
  inFile : Nat

inductive IntentStep where
  | start
  | submit (intent : Intent) (state : Option AgentState)
  | persist
  | call (i : Nat)
  | dequeue (n : Nat)
  | complete (n : Nat)
  | crash
  deriving DecidableEq

namespace IntentSystem

variable {β : Type} (codec : Codec (List Intent) β Eq)

/-- A vault that no process has opened yet. -/
def fresh : IntentSystem β where
  phase := .down
  queue := []
  disk := .empty
  calls := []
  running := []
  restored := []
  issued := []
  acknowledged := []
  dequeued := []
  completed := []
  inFile := 0

variable (s : IntentSystem β)

/-- `restore_intents`: the intents of a readable file are queued, and the file is removed in any case. -/
def start : IntentSystem β :=
  match s.phase with
  | .down =>
    let restored := ((s.disk.read .index).bind codec.decode).getD []
    { s with phase := .restoring, queue := s.queue.restoreIntents restored, restored }
  | .restoring => { s with phase := .up, disk := (s.disk.remove .index).getD s.disk }
  | .up => s

def submit (intent : Intent) (state : Option AgentState) : IntentSystem β :=
  if state.any AgentState.isTerminal then s
  else
    { s with
      queue := s.queue.push intent
      issued := s.issued ++ [intent.id]
      calls := s.calls ++ [⟨some intent, .queued⟩] }

/-- One step of a call. The snapshot is the queue: the order of its entries means nothing to a heap. -/
def callStep (i : Nat) (call : IntentCall) : IntentSystem β :=
  match call.phase with
  | .queued => { s with calls := s.calls.set i { call with phase := .taken s.queue s.dequeued.length } }
  | .taken intents seen =>
    { s with
      disk := s.disk.writeFile .temp (codec.encode intents)
      calls := s.calls.set i { call with phase := .written intents seen } }
  | .written _ seen =>
    { s with
      disk := moveIntoPlace s.disk
      inFile := seen
      acknowledged := s.acknowledged ++ call.intent.toList
      calls := s.calls.set i { call with phase := .returned } }
  | .returned => s

def dequeue (n : Nat) : IntentSystem β :=
  match s.queue.popAt n with
  | some (intent, queue) =>
    { s with queue, running := s.running ++ [intent], dequeued := s.dequeued ++ [intent.id] }
  | none => s

def complete (n : Nat) : IntentSystem β :=
  match s.running[n]? with
  | some intent => { s with running := s.running.eraseIdx n, completed := s.completed ++ [intent.id] }
  | none => s

def crash : IntentSystem β :=
  { s with phase := .down, queue := [], calls := [], running := [], restored := [] }

/-- A step of a started process. -/
def upStep : IntentStep → IntentSystem β
  | .submit intent state => s.submit intent state
  | .persist => { s with calls := s.calls ++ [⟨none, .queued⟩] }
  | .call i =>
    match s.calls[i]? with
    | some call => s.callStep codec i call
    | none => s
  | .dequeue n => s.dequeue n
  | .complete n => s.complete n
  | .start | .crash => s

def step : IntentStep → IntentSystem β
  | .crash => s.crash
  | .start => s.start codec
  | action => if s.phase = .up then s.upStep codec action else s

def run (steps : List IntentStep) : IntentSystem β :=
  steps.foldl (step codec) s

end IntentSystem

end Plico.Kernel
