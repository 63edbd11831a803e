import Plico.Model.Fs.Context
import Plico.Model.Kernel.EventBus

/-!
# Sessions and their deltas (kernel/ops/session.rs, kernel/ops/delta.rs)

`start_session` records a session and tells the agent which of its events were emitted since a position that it
passes; `end_session` removes the session. Both return the number of the next event as the position to pass next time.
Events may be emitted while a session starts: what matters is whether they come before or after the position is read,
and before or after the log is read. Nothing is read from the log when a session ends.
-/

namespace Plico.Kernel

open Fs (takeBytes)

/-! ## Change entries -/

structure ChangeEntry where
  cid : String
  changeType : String
  summary : String
  changedAtMs : Nat
  changedBy : String
  seq : Nat
  deriving DecidableEq, Repr

/-- `&cid[..8.min(cid.len())]`, which panics inside a character. -/
def cidHead (cid : String) : Option String :=
  if (utf8 cid).length ≤ 8 then some cid else (takeBytes 8 cid.toList).map String.ofList

structure ChangeParts where
  cid : String
  changeType : String
  tags : List String
  changedBy : String

def changeParts : KernelEvent → ChangeParts
  | .objectStored cid agentId tags => ⟨cid, "stored", tags, agentId⟩
  | .memoryStored agentId tier => ⟨"memory:" ++ tier, "memory_stored", [], agentId⟩
  | .agentStateChanged agentId oldState newState =>
    ⟨"agent:" ++ agentId, "state_changed:" ++ oldState ++ "->" ++ newState, [], agentId⟩
  | .intentSubmitted intentId agentId _ => ⟨"intent:" ++ intentId, "intent_submitted", [], agentId.getD ""⟩
  | .intentCompleted intentId success =>
    ⟨"intent:" ++ intentId, if success then "intent_completed" else "intent_failed", [], "system"⟩
  | .eventCreated eventId _ agentId => ⟨"event:" ++ eventId, "event_created", [], agentId⟩
  | .knowledgeShared cid agentId scope tags _ => ⟨cid, "knowledge_shared:" ++ scope, tags, agentId⟩
  | .knowledgeSuperseded oldCid newCid agentId => ⟨newCid, "knowledge_superseded:" ++ oldCid, [], agentId⟩
  | .taskDelegated taskId fromAgent toAgent =>
    ⟨"task:" ++ taskId, "task_delegated:" ++ fromAgent ++ "->" ++ toAgent, [], fromAgent⟩
  | .taskCompleted taskId agentId resultCids =>
    ⟨"task:" ++ taskId, "task_completed:" ++ toString resultCids.length ++ "results", [], agentId⟩
  | .verificationFailed toolName operation reason agentId =>
    ⟨"verification:" ++ toolName, "verification_failed:" ++ operation, [reason], agentId⟩
  | .cognitiveConflictDetected conflictId conflictType description _ agentId _ =>
    ⟨"conflict:" ++ conflictId, "conflict_detected:" ++ conflictType, [description], agentId⟩

def changeEntryFromEvent (e : SequencedEvent) : Option ChangeEntry :=
  let parts := changeParts e.event
  (cidHead parts.cid).map fun head =>
    let described := e.event.eventTypeName ++ " " ++ head ++ " by " ++ parts.changedBy
    { cid := parts.cid
      changeType := parts.changeType
      summary := if parts.tags = [] then described else described ++ " [" ++ ",".intercalate parts.tags ++ "]"
      changedAtMs := e.timestampMs
      changedBy := parts.changedBy
      seq := e.seq }

/-! ## The session store -/

structure ActiveSession where
  sessionId : String
  agentId : String
  createdAtMs : Nat
  lastActiveMs : Nat
  startSeq : Nat
  currentIntent : Option String
  deriving DecidableEq

def ActiveSession.new (sessionId agentId : String) (startSeq now : Nat) : ActiveSession :=
  ⟨sessionId, agentId, now, now, startSeq, none⟩

abbrev SessionStore := AList (fun _ : String => ActiveSession)

inductive SessionError where
  | notFound (sessionId : String)
  | ownership (sessionId agentId : String)
  | persistence (operation source : String)
  deriving DecidableEq

/-- `fault` is the error of the write of the snapshot, if it fails. -/
def SessionStore.beginPersisted (store : SessionStore) (session : ActiveSession) (fault : Option String) :
    Except SessionError Unit × SessionStore :=
  let sessions := store.insert session.sessionId session
  match fault with
  | some source => (.error (.persistence "start" source), sessions.erase session.sessionId)
  | none => (.ok (), sessions)

def SessionStore.finishPersisted (store : SessionStore) (agentId sessionId : String) (fault : Option String) :
    Except SessionError Unit × SessionStore :=
  match store.lookup sessionId with
  | none => (.error (.notFound sessionId), store)
  | some session =>
    if session.agentId ≠ agentId then (.error (.ownership sessionId agentId), store)
    else
      let sessions := store.erase sessionId
      match fault with
      | some source => (.error (.persistence "end" source), sessions.insert sessionId session)
      | none => (.ok (), sessions)

/-! ## Starting and ending sessions -/

/-- An event with the time at which it is emitted. -/
abbrev Emission := KernelEvent × Nat

/-- `emit` without another call in between. -/
def EventBus.emit (bus : EventBus) (e : Emission) : EventBus :=
  { bus with
    nextSeq := bus.nextSeq + 1
    eventLog := bus.eventLog.push ⟨bus.nextSeq, e.2, e.1⟩
    sender := bus.sender.send e.1 }

def EventBus.emitAll (bus : EventBus) (es : List Emission) : EventBus := es.foldl .emit bus

structure SessionSystem where
  bus : EventBus
  sessions : SessionStore

def SessionSystem.new (broadcastCapacity logCapacity : Nat) : SessionSystem := ⟨.new broadcastCapacity logCapacity, ∅⟩

structure StartSessionResult where
  sessionId : String
  changesSinceLast : List ChangeEntry
  watermark : Nat
  deriving DecidableEq

/-- How a start ends without a result. -/
inductive StartFailure where
  | error (e : SessionError)
  | panicked
  deriving DecidableEq

structure StartSessionParams where
  agentId : String
  lastSeenSeq : Option Nat
  -- what the call finds: the id it draws, the clock, the disk, and the events emitted before it reads the log
  sessionId : String
  now : Nat
  fault : Option String
  during : List Emission

/-- The entries of an agent's events after a position. -/
def deltaSince (bus : EventBus) (agentId : String) (sinceSeq : Nat) : Option (List ChangeEntry) :=
  ((bus.eventLog.eventsSince sinceSeq).filter fun e => e.event.agentId = some agentId).mapM changeEntryFromEvent

def startSession (p : StartSessionParams) (s : SessionSystem) :
    Except StartFailure StartSessionResult × SessionSystem :=
  let watermark := s.bus.nextSeq
  let bus := s.bus.emitAll p.during
  match s.sessions.beginPersisted (.new p.sessionId p.agentId watermark p.now) p.fault with
  | (.error e, sessions) => (.error (.error e), ⟨bus, sessions⟩)
  | (.ok _, sessions) =>
    let sinceSeq := p.lastSeenSeq.getD watermark
    let changes := if sinceSeq < watermark then deltaSince bus p.agentId sinceSeq else some []
    (match changes with
      | some changesSinceLast => .ok ⟨p.sessionId, changesSinceLast, watermark⟩
      | none => .error .panicked, ⟨bus, sessions⟩)

/-- The position at the end, and the store without the session. -/
def endSession (agentId sessionId : String) (fault : Option String) (s : SessionSystem) :
    Except SessionError Nat × SessionSystem :=
  let lastSeq := s.bus.nextSeq
  match s.sessions.finishPersisted agentId sessionId fault with
  | (.error e, sessions) => (.error e, ⟨s.bus, sessions⟩)
  | (.ok _, sessions) => (.ok lastSeq, ⟨s.bus, sessions⟩)

inductive SessionOp where
  | emit (e : Emission)
  | start (p : StartSessionParams)
  | finish (agentId sessionId : String) (fault : Option String)

def SessionSystem.step (s : SessionSystem) : SessionOp → SessionSystem
  | .emit e => { s with bus := s.bus.emit e }
  | .start p => (startSession p s).2
  | .finish agentId sessionId fault => (endSession agentId sessionId fault s).2

end Plico.Kernel
