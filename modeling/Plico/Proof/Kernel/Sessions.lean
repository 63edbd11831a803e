import Plico.Framework.Log
import Plico.Framework.Run
import Plico.Model.Kernel.Sessions

/-!
# What a client learns from its sessions

A client passes, at each start of a session, the position it got from the start before or from the end in between, and
collects the changes it is told. The positions are numbers of events to come and the log is asked for the events after
them, so the event that gets the number of the position is never told; nor are those of the session, when the position
is that of its end; and an event that is emitted while a session starts is told at once and again the next time. Without
such events the client learns every event of its agent once (`deltas_gap_free`).
-/

namespace Plico.Kernel

open Option SessionOp List

variable {agent : String} {es es' : List Emission} {e : SequencedEvent}

/-! ## Emitted events -/

/-- The events of a bus that was new. -/
def emitted (es : List Emission) : List SequencedEvent := numbered (fun e n => ⟨n, e.2, e.1⟩) 0 es

def agentEvents (agent : String) (es : List Emission) : List SequencedEvent :=
  (emitted es).filter fun e => e.event.agentId = some agent

/-- The agent's events from one position up to another. -/
def agentSpan (agent : String) (es : List Emission) (start stop : Nat) : List SequencedEvent :=
  within SequencedEvent.seq start stop (agentEvents agent es)

theorem seq_le_of_emitted (h : e ∈ emitted es) : e.seq ≤ es.length := by
  obtain ⟨-, -, m, -, hm, rfl⟩ := mem_numbered h
  rwa [Nat.zero_add] at hm

theorem mem_emitted_append (h : e ∈ emitted (es ++ es')) :
    e ∈ emitted es ∨ es.length < e.seq ∧ ∃ x ∈ es', e.event = x.1 := by
  rw [emitted, numbered_append] at h
  obtain h | h := mem_append.mp h
  · exact .inl h
  · obtain ⟨x, hx, m, hm, -, rfl⟩ := mem_numbered h
    rw [Nat.zero_add] at hm
    exact .inr ⟨hm, x, hx, rfl⟩

theorem agentEvents_sorted : (agentEvents agent es).Pairwise fun a b => a.seq < b.seq :=
  (pairwise_numbered (fun _ _ => rfl) 0 es).filter _

/-- What is emitted later does not change the events up to a position that has been reached. -/
theorem agentSpan_append {start stop : Nat} (h : stop ≤ es.length + 1) :
    agentSpan agent (es ++ es') start stop = agentSpan agent es start stop := by
  unfold agentSpan agentEvents
  rw [emitted, numbered_append, filter_append]
  refine within_append_of_le fun e he => ?_
  obtain ⟨-, -, m, hm, -, rfl⟩ := mem_numbered (mem_of_mem_filter he)
  rw [Nat.zero_add] at hm
  exact h.trans hm

/-! ## The log -/

/-- The log of a bus that was new, as long as nothing was evicted. -/
structure Logged (bus : EventBus) (es : List Emission) : Prop where
  events : bus.eventLog.events = emitted es
  minSeq : bus.eventLog.minSeq = 0
  nextSeq : bus.nextSeq = es.length + 1

theorem Logged.new (broadcastCapacity logCapacity : Nat) : Logged (.new broadcastCapacity logCapacity) [] :=
  ⟨rfl, rfl, rfl⟩

@[simp] theorem push_maxCapacity (log : RingEventLog) (e : SequencedEvent) :
    (log.push e).maxCapacity = log.maxCapacity := by
  unfold RingEventLog.push
  split
  · split <;> rfl
  · rfl

variable {bus : EventBus} {p : StartSessionParams}

theorem Logged.emit (h : Logged bus es) (e : Emission) (hroom : es.length < bus.eventLog.maxCapacity) :
    Logged (bus.emit e) (es ++ [e]) := by
  have hlength : bus.eventLog.events.length = es.length := by rw [h.events, emitted, length_numbered]
  have hpush : bus.eventLog.push ⟨bus.nextSeq, e.2, e.1⟩ =
      { bus.eventLog with events := bus.eventLog.events ++ [⟨bus.nextSeq, e.2, e.1⟩] } :=
    if_neg (by rw [hlength]; exact Nat.not_le.mpr hroom)
  refine ⟨?_, ?_, ?_⟩
  · show (bus.eventLog.push ⟨bus.nextSeq, e.2, e.1⟩).events = emitted (es ++ [e])
    rw [hpush, h.nextSeq, emitted, numbered_append, Nat.zero_add]
    exact congrArg (· ++ _) h.events
  · show (bus.eventLog.push ⟨bus.nextSeq, e.2, e.1⟩).minSeq = 0
    rw [hpush]
    exact h.minSeq
  · show bus.nextSeq + 1 = (es ++ [e]).length + 1
    rw [h.nextSeq, length_append, length_singleton]

theorem emitAll_maxCapacity (bus : EventBus) (es : List Emission) :
    (bus.emitAll es).eventLog.maxCapacity = bus.eventLog.maxCapacity := by
  induction es generalizing bus with
  | nil => rfl
  | cons e es ih => exact (ih (bus.emit e)).trans (push_maxCapacity _ _)

theorem Logged.emitAll (h : Logged bus es) (hroom : (es ++ es').length ≤ bus.eventLog.maxCapacity) :
    Logged (bus.emitAll es') (es ++ es') := by
  induction es' generalizing bus es with
  | nil => rwa [append_nil]
  | cons e es' ih =>
    simp only [length_append, length_cons] at hroom
    have hnext := ih (h.emit e (by omega)) (by simp [EventBus.emit]; omega)
    rwa [append_assoc] at hnext

/-- The log is asked for what comes after a position. -/
theorem Logged.deltaSince (h : Logged bus es) (agent : String) (sinceSeq : Nat) :
    Kernel.deltaSince bus agent sinceSeq =
      ((agentEvents agent es).filter fun e => sinceSeq < e.seq).mapM changeEntryFromEvent := by
  unfold Kernel.deltaSince agentEvents RingEventLog.eventsSince
  rw [h.minSeq, h.events, filter_comm]
  simp

/-! ## The client -/

/-- What the client of an agent has: the watermark of its first and of its latest start, the positions it may pass next
and the changes it was told. -/
structure Client where
  first : Option Nat
  watermark : Nat
  saved : List Nat
  changes : List ChangeEntry

def Client.new : Client := ⟨none, 0, [], []⟩

def Client.started (c : Client) (r : StartSessionResult) : Client :=
  ⟨some (c.first.getD r.watermark), r.watermark, [r.watermark], c.changes ++ r.changesSinceLast⟩

def Client.observe (agent : String) (s : SessionSystem) (c : Client) : SessionOp → Client
  | .emit _ => c
  | .start p =>
    if p.agentId = agent then
      match (startSession p s).1 with
      | .ok r => c.started r
      | .error _ => c
    else c
  | .finish agentId sessionId fault =>
    if agentId = agent then
      match (endSession agentId sessionId fault s).1 with
      | .ok lastSeq => { c with saved := c.saved ++ [lastSeq] }
      | .error _ => c
    else c

/-- The system with the client of an agent. -/
structure Watched where
  system : SessionSystem
  client : Client

def Watched.new (broadcastCapacity logCapacity : Nat) : Watched := ⟨.new broadcastCapacity logCapacity, .new⟩

def Watched.step (agent : String) (w : Watched) (op : SessionOp) : Watched :=
  ⟨w.system.step op, w.client.observe agent w.system op⟩

def Watched.run (agent : String) (w : Watched) (ops : List SessionOp) : Watched := ops.foldl (step agent) w

/-- The agent passes what it has saved, nothing at its first start. -/
def Chained (agent : String) (w : Watched) : SessionOp → Prop
  | .start p => p.agentId = agent →
    match w.client.first, p.lastSeenSeq with
    | none, sinceSeq => sinceSeq = none
    | some _, none => False
    | some _, some sinceSeq => sinceSeq ∈ w.client.saved
  | _ => True

/-- No event of the agent has a number from the latest watermark up to the position that is passed, and where the log is
read none is emitted before that. -/
def Seamless (agent : String) (w : Watched) : SessionOp → Prop
  | .start p => p.agentId = agent →
    match p.lastSeenSeq with
    | none => True
    | some sinceSeq =>
      (∀ e ∈ w.system.bus.eventLog.events, e.event.agentId = some agent → e.seq ≤ sinceSeq →
        e.seq < w.client.watermark) ∧
        (sinceSeq < w.system.bus.nextSeq → ∀ e ∈ p.during, e.1.agentId ≠ some agent)
  | _ => True

instance (agent : String) (w : Watched) : (op : SessionOp) → Decidable (Chained agent w op)
  | .start p =>
    have : Decidable (match w.client.first, p.lastSeenSeq with
        | none, sinceSeq => sinceSeq = none
        | some _, none => False
        | some _, some sinceSeq => sinceSeq ∈ w.client.saved) :=
      match w.client.first, p.lastSeenSeq with
      | none, sinceSeq => inferInstanceAs (Decidable (sinceSeq = none))
      | some _, none => inferInstanceAs (Decidable False)
      | some _, some sinceSeq => inferInstanceAs (Decidable (sinceSeq ∈ w.client.saved))
    inferInstanceAs (Decidable (p.agentId = agent → _))
  | .emit _ => inferInstanceAs (Decidable True)
  | .finish .. => inferInstanceAs (Decidable True)

instance (agent : String) (w : Watched) : (op : SessionOp) → Decidable (Seamless agent w op)
  | .start p =>
    have : Decidable (match p.lastSeenSeq with
        | none => True
        | some sinceSeq =>
          (∀ e ∈ w.system.bus.eventLog.events, e.event.agentId = some agent → e.seq ≤ sinceSeq →
            e.seq < w.client.watermark) ∧
            (sinceSeq < w.system.bus.nextSeq → ∀ e ∈ p.during, e.1.agentId ≠ some agent)) :=
      match p.lastSeenSeq with
      | none => inferInstanceAs (Decidable True)
      | some _ => inferInstanceAs (Decidable (_ ∧ _))
    inferInstanceAs (Decidable (p.agentId = agent → _))
  | .emit _ => inferInstanceAs (Decidable True)
  | .finish .. => inferInstanceAs (Decidable True)

def SessionOp.emissions : SessionOp → List Emission
  | .emit e => [e]
  | .start p => p.during
  | .finish .. => []

/-! ## Steps -/

/-- The client has been told exactly the agent's events from its first watermark up to the latest one. -/
structure Told (agent : String) (es : List Emission) (c : Client) : Prop where
  unstarted : c.first = none → c.changes = []
  since : ∀ first, c.first = some first → first ≤ c.watermark ∧ c.watermark ≤ es.length + 1 ∧
    (∀ position ∈ c.saved, c.watermark ≤ position ∧ position ≤ es.length + 1) ∧
      (agentSpan agent es first c.watermark).mapM changeEntryFromEvent = some c.changes

variable {c : Client}

theorem Told.emit (h : Told agent es c) (es' : List Emission) : Told agent (es ++ es') c where
  unstarted := h.unstarted
  since first hfirst := by
    obtain ⟨hle, hwatermark, hsaved, hchanges⟩ := h.since first hfirst
    have hlength : es.length + 1 ≤ (es ++ es').length + 1 := by
      rw [length_append]
      omega
    refine ⟨hle, hwatermark.trans hlength, fun p hp => ?_, ?_⟩
    · exact ⟨(hsaved p hp).1, (hsaved p hp).2.trans hlength⟩
    · rwa [agentSpan_append hwatermark]

theorem Told.ended (h : Told agent es c) : Told agent es { c with saved := c.saved ++ [es.length + 1] } where
  unstarted := h.unstarted
  since first hfirst := by
    obtain ⟨hle, hwatermark, hsaved, hchanges⟩ := h.since first hfirst
    refine ⟨hle, hwatermark, fun p hp => ?_, hchanges⟩
    obtain hp | rfl := mem_concat.mp hp
    · exact hsaved p hp
    · exact ⟨hwatermark, le_rfl⟩

theorem startSession_bus {s : SessionSystem} : (startSession p s).2.bus = s.bus.emitAll p.during := by
  unfold startSession
  dsimp only
  split <;> rfl

variable {s : SessionSystem} {r : StartSessionResult} {fault : Option String} {sessionId agentId : String} {w : Watched}
  {op : SessionOp}

theorem startSession_eq_ok
    (h : (startSession p s).1 = .ok r) : r.watermark = s.bus.nextSeq ∧
      (if p.lastSeenSeq.getD s.bus.nextSeq < s.bus.nextSeq then
        deltaSince (s.bus.emitAll p.during) p.agentId (p.lastSeenSeq.getD s.bus.nextSeq)
      else some []) = some r.changesSinceLast := by
  unfold startSession at h
  dsimp only at h
  split at h
  · cases h
  · split at h
    · next hchanges =>
      cases h
      exact ⟨rfl, hchanges⟩
    · cases h

theorem endSession_bus : (endSession agentId sessionId fault s).2.bus = s.bus := by
  unfold endSession
  split <;> rfl

theorem endSession_eq_ok {lastSeq : Nat}
    (h : (endSession agentId sessionId fault s).1 = .ok lastSeq) : lastSeq = s.bus.nextSeq := by
  unfold endSession at h
  split at h <;> cases h
  rfl

/-- What a start tells when no event falls into a seam. -/
theorem delta_seamless {during : List Emission} {watermark sinceSeq : Nat}
    (hlogged : Logged (bus.emitAll during) (es ++ during)) (hsince : watermark ≤ sinceSeq)
    (hpast : ∀ e ∈ emitted es, e.event.agentId = some agent → e.seq ≤ sinceSeq → e.seq < watermark)
    (hduring : sinceSeq < es.length + 1 → ∀ e ∈ during, e.1.agentId ≠ some agent) :
    (if sinceSeq < es.length + 1 then deltaSince (bus.emitAll during) agent sinceSeq else some []) =
      (agentSpan agent es watermark (es.length + 1)).mapM changeEntryFromEvent := by
  rw [← agentSpan_append le_rfl]
  split
  · next hlt =>
    -- the events after the position are those from the watermark on, and none of them is too new
    rw [hlogged.deltaSince]
    congr 1
    refine filter_congr fun e he => decide_eq_decide.mpr ?_
    obtain ⟨hmem, hagent⟩ := mem_filter.mp he
    rw [decide_eq_true_eq] at hagent
    obtain hold | ⟨-, x, hx, heq⟩ := mem_emitted_append hmem
    · have hseq := seq_le_of_emitted hold
      have hseam := hpast e hold hagent
      omega
    · exact absurd (heq ▸ hagent) (hduring hlt x hx)
  · next hge =>
    have hnone : agentSpan agent (es ++ during) watermark (es.length + 1) = [] := by
      refine filter_eq_nil_iff.mpr fun e he hwithin => ?_
      obtain ⟨hmem, hagent⟩ := mem_filter.mp he
      rw [decide_eq_true_eq] at hagent hwithin
      obtain hold | ⟨hnew, -⟩ := mem_emitted_append hmem
      · have hseam := hpast e hold hagent
        omega
      · omega
    rw [hnone]
    rfl

theorem Told.started
    (h : Told p.agentId es c) (hbefore : Logged s.bus es) (hafter : Logged (s.bus.emitAll p.during) (es ++ p.during))
    (hchained : Chained p.agentId ⟨s, c⟩ (.start p)) (hseamless : Seamless p.agentId ⟨s, c⟩ (.start p))
    (hok : (startSession p s).1 = .ok r) : Told p.agentId (es ++ p.during) (c.started r) := by
  obtain ⟨hwatermark, hchanges⟩ := startSession_eq_ok hok
  rw [hbefore.nextSeq] at hwatermark hchanges
  have hreached : r.watermark ≤ (es ++ p.during).length + 1 := by
    rw [length_append]
    omega
  have hspan : ∀ start, agentSpan p.agentId (es ++ p.during) start r.watermark =
      agentSpan p.agentId es start (es.length + 1) := by
    intro start
    rw [hwatermark, agentSpan_append le_rfl]
  have hsaved : ∀ position ∈ [r.watermark], r.watermark ≤ position ∧ position ≤ (es ++ p.during).length + 1 := by
    intro position hposition
    cases mem_singleton.mp hposition
    exact ⟨le_rfl, hreached⟩
  refine ⟨fun hnone => (by cases hnone), fun first hfirst => ?_⟩
  cases hfirst
  specialize hchained rfl
  specialize hseamless rfl
  cases hf : c.first with
  | none =>
    -- the first start passes no position and is told nothing
    simp only [hf] at hchained
    simp only [hchained, getD_none, lt_irrefl, if_false, some.injEq] at hchanges
    refine ⟨le_rfl, hreached, hsaved, ?_⟩
    simp only [Client.started, getD_none, h.unstarted hf, ← hchanges]
    have hnone : agentSpan p.agentId (es ++ p.during) r.watermark r.watermark = [] :=
      filter_eq_nil_iff.mpr fun e _ => by simp
    rw [hnone]
    rfl
  | some first =>
    obtain ⟨hle, hlast, hpositions, htold⟩ := h.since first hf
    cases hsince : p.lastSeenSeq with
    | none =>
      simp only [hf, hsince] at hchained
    | some sinceSeq =>
      simp only [hf, hsince] at hchained hseamless
      simp only [hsince, getD_some] at hchanges
      rw [hbefore.events, hbefore.nextSeq] at hseamless
      rw [delta_seamless hafter (hpositions sinceSeq hchained).1 hseamless.1 hseamless.2] at hchanges
      have hfirst : first ≤ r.watermark := hwatermark ▸ hle.trans hlast
      refine ⟨hfirst, hreached, hsaved, ?_⟩
      show (agentSpan p.agentId (es ++ p.during) first r.watermark).mapM changeEntryFromEvent = _
      rw [hspan, agentSpan, ← within_append agentEvents_sorted hle hlast, mapM_append]
      unfold agentSpan at htold hchanges
      rw [htold, hchanges]
      rfl

theorem Watched.step_logged (h : Logged w.system.bus es)
    (hroom : (es ++ op.emissions).length ≤ w.system.bus.eventLog.maxCapacity) :
    Logged (w.step agent op).system.bus (es ++ op.emissions) := by
  cases op with
  | emit e => exact h.emitAll hroom
  | start p =>
    show Logged (startSession p w.system).2.bus (es ++ p.during)
    rw [startSession_bus]
    exact h.emitAll hroom
  | finish agentId sessionId fault =>
    show Logged (endSession agentId sessionId fault w.system).2.bus (es ++ [])
    rwa [endSession_bus, append_nil]

theorem Watched.step_maxCapacity (agent : String) (w : Watched) (op : SessionOp) :
    (w.step agent op).system.bus.eventLog.maxCapacity = w.system.bus.eventLog.maxCapacity := by
  cases op with
  | emit e => exact push_maxCapacity _ _
  | start p =>
    show (startSession p w.system).2.bus.eventLog.maxCapacity = _
    rw [startSession_bus, emitAll_maxCapacity]
  | finish agentId sessionId fault =>
    show (endSession agentId sessionId fault w.system).2.bus.eventLog.maxCapacity = _
    rw [endSession_bus]

theorem Watched.step_told (hlogged : Logged w.system.bus es)
    (hroom : (es ++ op.emissions).length ≤ w.system.bus.eventLog.maxCapacity) (htold : Told agent es w.client)
    (hchained : Chained agent w op) (hseamless : Seamless agent w op) :
    Told agent (es ++ op.emissions) (w.step agent op).client := by
  cases op with
  | emit e => exact htold.emit [e]
  | start p =>
    simp only [Watched.step, Client.observe]
    split
    · next hagent =>
      subst hagent
      split
      · next r hok => exact htold.started hlogged (hlogged.emitAll hroom) hchained hseamless hok
      · exact htold.emit p.during
    · exact htold.emit p.during
  | finish agentId sessionId fault =>
    simp only [Watched.step, Client.observe, emissions, append_nil]
    split
    · split
      · next lastSeq hok =>
        rw [endSession_eq_ok hok, hlogged.nextSeq]
        exact htold.ended
      · exact htold
    · exact htold

/-! ## Runs -/

theorem Watched.run_told {ops : List SessionOp} (hlogged : Logged w.system.bus es)
    (hroom : (es ++ ops.flatMap emissions).length ≤ w.system.bus.eventLog.maxCapacity)
    (htold : Told agent es w.client) (hchained : Throughout (Watched.step agent) (Chained agent) w ops)
    (hseamless : Throughout (Watched.step agent) (Seamless agent) w ops) :
    Told agent (es ++ ops.flatMap emissions) (w.run agent ops).client := by
  induction ops generalizing w es with
  | nil => rwa [flatMap_nil, append_nil]
  | cons op ops ih =>
    rw [flatMap_cons, ← append_assoc] at hroom ⊢
    have hfirst : (es ++ op.emissions).length ≤ w.system.bus.eventLog.maxCapacity := by
      rw [length_append] at hroom
      omega
    exact ih (w.step_logged hlogged hfirst) (by rwa [w.step_maxCapacity])
      (w.step_told hlogged hfirst htold hchained.1 hseamless.1) hchained.2 hseamless.2

/-- Over every run in which each start passes a saved position and no event of the agent falls into a seam, and for
every agent, the changes told are the agent's events from the first watermark up to the latest one, each once. -/
theorem deltas_gap_free {broadcastCapacity logCapacity : Nat} {ops : List SessionOp}
    (htotal : (ops.flatMap emissions).length ≤ logCapacity)
    (hchained : Throughout (Watched.step agent) (Chained agent) (.new broadcastCapacity logCapacity) ops)
    (hseamless : Throughout (Watched.step agent) (Seamless agent) (.new broadcastCapacity logCapacity) ops) :
    ∀ first, ((Watched.new broadcastCapacity logCapacity).run agent ops).client.first = some first →
      (agentSpan agent (ops.flatMap emissions) first
          ((Watched.new broadcastCapacity logCapacity).run agent ops).client.watermark).mapM changeEntryFromEvent =
        some ((Watched.new broadcastCapacity logCapacity).run agent ops).client.changes := by
  intro first hfirst
  have hroom := htotal
  have htold := Watched.run_told (.new broadcastCapacity logCapacity) hroom
    ⟨fun _ => rfl, fun _ h => (by cases h)⟩ hchained hseamless
  exact (htold.since first hfirst).2.2.2

/-! ## Runs with and without events in the seams -/

section Samples

def stored (agentId cid : String) : Emission := (.objectStored cid agentId [], 0)

def starting (agentId sessionId : String) (lastSeenSeq : Option Nat) (during : List Emission) : SessionOp :=
  .start ⟨agentId, lastSeenSeq, sessionId, 0, none, during⟩

def ending (agentId sessionId : String) : SessionOp := .finish agentId sessionId none

def sampleSystem : Watched := .new defaultBroadcastCapacity defaultEventLogCapacity

/-- The numbers of the changes that agent `a` is told. -/
def toldSeqs (ops : List SessionOp) : List Nat := (sampleSystem.run "a" ops).client.changes.map ChangeEntry.seq

/-- The numbers of its events from the first watermark up to the latest one. -/
def ownSeqs (ops : List SessionOp) : List Nat :=
  (agentSpan "a" (ops.flatMap emissions) ((sampleSystem.run "a" ops).client.first.getD 0)
    (sampleSystem.run "a" ops).client.watermark).map SequencedEvent.seq

/-- Three sessions; the other agent's events take the numbers of the positions. -/
def separated : List SessionOp :=
  [starting "a" "s1" none [stored "b" "c1"], .emit (stored "a" "c2"), starting "b" "s2" none [],
    starting "a" "s3" (some 1) [], .emit (stored "b" "c3"), ending "a" "s3", .emit (stored "b" "c4"),
    .emit (stored "a" "c5"), .emit (stored "a" "c6"), starting "a" "s4" (some 4) [stored "b" "c7"]]

theorem separated_told :
    toldSeqs separated = [2, 5, 6] ∧ (sampleSystem.run "a" separated).client.first = some 1 ∧
      (agentSpan "a" (separated.flatMap emissions) 1 (sampleSystem.run "a" separated).client.watermark).mapM
        changeEntryFromEvent = some (sampleSystem.run "a" separated).client.changes :=
  ⟨by decide +kernel, by decide +kernel,
    deltas_gap_free (by decide +kernel) (by decide +kernel) (by decide +kernel) 1 (by decide +kernel)⟩

/-- The agent's event gets the number of the watermark. -/
def atWatermark : List SessionOp :=
  [starting "a" "s1" none [], .emit (stored "a" "c1"), starting "a" "s2" (some 1) []]

/-- The position is that of the end of the first session. -/
def fromEnd : List SessionOp :=
  [starting "a" "s1" none [], .emit (stored "a" "c1"), .emit (stored "a" "c2"), ending "a" "s1",
    .emit (stored "b" "c3"), .emit (stored "a" "c4"), starting "a" "s2" (some 3) []]

/-- The agent's event is emitted while its second session starts. -/
def whileStarting : List SessionOp :=
  [starting "a" "s1" none [], .emit (stored "b" "c1"), .emit (stored "b" "c2"),
    starting "a" "s2" (some 1) [stored "b" "c3", stored "a" "c4"], starting "a" "s3" (some 3) []]

/-- An event at the watermark is lost, so are those of a session whose end gives the position, and an event that is
emitted while a session starts is told twice. -/
theorem seams_lose_and_repeat :
    (∀ ops ∈ [atWatermark, fromEnd, whileStarting], Throughout (Watched.step "a") (Chained "a") sampleSystem ops) ∧
      (toldSeqs atWatermark, ownSeqs atWatermark) = ([], [1]) ∧
      (toldSeqs fromEnd, ownSeqs fromEnd) = ([4], [1, 2, 4]) ∧
      (toldSeqs whileStarting, ownSeqs whileStarting) = ([4, 4], [4]) := by
  decide +kernel

end Samples

end Plico.Kernel
