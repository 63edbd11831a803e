import Plico.Proof.Scheduler.Queue
import Plico.Proof.Scheduler.Steps

/-!
# One call at a time, and once

A task that has given up on its call leaves it running and moves the agent to Failed, a state that admits no further
intent: so a live call either belongs to the task that holds the lock of its agent or to an agent that has come to its
end (`Exclusive`). This fails for an agent that cannot be moved to Failed, one that is suspended or not registered. Each
intent is in one place on its way from the queue to its task (`Accounted`), whatever happens.
-/

namespace Plico.Scheduler

open List

variable {s s' : DispatchSystem} {action : DispatchAction} {i j : Nat} {t t' : Task} {a : String}

/-! ## Live calls -/

/-- The task has a live call or is about to make one. -/
def Task.Claims (t : Task) : Prop := t.phase = .admitted ∨ t.Live

/-- The task has not concluded: it is waiting for the call, or the update of the state is still to come. -/
def TaskPhase.Open : TaskPhase → Prop
  | .awaiting _ | .settled _ => True
  | _ => False

namespace DispatchSystem

def Terminal (s : DispatchSystem) (a : String) : Prop := ∃ state, s.stateOf a = some state ∧ state.isTerminal

structure Exclusive (s : DispatchSystem) : Prop where
  lock : ∀ (i j : Nat) (t u : Task), s.tasks[i]? = some t → s.tasks[j]? = some u → t.phase.holdsLock →
    u.phase.holdsLock → t.intent.agentKey = u.intent.agentKey → i = j
  alone : ∀ (i j : Nat) (t u : Task) (a : String), s.tasks[i]? = some t → s.tasks[j]? = some u →
    t.intent.agentId = some a → u.intent.agentId = some a → t.Live → u.Claims → i = j
  closed : ∀ (i : Nat) (t : Task) (a : String), s.tasks[i]? = some t → t.intent.agentId = some a → t.Live →
    ¬ t.phase.Open → Terminal s a

theorem Exclusive.start (scheduler : AgentScheduler) (cpuTimeLimitMs : Nat) :
    Exclusive (.start scheduler cpuTimeLimitMs) where
  lock _ _ _ _ h := by cases h
  alone _ _ _ _ _ h := by cases h
  closed _ _ _ h := by cases h

theorem Terminal.step (h : Terminal s a) (action : DispatchAction) : Terminal (s.step action) a := by
  obtain ⟨state, hstate, hterminal⟩ := h
  refine ⟨_, stateOf_step hstate, ?_⟩
  unfold after
  split
  · split
    · rwa [AgentState.moved_of_terminal hterminal]
    · exact hterminal
  · exact hterminal

theorem not_lockFree {key : String} (hi : s.tasks[i]? = some t) (hholds : t.phase.holdsLock)
    (hkey : t.intent.agentKey = key) : s.lockFree key = false := by
  refine all_eq_false.mpr ⟨t, mem_of_getElem? hi, ?_⟩
  simp [hholds, hkey]

/-- A move of one task. -/
theorem Exclusive.move (h : Exclusive s) (hi : s.tasks[i]? = some t) (htasks : s'.tasks = s.tasks.set i t')
    (hterminal : ∀ a, Terminal s a → Terminal s' a) (hintent : t'.intent = t.intent)
    (hlock : t'.phase.holdsLock → t.phase.holdsLock ∨ s.lockFree t.intent.agentKey)
    (hlive : t'.Live → t.Live ∨ ∀ (j : Nat) (u : Task) (a : String), i ≠ j → s.tasks[j]? = some u →
      t.intent.agentId = some a → u.intent.agentId = some a → ¬ u.Claims)
    (hclaims : t'.Claims → t.Claims ∨ ∀ (j : Nat) (u : Task) (a : String), i ≠ j → s.tasks[j]? = some u →
      t.intent.agentId = some a → u.intent.agentId = some a → ¬ u.Live)
    (hover : ∀ a, t'.intent.agentId = some a → t'.Live → ¬ t'.phase.Open → Terminal s' a) :
    Exclusive s' where
  lock j k u v hj hk hu hv hkey := by
    have hmoved : ∀ k v, s.tasks[k]? = some v → v.phase.holdsLock → t'.phase.holdsLock →
        v.intent.agentKey = t'.intent.agentKey → k = i := by
      intro k v hk hv ht hkey
      rw [hintent] at hkey
      obtain hheld | hfree := hlock ht
      · exact h.lock k i v t hk hi hv hheld hkey
      · rw [not_lockFree hk hv hkey] at hfree
        cases hfree
    rw [htasks] at hj hk
    obtain ⟨rfl, rfl⟩ | ⟨hij, hju⟩ := getElem?_set_eq_some hi hj
    · obtain ⟨rfl, -⟩ | ⟨hik, hk⟩ := getElem?_set_eq_some hi hk
      · rfl
      · exact (hmoved k v hk hv hu hkey.symm).symm
    · obtain ⟨rfl, rfl⟩ | ⟨-, hk⟩ := getElem?_set_eq_some hi hk
      · exact hmoved j u hju hu hv hkey
      · exact h.lock j k u v hju hk hu hv hkey
  alone j k u v a hj hk hua hva hu hv := by
    rw [htasks] at hj hk
    obtain ⟨rfl, rfl⟩ | ⟨hij, hju⟩ := getElem?_set_eq_some hi hj
    · obtain ⟨rfl, -⟩ | ⟨hik, hk⟩ := getElem?_set_eq_some hi hk
      · rfl
      · rw [hintent] at hua
        obtain hlive | hother := hlive hu
        · exact h.alone i k t v a hi hk hua hva hlive hv
        · exact absurd hv (hother k v a hik hk hua hva)
    · obtain ⟨rfl, rfl⟩ | ⟨-, hk⟩ := getElem?_set_eq_some hi hk
      · rw [hintent] at hva
        obtain hclaims | hother := hclaims hv
        · exact h.alone j i u t a hju hi hua hva hu hclaims
        · exact absurd hu (hother j u a hij hju hva hua)
      · exact h.alone j k u v a hju hk hua hva hu hv
  closed j u a hj hua hu hopen := by
    rw [htasks] at hj
    obtain ⟨-, rfl⟩ | ⟨-, hj⟩ := getElem?_set_eq_some hi hj
    · exact hover a hua hu hopen
    · exact hterminal a (h.closed j u a hj hua hu hopen)

/-- A move that starts no call. -/
theorem Exclusive.proceed (h : Exclusive s) (hi : s.tasks[i]? = some t) (htasks : s'.tasks = s.tasks.set i t')
    (hterminal : ∀ a, Terminal s a → Terminal s' a) (hintent : t'.intent = t.intent)
    (hlock : t'.phase.holdsLock → t.phase.holdsLock ∨ s.lockFree t.intent.agentKey) (hlive : t'.Live → t.Live)
    (hphase : t'.phase ≠ .admitted)
    (hover : ∀ a, t'.intent.agentId = some a → t'.Live → ¬ t'.phase.Open → Terminal s' a) : Exclusive s' :=
  h.move hi htasks hterminal hintent hlock (fun hl => .inl (hlive hl))
    (fun hclaims => .inl (.inr (hlive (hclaims.resolve_left hphase)))) hover

theorem Exclusive.same (h : Exclusive s) (htasks : s'.tasks = s.tasks)
    (hterminal : ∀ a, Terminal s a → Terminal s' a) : Exclusive s' where
  lock := htasks ▸ h.lock
  alone := htasks ▸ h.alone
  closed i t a hi hta ht hopen := hterminal a (h.closed i t a (htasks ▸ hi) hta ht hopen)

variable {intent : Intent}

/-- A new task waits for its lock. -/
theorem Exclusive.spawn (h : Exclusive s) (htasks : s'.tasks = s.tasks ++ [⟨intent, .waiting, none⟩])
    (hterminal : ∀ a, Terminal s a → Terminal s' a) : Exclusive s' := by
  have hcases : ∀ {j : Nat} {u : Task}, s'.tasks[j]? = some u →
      s.tasks[j]? = some u ∨ u = ⟨intent, .waiting, none⟩ := by
    intro j u hj
    rw [htasks, getElem?_append] at hj
    split at hj
    · exact .inl hj
    · exact .inr (mem_singleton.mp (mem_of_getElem? hj))
  have hidle : ¬ (⟨intent, .waiting, none⟩ : Task).Live := fun ⟨_, hcall, _⟩ => by cases hcall
  refine ⟨fun i j t u hi hj ht hu hkey => ?_, fun i j t u a hi hj hta hua ht hu => ?_,
    fun i t a hi hta ht hopen => ?_⟩
  · obtain hi | rfl := hcases hi
    · obtain hj | rfl := hcases hj
      · exact h.lock i j t u hi hj ht hu hkey
      · cases hu
    · cases ht
  · obtain hi | rfl := hcases hi
    · obtain hj | rfl := hcases hj
      · exact h.alone i j t u a hi hj hta hua ht hu
      · exact (hu.elim (fun hphase => by cases hphase) hidle).elim
    · exact (hidle ht).elim
  · obtain hi | rfl := hcases hi
    · exact hterminal a (h.closed i t a hi hta ht hopen)
    · exact (hidle ht).elim

/-- The agent can be moved to Failed, or has come to its end already. -/
def CanFail (state : Option AgentState) : Bool :=
  state.any fun state => state.canTransition .failed || state.isTerminal

/-- When a task concludes and its call has not ended, its agent can be moved to Failed. -/
def FailsIfLate (s : DispatchSystem) : DispatchAction → Prop
  | .conclude i _ =>
    match s.tasks[i]? with
    | some ⟨intent, .settled _, some call⟩ => Ended call = false → ∀ a ∈ intent.agentId, CanFail (s.stateOf a)
    | _ => True
  | _ => True

variable {elapsedMs : Nat}

/-- The update that follows a timeout brings the agent to an end. -/
theorem terminal_of_late {message : String} {call : Option Call}
    (hi : s.tasks[i]? = some ⟨intent, .settled (.error message), call⟩) (ha : intent.agentId = some a)
    (hcan : CanFail (s.stateOf a)) : Terminal (s.step (.conclude i elapsedMs)) a := by
  cases hstate : s.stateOf a with
  | none =>
    rw [hstate] at hcan
    cases hcan
  | some state =>
    rw [hstate] at hcan
    refine ⟨_, stateOf_step hstate, ?_⟩
    have hupdate : s.update (.conclude i elapsedMs) = some (a, .failed) := by
      simp only [update, hi, ha, Option.map_some]
    simp only [hupdate, after]
    exact AgentState.isTerminal_moved_failed (by simpa [CanFail] using hcan)

theorem agentKey_eq {x y : Intent} (hx : x.agentId = some a) (hy : y.agentId = some a) : x.agentKey = y.agentKey := by
  rw [Intent.agentKey, Intent.agentKey, hx, hy]
  rfl

/-- While a task holds the lock of an agent that is not at its end, no other task has a live call for it. -/
theorem Exclusive.not_live (h : Exclusive s) (hi : s.tasks[i]? = some t) (hholds : t.phase.holdsLock)
    (hta : t.intent.agentId = some a) (hnot : ¬ Terminal s a) {u : Task} (hij : i ≠ j) (hj : s.tasks[j]? = some u)
    (hua : u.intent.agentId = some a) : ¬ u.Live := by
  intro hlive
  have hkey := agentKey_eq hta hua
  have hphase : u.phase.holdsLock = false := by
    refine Bool.eq_false_iff.mpr fun hu => hij (h.lock i j t u hi hj hholds hu hkey)
  refine hnot (h.closed j u a hj hua hlive fun hopen => ?_)
  cases hu : u.phase <;> simp only [hu, TaskPhase.Open] at hopen hphase <;> cases hphase

theorem Exclusive.step (h : Exclusive s) (hshape : s.Shaped) (hlate : FailsIfLate s action) :
    Exclusive (s.step action) := by
  have hterminal : ∀ a, Terminal s a → Terminal (s.step action) a := fun a ha => ha.step action
  have hstep := tasks_step action s
  generalize htasks : (s.step action).tasks = tasks at hstep
  cases hstep with
  | same => exact h.same htasks hterminal
  | spawn => exact h.spawn htasks hterminal
  | @move i t t' hi hmove =>
    have hshaped := hshape i t hi
    have hover := h.closed i t
    cases hmove with
    | acquire hfree =>
      exact h.proceed hi htasks hterminal rfl (fun _ => .inr hfree) id (by simp) fun a _ hlive =>
        (not_live_of_none hshaped hlive).elim
    | accept hcan =>
      refine h.move hi htasks hterminal rfl (fun _ => .inl rfl) .inl (fun _ => .inr fun j u a hij hj hta hua => ?_)
        fun a _ hlive => (not_live_of_none hshaped hlive).elim
      -- an agent at its end would not have been moved to Running
      refine h.not_live hi rfl hta (fun ⟨state, hstate, hend⟩ => ?_) hij hj hua
      have hrun := hcan a state hta hstate
      rw [AgentState.canTransition_of_terminal hend] at hrun
      cases hrun
    | refuse =>
      exact h.proceed hi htasks hterminal rfl (fun _ => .inl rfl) id (by simp) fun a _ hlive =>
        (not_live_of_none hshaped hlive).elim
    | handOver =>
      refine h.move hi htasks hterminal rfl (fun _ => .inl rfl)
        (fun _ => .inr fun j u a hij hj hta hua hclaims => ?_) (fun _ => .inl (.inl rfl))
        fun a _ _ hopen => absurd trivial hopen
      obtain hphase | hlive := hclaims
      · have hholds : u.phase.holdsLock := by rw [hphase]; rfl
        exact hij (h.lock i j _ u hi hj rfl hholds (agentKey_eq hta hua))
      · exact hij (h.alone j i u _ a hj hi hua hta hlive (.inl rfl)).symm
    | @beginCall intent phase =>
      have hlive : (⟨intent, phase, some .queued⟩ : Task).Live := ⟨.queued, rfl, rfl⟩
      exact h.move hi htasks hterminal rfl .inl (fun _ => .inl hlive) (fun _ => .inl (.inr hlive))
        fun a hta _ hopen => hterminal a (hover a hi hta hlive hopen)
    | @endCall intent phase outcome hended =>
      have hnot : ¬ (⟨intent, phase, some outcome⟩ : Task).Live := not_live_of_ended hended
      refine h.move hi htasks hterminal rfl .inl (fun hlive => absurd hlive hnot) (fun hclaims => ?_)
        fun a _ hlive => absurd hlive hnot
      exact .inl (.inl (hclaims.resolve_right hnot))
    | joined hended =>
      exact h.proceed hi htasks hterminal rfl (fun _ => .inl rfl) id (by simp) fun a _ hlive =>
        absurd hlive (not_live_of_ended hended)
    | timeout hended =>
      exact h.proceed hi htasks hterminal rfl (fun _ => .inl rfl) id (by simp) fun a _ _ hopen => absurd trivial hopen
    | @conclude intent call output elapsedMs =>
      refine h.proceed hi htasks hterminal rfl (fun _ => .inl rfl) id (by simp) fun a hta hlive _ => ?_
      cases output with
      | ok out => exact absurd hlive hshaped
      | error message =>
        obtain ⟨call, rfl, hended⟩ := hlive
        simp only [FailsIfLate, hi] at hlate
        exact terminal_of_late hi hta (hlate hended a hta)
    | send =>
      exact h.proceed hi htasks hterminal rfl (fun hholds => by cases hholds) id (by simp) fun a hta hlive _ =>
        hterminal a (hover a hi hta hlive fun hopen => hopen)

/-! ## Where an intent is -/

def inHand : LoopPhase → List Intent
  | .draining (some intent) => [intent]
  | _ => []

/-- Every place an intent can be in after it was queued. -/
def onTheWay (s : DispatchSystem) : List Intent :=
  s.scheduler.queue ++ inHand s.loop ++ s.localQueue ++ s.intents ++ s.tasks.map Task.intent

theorem countP_popAt {q q' : SchedulerQueue} {n : Nat} (h : q.popAt n = some (intent, q'))
    (p : Intent → Bool) : q.countP p = q'.countP p + [intent].countP p := by
  rw [(popAt_eq_some h).1.countP_eq p, countP_cons, countP_singleton]

variable {l : List Task}

/-- Every intent that was queued is in at most one place, or was in the hands of the loop when that was stopped. -/
def Placed (s : DispatchSystem) : Prop := ∀ p : Intent → Bool, s.onTheWay.countP p ≤ s.submitted.countP p

theorem Placed.start (scheduler : AgentScheduler) (cpuTimeLimitMs : Nat) :
    Placed (.start scheduler cpuTimeLimitMs) := by
  intro p
  simp [onTheWay, DispatchSystem.start, inHand]

theorem countP_onTheWay {p : Intent → Bool} : s.onTheWay.countP p = s.scheduler.queue.countP p +
    (inHand s.loop).countP p + s.localQueue.countP p + s.intents.countP p + (s.tasks.map Task.intent).countP p := by
  simp only [onTheWay, countP_append]

theorem Placed.submitStep (h : Placed s) (n : Nat) : Placed (s.submitStep n) := by
  intro p
  have hbefore := h p
  unfold DispatchSystem.submitStep
  split
  · exact hbefore
  · simp only [countP_onTheWay, SchedulerQueue.push, countP_append] at hbefore ⊢
    omega
  · exact hbefore

theorem Placed.loopStep (h : Placed s) (choice : Nat) : Placed (s.loopStep choice) := by
  intro p
  have hbefore := h p
  rw [countP_onTheWay] at hbefore ⊢
  unfold DispatchSystem.loopStep
  split <;> rename_i hloop <;> rw [hloop] at hbefore
  · exact hbefore
  · split
    · exact hbefore
    · split
      · next hpop =>
        have hcount := countP_popAt hpop p
        simp only [inHand] at hbefore ⊢
        omega
      · rwa [hloop]
  · simp only [inHand, SchedulerQueue.push, countP_append, countP_nil] at hbefore ⊢
    omega
  · split
    · exact hbefore
    · split
      · next hpop =>
        have hcount := countP_popAt hpop p
        simp only [hloop, countP_append]
        omega
      · rwa [hloop]
  · split
    · next hintents =>
      rw [hintents, countP_cons] at hbefore
      simp only [hloop, map_append, map_cons, map_nil, countP_append, countP_singleton]
      omega
    · exact hbefore
  · rwa [hloop]

theorem Placed.shutdown (h : Placed s) : Placed { s with loop := .stopped } := by
  intro p
  have hbefore := h p
  simp only [onTheWay, inHand, countP_append, countP_nil] at hbefore ⊢
  omega

/-- A move of a task keeps its intent. -/
theorem map_intent_step (hloop : ∀ n, action ≠ .loopStep n) :
    (s.step action).tasks.map Task.intent = s.tasks.map Task.intent := by
  have hstep := tasks_step action s
  generalize (s.step action).tasks = tasks at hstep
  cases hstep with
  | same => rfl
  | spawn haction => exact absurd haction (hloop _)
  | move hi hmove => exact map_set_of_eq hi hmove.intent

theorem Placed.step (h : Placed s) (action : DispatchAction) : Placed (s.step action) := by
  by_cases hsubmit : ∃ n, action = .submitStep n
  · obtain ⟨n, rfl⟩ := hsubmit
    exact h.submitStep n
  by_cases hloop : ∃ n, action = .loopStep n
  · obtain ⟨n, rfl⟩ := hloop
    exact h.loopStep n
  by_cases hshutdown : action = .shutdown
  · subst hshutdown
    exact h.shutdown
  have hflow : SameFlow s (s.step action) :=
    (stepped (fun n hn => hsubmit ⟨n, hn⟩) (fun n hn => hloop ⟨n, hn⟩) hshutdown).flow
  intro p
  rw [onTheWay, hflow.queue, hflow.loop, hflow.localQueue, hflow.intents, map_intent_step fun n hn => hloop ⟨n, hn⟩,
    hflow.submitted]
  exact h p

/-! ## Executions and results -/

def begun (t : Task) : Bool :=
  match t.call with
  | none | some .queued => false
  | _ => true

def reported (t : Task) : Bool :=
  match t.phase with
  | .done => true
  | _ => false

variable {p : Task → Bool}

theorem countP_set_add (hi : l[i]? = some t) :
    (l.set i t').countP p + (if p t then 1 else 0) = l.countP p + if p t' then 1 else 0 := by
  obtain ⟨hlt, rfl⟩ := List.getElem?_eq_some_iff.mp hi
  rw [countP_set hlt]
  split
  · next hp =>
    have hpos := countP_pos_iff.mpr ⟨l[i], getElem_mem hlt, hp⟩
    omega
  · omega

theorem countP_set_le (hi : l[i]? = some t) (h : p t → p t') : l.countP p ≤ (l.set i t').countP p := by
  have hcount := @countP_set_add i t t' l p hi
  by_cases hp : p t
  · rw [if_pos hp, if_pos (h hp)] at hcount
    omega
  · rw [if_neg hp] at hcount
    omega

/-- Every execution belongs to a task whose call was begun, and every result to one that is done. -/
structure Reported (s : DispatchSystem) : Prop where
  executed : ∀ p : Intent → Bool, s.executed.countP p ≤ s.tasks.countP fun t => p t.intent && begun t
  results : ∀ id, (s.results.countP fun r => r.intentId = id) ≤ s.tasks.countP fun t => t.intent.id = id && reported t
  named : ∀ t ∈ s.tasks, ∀ r, t.phase = .reporting r → r.intentId = t.intent.id

theorem Reported.start (scheduler : AgentScheduler) (cpuTimeLimitMs : Nat) :
    Reported (.start scheduler cpuTimeLimitMs) :=
  ⟨fun _ => Nat.le_refl _, fun _ => Nat.le_refl _, fun _ h => absurd h not_mem_nil⟩

/-- Executions are begun by `beginCall` and results sent by `send` only. -/
theorem outputs_step (hbegin : ∀ i, action ≠ .beginCall i) (hsend : ∀ i delivered, action ≠ .send i delivered) :
    (s.step action).executed = s.executed ∧ (s.step action).results = s.results := by
  cases action with
  | beginCall i => exact absurd rfl (hbegin i)
  | send i delivered => exact absurd rfl (hsend i delivered)
  | register | submit | submitStep | loopStep | acquire | check | handOver | endCall | joined | timeout | conclude =>
    simp only [step, submit, submitStep, loopStep, acquire, check, handOver, endCall, joined, timeout, conclude]
    repeat' split
    all_goals exact ⟨rfl, rfl⟩
  | _ => exact ⟨rfl, rfl⟩

theorem intentId_of {output : Except String String} :
    (ExecutionResult.of intent output elapsedMs).intentId = intent.id := by
  cases output <;> rfl

/-- A result that a task is about to send bears the id of its intent. -/
theorem named_step (h : ∀ t ∈ s.tasks, ∀ r, t.phase = .reporting r → r.intentId = t.intent.id)
    (action : DispatchAction) :
    ∀ t ∈ (s.step action).tasks, ∀ r, t.phase = .reporting r → r.intentId = t.intent.id := by
  have hstep := tasks_step action s
  generalize (s.step action).tasks = tasks at hstep
  cases hstep with
  | same => exact h
  | spawn =>
    intro u hu r hr
    obtain hu | rfl := mem_concat.mp hu
    · exact h u hu r hr
    · cases hr
  | @move i t t' hi hmove =>
    intro u hu r hr
    obtain hu | rfl := mem_or_eq_of_mem_set hu
    · exact h u hu r hr
    · have hbefore := h t (mem_of_getElem? hi)
      cases hmove with
      | refuse | conclude =>
        cases hr
        exact intentId_of
      | beginCall => exact hbefore r hr
      | endCall => exact hbefore r hr
      | _ => cases hr

/-- A call that was begun stays so, and a task that is done stays done. -/
theorem TaskStep.mono (h : TaskStep s i action t t') (hshaped : t.Shaped) :
    (begun t → begun t') ∧ (reported t → reported t') := by
  cases h with
  | handOver =>
    refine ⟨fun hbegun => ?_, fun hreported => by cases hreported⟩
    rw [begun, show _ = none from hshaped] at hbegun
    cases hbegun
  | beginCall => exact ⟨fun _ => rfl, id⟩
  | @endCall _ _ outcome hended =>
    refine ⟨fun _ => ?_, id⟩
    cases outcome <;> first | rfl | cases hended
  | send => exact ⟨id, fun _ => rfl⟩
  | _ => exact ⟨id, fun hreported => by cases hreported⟩

/-- The number of tasks of some intents does not fall in what moves keep. -/
theorem countP_step_le (hshape : s.Shaped) (action : DispatchAction) (p : Intent → Bool) (q : Task → Bool)
    (hmono : ∀ i t t', TaskStep s i action t t' → t.Shaped → q t → q t') :
    (s.tasks.countP fun t => p t.intent && q t) ≤ (s.step action).tasks.countP fun t => p t.intent && q t := by
  have hstep := tasks_step action s
  generalize (s.step action).tasks = tasks at hstep
  cases hstep with
  | same => exact Nat.le_refl _
  | spawn =>
    rw [countP_append]
    exact Nat.le_add_right _ _
  | move hi hmove =>
    refine countP_set_le hi fun hp => ?_
    rw [Bool.and_eq_true] at hp ⊢
    exact ⟨by rw [hmove.intent]; exact hp.1, hmono _ _ _ hmove (hshape _ _ hi) hp.2⟩

theorem Reported.executed_step (h : Reported s) (hshape : s.Shaped) (action : DispatchAction) (p : Intent → Bool) :
    (s.step action).executed.countP p ≤ (s.step action).tasks.countP fun t => p t.intent && begun t := by
  have hbefore := h.executed p
  have hmore := countP_step_le hshape action p begun fun _ _ _ hmove hshaped => (hmove.mono hshaped).1
  cases action with
  | beginCall i =>
    simp only [step, beginCall] at hmore ⊢
    split
    · next intent phase hi =>
      -- the execution is counted, and so is the task from now on
      simp only [setTask, countP_append, countP_singleton]
      have hcount : (s.tasks.set i ⟨intent, phase, some .running⟩).countP (fun t => p t.intent && begun t) +
          (if p intent && false then 1 else 0) =
          s.tasks.countP (fun t => p t.intent && begun t) + if p intent && true then 1 else 0 := countP_set_add hi
      rw [Bool.and_false, Bool.and_true, if_neg Bool.false_ne_true] at hcount
      omega
    · exact hbefore
  | send i delivered =>
    have hsame : (s.step (.send i delivered)).executed = s.executed := by
      simp only [step, send]
      split <;> rfl
    rw [hsame]
    exact Nat.le_trans hbefore hmore
  | _ =>
    rw [(outputs_step (by rintro _ ⟨⟩) (by rintro _ _ ⟨⟩)).1]
    exact Nat.le_trans hbefore hmore

theorem Reported.results_step (h : Reported s) (hshape : s.Shaped) (action : DispatchAction) (id : String) :
    ((s.step action).results.countP fun r => r.intentId = id) ≤
      (s.step action).tasks.countP fun t => t.intent.id = id && reported t := by
  have hbefore := h.results id
  have hmore := countP_step_le hshape action (fun intent => intent.id = id) reported fun _ _ _ hmove hshaped =>
    (hmove.mono hshaped).2
  cases action with
  | beginCall i =>
    have hsame : (s.step (.beginCall i)).results = s.results := by
      simp only [step, beginCall]
      split <;> rfl
    rw [hsame]
    exact Nat.le_trans hbefore hmore
  | send i delivered =>
    simp only [step, send] at hmore ⊢
    split
    · next intent result call hi =>
      have hid : result.intentId = intent.id := h.named _ (mem_of_getElem? hi) result rfl
      simp only [setTask]
      have hcount : (s.tasks.set i ⟨intent, .done, call⟩).countP (fun t => t.intent.id = id && reported t) +
          (if decide (intent.id = id) && false then 1 else 0) =
          s.tasks.countP (fun t => t.intent.id = id && reported t) +
            if decide (intent.id = id) && true then 1 else 0 := countP_set_add hi
      rw [Bool.and_false, Bool.and_true, if_neg Bool.false_ne_true] at hcount
      split
      · rw [countP_append, countP_singleton, hid]
        omega
      · omega
    · exact hbefore
  | _ =>
    rw [(outputs_step (by rintro _ ⟨⟩) (by rintro _ _ ⟨⟩)).2]
    exact Nat.le_trans hbefore hmore

theorem Reported.step (h : Reported s) (hshape : s.Shaped) (action : DispatchAction) : Reported (s.step action) :=
  ⟨h.executed_step hshape action, h.results_step hshape action, named_step h.named action⟩

/-! ## Runs -/

/-- What holds in every run. -/
structure Accounted (s : DispatchSystem) : Prop where
  shaped : s.Shaped
  placed : s.Placed
  reported : s.Reported

theorem accounted_run (scheduler : AgentScheduler) (cpuTimeLimitMs : Nat) (actions : List DispatchAction) :
    Accounted (run (.start scheduler cpuTimeLimitMs) actions) :=
  run_invariant
    (fun _ action h => ⟨h.shaped.step action, h.placed.step action, h.reported.step h.shaped action⟩)
    ⟨Shaped.start _ _, Placed.start _ _, Reported.start _ _⟩

theorem Accounted.tasks_le (h : Accounted s) (p : Intent → Bool) (q : Task → Bool) :
    (s.tasks.countP fun t => p t.intent && q t) ≤ s.submitted.countP p :=
  calc (s.tasks.countP fun t => p t.intent && q t)
    _ ≤ s.tasks.countP fun t => p t.intent := countP_mono_left fun t _ ht => (Bool.and_eq_true_iff.mp ht).1
    _ = (s.tasks.map Task.intent).countP p := countP_map.symm
    _ ≤ s.onTheWay.countP p := by
      rw [onTheWay, countP_append]
      exact Nat.le_add_left _ _
    _ ≤ s.submitted.countP p := h.placed p

theorem Accounted.executed_le (h : Accounted s) (p : Intent → Bool) : s.executed.countP p ≤ s.submitted.countP p :=
  (h.reported.executed p).trans (h.tasks_le p begun)

theorem Accounted.results_le (h : Accounted s) (id : String) :
    (s.results.countP fun r => r.intentId = id) ≤ s.submitted.countP fun intent => intent.id = id :=
  (h.reported.results id).trans (h.tasks_le (fun intent => intent.id = id) DispatchSystem.reported)

def inProgress (t : Task) : Bool :=
  match t.call with
  | some .running => true
  | _ => false

/-- The number of calls in progress for an agent. -/
def callsFor (s : DispatchSystem) (a : String) : Nat :=
  s.tasks.countP fun t => t.intent.agentId = some a && inProgress t

theorem live_of_inProgress (h : inProgress t) : t.Live := by
  unfold inProgress at h
  split at h
  · next hcall => exact ⟨.running, hcall, rfl⟩
  · cases h

theorem Exclusive.callsFor_le (h : Exclusive s) (a : String) : s.callsFor a ≤ 1 := by
  refine Sole.countP_le_one fun i j t u hi hj ht hu => ?_
  rw [Bool.and_eq_true, decide_eq_true_eq] at ht hu
  exact h.alone i j t u a hi hj ht.1 hu.1 (live_of_inProgress ht.2) (.inr (live_of_inProgress hu.2))

/-- In every run in which an agent can be moved to Failed whenever a task gives up on a call for it that has not
ended, no agent has two calls in progress; in every such run an id is executed at most as often as it was submitted
(once, as ids are drawn at random), and yields at most as many results. -/
theorem one_call_at_a_time (scheduler : AgentScheduler) (cpuTimeLimitMs : Nat) {actions : List DispatchAction}
    (hlate : Throughout step FailsIfLate (.start scheduler cpuTimeLimitMs) actions) :
    let s := run (.start scheduler cpuTimeLimitMs) actions
    (∀ a, s.callsFor a ≤ 1) ∧
      (∀ id, (s.executed.countP fun intent => intent.id = id) ≤ s.submitted.countP fun intent => intent.id = id) ∧
      ∀ id, (s.results.countP fun r => r.intentId = id) ≤ s.submitted.countP fun intent => intent.id = id := by
  have haccounted := accounted_run scheduler cpuTimeLimitMs actions
  have hexclusive := hlate.invariant (I := fun s => Shaped s ∧ Exclusive s)
      (fun s action h hstep => ⟨h.1.step action, h.2.step h.1 hstep⟩) ⟨Shaped.start _ _, Exclusive.start _ _⟩
  exact ⟨hexclusive.2.callsFor_le, fun id => haccounted.executed_le _, haccounted.results_le⟩

instance (s : DispatchSystem) (action : DispatchAction) : Decidable (FailsIfLate s action) := by
  unfold FailsIfLate
  split
  · split <;> infer_instance
  · infer_instance

section Samples

/-- One agent with a limit of a second, and two intents for it. -/
def sampleScheduler : AgentScheduler where
  agents := AList.singleton "a" ⟨"a", "worker", .waiting, ⟨0, 1000, []⟩⟩
  nameIndex := AList.singleton "worker" "a"
  queue := [⟨"x", .high, "first", none, some "a", 1⟩, ⟨"y", .high, "second", none, some "a", 2⟩]

def sampleSystem : DispatchSystem := .start sampleScheduler 60000

/-- The loop makes a task of each of the two intents. -/
def twoTasks : List DispatchAction := List.replicate 12 (.loopStep 0)

/-- The first call is late and the agent fails; the second intent is refused, and the first call ends after all. -/
def lateRun : List DispatchAction :=
  twoTasks ++ [.acquire 1, .acquire 0, .check 1 0, .handOver 1, .beginCall 1, .timeout 1, .conclude 1 1000, .acquire 0,
    .send 1 true, .acquire 0, .check 0 1001, .send 0 true, .endCall 1 (.returned (.ok "too late"))]

theorem lateRun_one_call :
    (sampleSystem.run lateRun).results.map (fun r => (r.intentId, r.success)) = [("y", false), ("x", false)] ∧
      (∀ a, (sampleSystem.run lateRun).callsFor a ≤ 1) ∧
      (∀ id, ((sampleSystem.run lateRun).executed.countP fun intent => intent.id = id) ≤
        (sampleSystem.run lateRun).submitted.countP fun intent => intent.id = id) ∧
      ∀ id, ((sampleSystem.run lateRun).results.countP fun r => r.intentId = id) ≤
        (sampleSystem.run lateRun).submitted.countP fun intent => intent.id = id :=
  ⟨by decide +kernel, one_call_at_a_time sampleScheduler 60000 (by decide +kernel)⟩

/-- The agent is suspended during the first call, so it is not moved to Failed when that is late. -/
def suspendedRun : List DispatchAction :=
  twoTasks ++ [.acquire 0, .check 0 0, .handOver 0, .beginCall 0, .agentSuspend "worker" (.ok ()), .timeout 0,
    .conclude 0 1000, .send 0 true, .acquire 1, .check 1 1001, .handOver 1, .beginCall 1]

theorem suspendedRun_two_calls : (sampleSystem.run suspendedRun).callsFor "a" = 2 := by
  decide +kernel

end Samples

end DispatchSystem

end Plico.Scheduler
