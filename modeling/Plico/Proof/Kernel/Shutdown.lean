import Plico.Framework.Run
import Plico.Model.Kernel.ProjectionRuntime

/-!
# After a shutdown

A shutdown sets the flag, then takes the handle of the worker and joins it, then passes the gate of the owner's calls.
What has read the flag before it was set is either waited for or holds one of the locks that the shutdown takes
(`Closing`), so no commit is left when it returns. The exception is a shutdown that finds the handle taken by another
one: it does not wait for the worker, whose attempt may be past its checks. A job that sees the cancellation is
finished at once, without a completion (`Jobs`).
-/

namespace Plico.Kernel

open List

open Projection (FailureCategory)

namespace RuntimeSystem

variable {s s' : RuntimeSystem} {action : RuntimeAction}

/-! ## Phases -/

/-- The worker has not been started or has come to its end. -/
def Quiet (s : RuntimeSystem) : Prop := s.worker = none ∨ s.worker = some .ended

/-- Past the second check of the flag, and not yet leaving. -/
def ownerActive : OwnerPhase → Bool
  | .announcing | .firstWrite | .snapshot | .secondWrite | .working => true
  | _ => false

/-- Past the check of the flag. -/
def starterActive : StarterPhase → Bool
  | .mark | .takeReceiver | .spawn | .install => true
  | _ => false

/-- How far a shutdown has come. -/
def rank : ShutdownPhase → Nat
  | .entered => 0
  | .taking => 1
  | .stopWorker => 2
  | .joining => 2
  | .gate => 3
  | .barrier => 4
  | .leaving => 4
  | .returned => 4

variable {n k : Nat} {outcome : OwnerOutcome} {identity : Option Bool} {controller epoch completed : Nat}
  {answer : Answer}

/-- What has been brought about by a shutdown that has come so far. -/
@[mk_iff]
structure Closed (s : RuntimeSystem) (k : Nat) : Prop where
  stopping : 1 ≤ k → s.stopping = true
  starters : 2 ≤ k → ∀ phase ∈ s.starters, starterActive phase = false
  worker : 3 ≤ k → s.Quiet
  owners : 4 ≤ k → ∀ call ∈ s.owners, ownerActive call.phase = false

/-- Every shutdown has brought about what it should have. -/
def Closing (s : RuntimeSystem) : Prop := ∀ phase ∈ s.shutdowns, Closed s (rank phase)

/-! ## What the threads leave alone -/

/-- The flag and the calls under way. -/
structure SameCalls (s s' : RuntimeSystem) : Prop where
  stopping : s'.stopping = s.stopping
  owners : s'.owners = s.owners
  starters : s'.starters = s.starters
  shutdowns : s'.shutdowns = s.shutdowns

theorem SameCalls.refl (s : RuntimeSystem) : SameCalls s s := ⟨rfl, rfl, rfl, rfl⟩

theorem sameCalls_build {job : Nat} {phase : JobPhase} :
    SameCalls s (s.build completed epoch controller job phase answer) := by
  unfold build
  split <;> exact ⟨rfl, rfl, rfl, rfl⟩

theorem sameCalls_publishWorkerFault : SameCalls s (s.publishWorkerFault epoch controller) := by
  unfold publishWorkerFault
  split <;> exact ⟨rfl, rfl, rfl, rfl⟩

theorem sameCalls_workerStep : SameCalls s (s.workerStep answer) := by
  unfold workerStep
  cases s.worker with
  | none => exact .refl s
  | some phase =>
    cases phase with
    | ended => exact .refl s
    | loopTop | received =>
      dsimp only
      split <;> exact ⟨rfl, rfl, rfl, rfl⟩
    | attemptRead completed epoch =>
      dsimp only
      split
      · split <;> exact ⟨rfl, rfl, rfl, rfl⟩
      · exact .refl s
    | reconciling | claiming => cases answer <;> exact ⟨rfl, rfl, rfl, rfl⟩
    | building completed epoch controller job phase => exact sameCalls_build
    | faulting epoch controller =>
      dsimp only
      split
      · obtain ⟨hstopping, howners, hstarters, hshutdowns⟩ := sameCalls_publishWorkerFault
        exact ⟨hstopping, howners, hstarters, hshutdowns⟩
      · exact .refl s
    | _ => exact ⟨rfl, rfl, rfl, rfl⟩

/-- A worker that is not running does nothing. -/
theorem workerStep_of_quiet (h : s.Quiet) : s.workerStep answer = s := by
  unfold workerStep
  obtain h | h := h <;> rw [h]

/-- An active element of a list in which one has been replaced. -/
theorem active_of_set {α : Type} {l : List α} {active : α → Bool} {p : Prop} {a b : α} (hmem : a ∈ l.set n b)
    (hactive : active a) (hb : active b → p ∨ ∃ c ∈ l, active c) : p ∨ ∃ c ∈ l, active c := by
  obtain hold | rfl := mem_or_eq_of_mem_set hmem
  · exact .inr ⟨a, hold, hactive⟩
  · exact hb hactive

/-- A call of the owner becomes active only by a check that finds the flag not set. -/
theorem ownerActive_ownerStep {answer : Bool} {call : OwnerCall} (hmem : call ∈ (s.ownerStep n answer).owners)
    (hactive : ownerActive call.phase) : s.stopping = false ∨ ∃ o ∈ s.owners, ownerActive o.phase := by
  revert hmem
  unfold ownerStep
  cases hn : s.owners[n]? with
  | none => exact fun hmem => .inr ⟨call, hmem, hactive⟩
  | some o =>
    have hset := @active_of_set n OwnerCall s.owners (fun o => ownerActive o.phase) (s.stopping = false) call
    obtain ⟨owner, allEligible, phase⟩ := o
    cases phase with
    | entered =>
      refine fun hmem => hset hmem hactive fun h => ?_
      split at h <;> cases h
    | gate =>
      dsimp only
      split
      · exact fun hmem => hset hmem hactive fun h => by cases h
      · exact fun hmem => .inr ⟨call, hmem, hactive⟩
    | gated =>
      refine fun hmem => hset hmem hactive fun h => ?_
      split at h
      · cases h
      · next hstopping => exact .inl (Bool.eq_false_iff.mpr hstopping)
    | returned => exact fun hmem => .inr ⟨call, hmem, hactive⟩
    | leaving | opening => exact fun hmem => hset hmem hactive fun h => by cases h
    | _ => exact fun _ => .inr ⟨_, mem_of_getElem? hn, rfl⟩

/-- A start of the worker becomes active only by a check that finds the flag not set. -/
theorem starterActive_starterStep {spawned : Bool} {phase : StarterPhase}
    (hmem : phase ∈ (s.starterStep n spawned).starters) (hactive : starterActive phase) :
    s.stopping = false ∨ ∃ q ∈ s.starters, starterActive q := by
  revert hmem
  unfold starterStep
  cases hn : s.starters[n]? with
  | none => exact fun hmem => .inr ⟨phase, hmem, hactive⟩
  | some q =>
    cases q with
    | entered =>
      dsimp only
      split
      · exact fun hmem => active_of_set hmem hactive fun h => by cases h
      · exact fun hmem => .inr ⟨phase, hmem, hactive⟩
    | locked =>
      refine fun hmem => active_of_set hmem hactive fun h => ?_
      split at h <;> cases h
    | mayStart =>
      refine fun hmem => active_of_set hmem hactive fun h => ?_
      split at h
      · cases h
      · next hstopping => exact .inl (Bool.eq_false_iff.mpr hstopping)
    | returned => exact fun hmem => .inr ⟨phase, hmem, hactive⟩
    | _ => exact fun _ => .inr ⟨_, mem_of_getElem? hn, rfl⟩

/-- What an owner's call leaves alone. -/
structure SameButOwners (s s' : RuntimeSystem) : Prop where
  stopping : s'.stopping = s.stopping
  starters : s'.starters = s.starters
  shutdowns : s'.shutdowns = s.shutdowns
  worker : s'.worker = s.worker
  observed : s'.observed = s.observed
  nextJob : s'.nextJob = s.nextJob

theorem SameButOwners.refl (s : RuntimeSystem) : SameButOwners s s := ⟨rfl, rfl, rfl, rfl, rfl, rfl⟩

theorem ownerStep_frame {answer : Bool} :
    SameButOwners s (s.ownerStep n answer) ∧ (s.ownerStep n answer).commits = s.commits := by
  unfold ownerStep
  cases s.owners[n]? with
  | none => exact ⟨.refl s, rfl⟩
  | some o =>
    dsimp only
    cases o.phase with
    | gate | firstWrite | secondWrite =>
      dsimp only
      split <;> exact ⟨⟨rfl, rfl, rfl, rfl, rfl, rfl⟩, rfl⟩
    | _ => exact ⟨⟨rfl, rfl, rfl, rfl, rfl, rfl⟩, rfl⟩

theorem ownerFinish_frame :
    SameButOwners s (s.ownerFinish n outcome identity) ∧ (s.ownerFinish n outcome identity).commits = s.commits := by
  unfold ownerFinish ownerInstalls
  split
  · split <;> exact ⟨⟨rfl, rfl, rfl, rfl, rfl, rfl⟩, rfl⟩
  · exact ⟨.refl s, rfl⟩

theorem owners_ownerInstalls : (s.ownerInstalls outcome).owners = s.owners := by
  unfold ownerInstalls
  split <;> rfl

/-- The end of the work of an owner's call. -/
theorem ownerActive_ownerFinish {call : OwnerCall}
    (hmem : call ∈ (s.ownerFinish n outcome identity).owners) (hactive : ownerActive call.phase) :
    ∃ o ∈ s.owners, ownerActive o.phase := by
  unfold ownerFinish at hmem
  split at hmem
  · simp only [owners_ownerInstalls] at hmem
    obtain hold | rfl := mem_or_eq_of_mem_set hmem
    · exact ⟨call, hold, hactive⟩
    · cases hactive
  · exact ⟨call, hmem, hactive⟩

theorem ownerCommit_eq :
    s.ownerCommit n = s ∨ (∃ o ∈ s.owners, ownerActive o.phase) ∧ s.ownerCommit n = s.commit (.owner n) := by
  unfold ownerCommit
  split
  · next hn => exact .inr ⟨⟨_, mem_of_getElem? hn, rfl⟩, rfl⟩
  · exact .inl rfl

theorem ownerCommit_frame : SameButOwners s (s.ownerCommit n) ∧ (s.ownerCommit n).owners = s.owners := by
  obtain h | ⟨-, h⟩ := ownerCommit_eq <;> rw [h] <;> exact ⟨⟨rfl, rfl, rfl, rfl, rfl, rfl⟩, rfl⟩

/-- What a start of the worker leaves alone; the worker it may make comes from an active start. -/
structure SameButStarters (s s' : RuntimeSystem) : Prop where
  stopping : s'.stopping = s.stopping
  owners : s'.owners = s.owners
  shutdowns : s'.shutdowns = s.shutdowns
  commits : s'.commits = s.commits
  observed : s'.observed = s.observed
  nextJob : s'.nextJob = s.nextJob
  worker : s'.worker = s.worker ∨ s'.worker = some .loopTop ∧ ∃ q ∈ s.starters, starterActive q

theorem starterStep_frame (n : Nat) (spawned : Bool) (s : RuntimeSystem) :
    SameButStarters s (s.starterStep n spawned) := by
  unfold starterStep
  cases hn : s.starters[n]? with
  | none => exact ⟨rfl, rfl, rfl, rfl, rfl, rfl, .inl rfl⟩
  | some q =>
    cases q with
    | spawn =>
      dsimp only
      split
      · exact ⟨rfl, rfl, rfl, rfl, rfl, rfl, .inr ⟨rfl, _, mem_of_getElem? hn, rfl⟩⟩
      · exact ⟨rfl, rfl, rfl, rfl, rfl, rfl, .inl rfl⟩
    | entered | takeReceiver =>
      dsimp only
      split <;> exact ⟨rfl, rfl, rfl, rfl, rfl, rfl, .inl rfl⟩
    | _ => exact ⟨rfl, rfl, rfl, rfl, rfl, rfl, .inl rfl⟩

/-- What a shutdown leaves alone. -/
structure SameButShutdowns (s s' : RuntimeSystem) : Prop where
  stopping : s.stopping = true → s'.stopping = true
  starters : s'.starters = s.starters
  owners : s'.owners = s.owners
  worker : s'.worker = s.worker
  commits : s'.commits = s.commits
  observed : s'.observed = s.observed
  nextJob : s'.nextJob = s.nextJob

theorem shutdownStep_frame (n : Nat) (s : RuntimeSystem) : SameButShutdowns s (s.shutdownStep n) := by
  unfold shutdownStep
  repeat' split
  all_goals exact ⟨by simp [setShutdown], rfl, rfl, rfl, rfl, rfl, rfl⟩

/-! ## Closing -/

/-- A step of another thread than a shutdown. -/
theorem Closed.other (h : Closed s k) (hstopping : s'.stopping = s.stopping)
    (hstarters : ∀ phase ∈ s'.starters, starterActive phase →
      s.stopping = false ∨ ∃ q ∈ s.starters, starterActive q)
    (hworker : s.Quiet → (∀ q ∈ s.starters, starterActive q = false) → s'.Quiet)
    (howners : ∀ call ∈ s'.owners, ownerActive call.phase →
      s.stopping = false ∨ ∃ o ∈ s.owners, ownerActive o.phase) : Closed s' k := by
  refine ⟨fun hk => hstopping.trans (h.stopping hk), fun hk phase hphase => ?_,
    fun hk => hworker (h.worker hk) (h.starters (by omega)), fun hk call hcall => ?_⟩
  · refine Bool.eq_false_iff.mpr fun hactive => ?_
    obtain hfalse | ⟨q, hq, hqactive⟩ := hstarters phase hphase hactive
    · cases (h.stopping (by omega)).symm.trans hfalse
    · cases (h.starters hk q hq).symm.trans hqactive
  · refine Bool.eq_false_iff.mpr fun hactive => ?_
    obtain hfalse | ⟨o, ho, hoactive⟩ := howners call hcall hactive
    · cases (h.stopping (by omega)).symm.trans hfalse
    · cases (h.owners hk o ho).symm.trans hoactive

/-- A step of an owner's call. -/
theorem Closed.owner (h : Closed s k) (hframe : SameButOwners s s')
    (howners : ∀ call ∈ s'.owners, ownerActive call.phase →
      s.stopping = false ∨ ∃ o ∈ s.owners, ownerActive o.phase) : Closed s' k := by
  refine h.other hframe.stopping (fun q hq hactive => ?_) (fun hquiet _ => ?_) howners
  · exact .inr ⟨q, hframe.starters ▸ hq, hactive⟩
  · rwa [Quiet, hframe.worker]

theorem Closed.shutdown (h : Closed s k) (hframe : SameButShutdowns s s') : Closed s' k where
  stopping hk := hframe.stopping (h.stopping hk)
  starters hk := hframe.starters ▸ h.starters hk
  worker hk := by
    rw [Quiet, hframe.worker]
    exact h.worker hk
  owners hk := hframe.owners ▸ h.owners hk

theorem Closed.step (h : Closed s k) (action : RuntimeAction) : Closed (s.step action) k := by
  cases action with
  | worker answer =>
    obtain ⟨hstopping, howners, hstarters, -⟩ := sameCalls_workerStep
    refine h.other hstopping (fun q hq hactive => ?_) (fun hquiet _ => ?_) fun call hcall hactive => ?_
    · exact .inr ⟨q, hstarters ▸ hq, hactive⟩
    · show (s.workerStep answer).Quiet
      rwa [workerStep_of_quiet hquiet]
    · exact .inr ⟨call, howners ▸ hcall, hactive⟩
  | callOwner owner allEligible =>
    refine h.other rfl (fun q hq hactive => .inr ⟨q, hq, hactive⟩) (fun hquiet _ => hquiet)
      fun call hcall hactive => ?_
    obtain hold | rfl := mem_concat.mp hcall
    · exact .inr ⟨call, hold, hactive⟩
    · cases hactive
  | owner n answer => exact h.owner ownerStep_frame.1 fun _ => ownerActive_ownerStep
  | ownerCommit n =>
    obtain ⟨hframe, howners⟩ := ownerCommit_frame
    exact h.owner hframe fun call hcall hactive => .inr ⟨call, howners ▸ hcall, hactive⟩
  | ownerFinish n outcome identity =>
    exact h.owner ownerFinish_frame.1 fun call hcall hactive => .inr (ownerActive_ownerFinish hcall hactive)
  | callStart =>
    refine h.other rfl (fun q hq hactive => ?_) (fun hquiet _ => hquiet)
      fun call hcall hactive => .inr ⟨call, hcall, hactive⟩
    obtain hold | rfl := mem_concat.mp hq
    · exact .inr ⟨q, hold, hactive⟩
    · cases hactive
  | starter n spawned =>
    have hframe := starterStep_frame n spawned s
    refine h.other hframe.stopping (fun _ => starterActive_starterStep) (fun hquiet hnone => ?_)
      fun call hcall hactive => .inr ⟨call, hframe.owners ▸ hcall, hactive⟩
    show (s.starterStep n spawned).worker = none ∨ (s.starterStep n spawned).worker = some .ended
    obtain hsame | ⟨-, q, hq, hactive⟩ := hframe.worker
    · rwa [hsame]
    · cases (hnone q hq).symm.trans hactive
  | callShutdown => exact ⟨h.stopping, h.starters, h.worker, h.owners⟩
  | shutdown n => exact h.shutdown (shutdownStep_frame n s)

/-- A shutdown that finds no handle does so when the worker is not running. -/
def JoinsFirst (s : RuntimeSystem) : RuntimeAction → Prop
  | .shutdown n => s.shutdowns[n]? = some .taking → s.slotFree → s.handle = false → s.Quiet
  | _ => True

variable {phase : ShutdownPhase} {commits : List ManifestCommit} {c : ManifestCommit}

/-- A shutdown that goes on to a phase for which all is as it should be. -/
theorem Closing.advance (h : Closing s) (hframe : SameButShutdowns s s')
    (hshutdowns : s'.shutdowns = s.shutdowns.set n phase) (hclosed : Closed s' (rank phase)) : Closing s' := by
  intro p hp
  rw [hshutdowns] at hp
  obtain hold | rfl := mem_or_eq_of_mem_set hp
  · exact (h p hold).shutdown hframe
  · exact hclosed

theorem not_starterActive_of_slotFree (h : s.slotFree) : ∀ q ∈ s.starters, starterActive q = false := by
  intro q hq
  have hfree := all_eq_true.mp h q hq
  cases q <;> first | rfl | cases hfree

theorem not_ownerActive_of_gateFree (h : s.gateFree) : ∀ call ∈ s.owners, ownerActive call.phase = false := by
  intro call hcall
  have hfree := all_eq_true.mp (Bool.and_eq_true_iff.mp h).1 call hcall
  obtain ⟨owner, allEligible, phase⟩ := call
  cases phase <;> first | rfl | cases hfree

theorem Closing.shutdownStep (h : Closing s) (hjoin : JoinsFirst s (.shutdown n)) : Closing (s.shutdownStep n) := by
  have hframe := shutdownStep_frame n s
  revert hframe
  unfold RuntimeSystem.shutdownStep
  cases hn : s.shutdowns[n]? with
  | none => exact fun _ => h
  | some phase =>
    have hclosed := h phase (mem_of_getElem? hn)
    cases phase with
    | returned => exact fun _ => h
    | entered => exact fun hframe => h.advance hframe rfl (by simp [closed_iff, rank, setShutdown])
    | taking =>
      have hflag := hclosed.stopping (by decide)
      dsimp only
      split
      · next hfree =>
        have hstart := not_starterActive_of_slotFree hfree
        cases hhandle : s.handle with
        | true => exact fun hframe => h.advance hframe rfl (by simpa [closed_iff, rank] using ⟨hflag, hstart⟩)
        | false =>
          have hquiet : s.Quiet := hjoin hn hfree hhandle
          exact fun hframe => h.advance hframe rfl (by simpa [closed_iff, rank] using ⟨hflag, hstart, hquiet⟩)
      · exact fun _ => h
    | stopWorker | leaving => exact fun hframe => h.advance hframe rfl (hclosed.shutdown hframe)
    | joining =>
      dsimp only
      split
      · next hended =>
        exact fun hframe => h.advance hframe rfl
          (by simpa [closed_iff, rank, setShutdown, Quiet, hended] using hclosed)
      · exact fun _ => h
    | gate =>
      dsimp only
      split
      · next hfree =>
        have hcalls := not_ownerActive_of_gateFree hfree
        exact fun hframe => h.advance hframe rfl
          (by simpa +contextual [closed_iff, rank, setShutdown, Quiet, hcalls] using hclosed)
      · exact fun _ => h
    | barrier =>
      dsimp only
      split
      · exact fun hframe => h.advance hframe rfl (hclosed.shutdown hframe)
      · exact fun _ => h

/-- A step of another thread leaves the shutdowns as they are, or begins one. -/
theorem Closing.other (h : Closing s)
    (hshutdowns : ∀ phase ∈ (s.step action).shutdowns, phase ∈ s.shutdowns ∨ rank phase = 0) :
    Closing (s.step action) := by
  intro phase hphase
  obtain hold | hzero := hshutdowns phase hphase
  · exact (h phase hold).step action
  · simp [closed_iff, hzero]

theorem Closing.step (h : Closing s) (hjoin : JoinsFirst s action) : Closing (s.step action) := by
  cases action with
  | worker answer => exact h.other fun _ hp => .inl (sameCalls_workerStep.shutdowns ▸ hp)
  | callOwner | callStart => exact h.other fun _ => .inl
  | owner n answer => exact h.other fun _ hp => .inl (ownerStep_frame.1.shutdowns ▸ hp)
  | ownerCommit n => exact h.other fun _ hp => .inl (ownerCommit_frame.1.shutdowns ▸ hp)
  | ownerFinish n outcome identity => exact h.other fun _ hp => .inl (ownerFinish_frame.1.shutdowns ▸ hp)
  | starter n spawned => exact h.other fun _ hp => .inl ((starterStep_frame n spawned s).shutdowns ▸ hp)
  | callShutdown =>
    refine h.other fun phase hp => (mem_concat.mp hp).imp_right fun hnew => ?_
    rw [hnew]
    rfl
  | shutdown n => exact h.shutdownStep hjoin

/-! ## No commit is left -/

/-- When a shutdown has passed the gate, no step commits. -/
theorem Closed.commits_step (h : Closed s 4) : (s.step action).commits = s.commits := by
  cases action with
  | worker answer =>
    show (s.workerStep answer).commits = s.commits
    rw [workerStep_of_quiet (h.worker (by decide))]
  | owner n answer => exact ownerStep_frame.2
  | ownerCommit n =>
    obtain hsame | ⟨⟨o, ho, hactive⟩, -⟩ := ownerCommit_eq
    · exact congrArg commits hsame
    · cases (h.owners le_rfl o ho).symm.trans hactive
  | ownerFinish n outcome identity => exact ownerFinish_frame.2
  | starter n spawned => exact (starterStep_frame n spawned s).commits
  | shutdown n => exact (shutdownStep_frame n s).commits
  | _ => rfl

/-- From a shutdown's return on, the manifest stays as it is. -/
theorem Closed.commits_run {more : List RuntimeAction} (h : Closed s 4) : (s.run more).commits = s.commits := by
  induction more generalizing s with
  | nil => rfl
  | cons action more ih => exact (ih (h.step action)).trans h.commits_step

/-! ## Jobs -/

/-- A completion was published for the job. -/
def Completed (commits : List ManifestCommit) (n : Nat) : Prop :=
  .ready n ∈ commits ∨ ∃ category, .failed n category ∈ commits

theorem completed_append :
    Completed (commits ++ [c]) n ↔ Completed commits n ∨ c = .ready n ∨ ∃ category, c = .failed n category := by
  simp only [Completed, mem_append, mem_singleton, exists_or]
  tauto

/-- A commit that completes no job. -/
theorem not_completion (hc : ¬ (c = .ready n ∨ ∃ category, c = .failed n category)) (h : Completed (commits ++ [c]) n) :
    Completed commits n :=
  (completed_append.mp h).resolve_right hc

/-- What a step of a job can do: go on without a completion, publish one and be finished, or see the cancellation and be
finished. -/
inductive JobEffect (job : Nat) : JobPhase.Effect → Prop where
  | goOn {phase : JobPhase} {commit : Option ManifestCommit} (h : commit = none ∨ commit = some .reconcile) :
    JobEffect job ⟨phase, commit, false⟩
  | ready {outcome : Option BuildOutcome} : JobEffect job ⟨.finished outcome, some (.ready job), false⟩
  | failed {outcome : Option BuildOutcome} {category : FailureCategory} :
    JobEffect job ⟨.finished outcome, some (.failed job category), false⟩
  | cancelled {outcome : Option BuildOutcome} : JobEffect job ⟨.finished outcome, none, true⟩

theorem jobEffect_step (job : Nat) (stop : Bool) (answer : Answer) (phase : JobPhase) :
    JobEffect job (phase.step job stop answer) := by
  cases phase with
  | unlessCancelled next =>
    cases stop with
    | true => exact .cancelled
    | false => exact .goOn (.inl rfl)
  | completeReady =>
    cases answer with
    | yes => exact .ready
    | late => exact .ready
    | _ => exact .goOn (.inl rfl)
  | completeFailed category =>
    cases answer with
    | yes => exact .failed
    | late => exact .failed
    | _ => exact .goOn (.inl rfl)
  | reconcileDiscarded =>
    cases answer with
    | yes => exact .goOn (.inr rfl)
    | late => exact .goOn (.inr rfl)
    | _ => exact .goOn (.inl rfl)
  | finished outcome => exact .goOn (.inl rfl)
  | _ => cases answer <;> exact .goOn (.inl rfl)

/-- The job under way. -/
def job : Option WorkerPhase → Option (Nat × JobPhase)
  | some (.building _ _ _ n phase) => some (n, phase)
  | _ => none

/-- Jobs are numbered as they are claimed, and the one under way has neither seen the cancellation nor been completed.
-/
structure Jobs (s : RuntimeSystem) : Prop where
  completed : ∀ n, Completed s.commits n → n < s.nextJob
  observed : ∀ n ∈ s.observed, n < s.nextJob ∧ ¬ Completed s.commits n
  building : ∀ n phase, job s.worker = some (n, phase) →
    n < s.nextJob ∧ ((∃ outcome, phase = .finished outcome) ∨ n ∉ s.observed ∧ ¬ Completed s.commits n)

theorem Jobs.initialized (state : RuntimeState) (identity : Bool) : Jobs (.initialized state identity) where
  completed n h := by simp [Completed, RuntimeSystem.initialized] at h
  observed n h := absurd h not_mem_nil
  building _ _ h := by cases h

/-- A step after which no job is under way, or the same one as before. -/
theorem Jobs.frame (h : Jobs s) (hcommits : ∀ n, Completed s'.commits n → Completed s.commits n)
    (hobserved : s'.observed = s.observed) (hnext : s'.nextJob = s.nextJob)
    (hworker : job s'.worker = job s.worker ∨ job s'.worker = none) : Jobs s' where
  completed n hn := hnext ▸ h.completed n (hcommits n hn)
  observed n hn := by
    rw [hobserved] at hn
    exact ⟨hnext ▸ (h.observed n hn).1, fun hc => (h.observed n hn).2 (hcommits n hc)⟩
  building n phase hbuilding := by
    obtain hsame | hnone := hworker
    · rw [hsame] at hbuilding
      obtain ⟨hlt, hrest⟩ := h.building n phase hbuilding
      rw [hnext, hobserved]
      exact ⟨hlt, hrest.imp_right fun hopen => ⟨hopen.1, fun hc => hopen.2 (hcommits n hc)⟩⟩
    · cases hnone.symm.trans hbuilding

/-- The completion of a job that has not seen the cancellation; the job is finished. -/
theorem Jobs.complete (h : Jobs s) (hlt : n < s.nextJob) (hnot : n ∉ s.observed)
    (hcommits : s'.commits = s.commits ++ [c]) (hobserved : s'.observed = s.observed) (hnext : s'.nextJob = s.nextJob)
    (hjob : ∀ m, (c = .ready m ∨ ∃ category, c = .failed m category) → n = m)
    (hworker : ∀ m phase, job s'.worker = some (m, phase) → m < s'.nextJob ∧ ∃ outcome, phase = .finished outcome) :
    Jobs s' where
  completed m hm := by
    rw [hcommits] at hm
    rw [hnext]
    obtain hold | hnew := completed_append.mp hm
    · exact h.completed m hold
    · exact hjob m hnew ▸ hlt
  observed m hm := by
    rw [hobserved] at hm
    rw [hnext, hcommits]
    refine ⟨(h.observed m hm).1, fun hc => ?_⟩
    obtain hold | hnew := completed_append.mp hc
    · exact (h.observed m hm).2 hold
    · exact hnot (hjob m hnew ▸ hm)
  building m phase hbuilding := (hworker m phase hbuilding).imp_right .inl

/-- A step of the job under way. -/
theorem Jobs.build {phase : JobPhase} (h : Jobs s)
    (hworker : s.worker = some (.building completed epoch controller n phase)) (answer : Answer) :
    Jobs (s.build completed epoch controller n phase answer) := by
  obtain ⟨hlt, hopen⟩ := h.building n phase (congrArg job hworker)
  unfold RuntimeSystem.build
  split
  · exact h.frame (fun _ hc => hc) rfl rfl (.inr rfl)
  · exact h.frame (fun _ hc => hc) rfl rfl (.inr rfl)
  · next hnone hsome =>
    have hopen : n ∉ s.observed ∧ ¬ Completed s.commits n := by
      refine hopen.resolve_left fun ⟨outcome, houtcome⟩ => ?_
      cases outcome with
      | none => exact hnone houtcome
      | some outcome => exact hsome outcome houtcome
    have heffect := jobEffect_step n s.stop answer phase
    generalize phase.step n s.stop answer = effect at heffect
    cases heffect with
    | @goOn phase' commit hcommit =>
      have hsame : ∀ m, Completed (s.commits ++ commit.toList) m → Completed s.commits m := by
        intro m hm
        obtain rfl | rfl := hcommit
        · rwa [Option.toList_none, append_nil] at hm
        · exact not_completion (by simp) hm
      refine ⟨fun m hm => h.completed m (hsame m hm), fun m hm => ?_, fun m q hq => ?_⟩
      · exact ⟨(h.observed m hm).1, fun hc => (h.observed m hm).2 (hsame m hc)⟩
      · cases hq
        exact ⟨hlt, .inr ⟨hopen.1, fun hc => hopen.2 (hsame n hc)⟩⟩
    | ready | failed =>
      exact h.complete hlt hopen.1 rfl rfl rfl (fun m hm => by simpa using hm) fun m q hq => by
        cases hq
        exact ⟨hlt, _, rfl⟩
    | cancelled =>
      simp only [Option.toList_none, append_nil]
      refine ⟨h.completed, fun m hm => ?_, fun m q hq => ?_⟩
      · obtain hm | rfl := mem_concat.mp hm
        · exact h.observed m hm
        · exact ⟨hlt, hopen.2⟩
      · cases hq
        exact ⟨hlt, .inl ⟨_, rfl⟩⟩

/-- A claim: the new job has a number that none had before. -/
theorem Jobs.claim (h : Jobs s) (hcommits : s'.commits = s.commits ++ [.claim s.nextJob])
    (hobserved : s'.observed = s.observed) (hnext : s'.nextJob = s.nextJob + 1)
    (hworker : ∀ n phase, job s'.worker = some (n, phase) → n = s.nextJob) : Jobs s' where
  completed n hn := by
    rw [hcommits] at hn
    have hlt := h.completed n (not_completion (by simp) hn)
    omega
  observed n hn := by
    rw [hobserved] at hn
    obtain ⟨hlt, hnot⟩ := h.observed n hn
    rw [hcommits]
    exact ⟨by omega, fun hc => hnot (not_completion (by simp) hc)⟩
  building n phase hbuilding := by
    obtain rfl := hworker n phase hbuilding
    rw [hobserved, hcommits, hnext]
    refine ⟨Nat.lt_succ_self _, .inr ⟨fun hobserved => ?_, fun hc => ?_⟩⟩
    · exact Nat.lt_irrefl _ (h.observed _ hobserved).1
    · exact Nat.lt_irrefl _ (h.completed _ (not_completion (by simp) hc))

theorem Jobs.workerStep (h : Jobs s) (answer : Answer) : Jobs (s.workerStep answer) := by
  have hidle {t : RuntimeSystem} (hcommits : t.commits = s.commits) := @Jobs.frame s t h fun n hn => hcommits ▸ hn
  unfold RuntimeSystem.workerStep
  cases hworker : s.worker with
  | none => exact h
  | some phase =>
    cases phase with
    | ended => exact h
    | loopTop | received =>
      dsimp only
      split <;> exact hidle rfl rfl rfl (.inr rfl)
    | turnStop | turnStopping | attemptStop | attemptStopping | attemptOwner | attemptIdentity =>
      exact hidle rfl rfl rfl (.inr (by dsimp only; split <;> rfl))
    | attemptRead completed epoch =>
      dsimp only
      split
      · split <;> exact hidle rfl rfl rfl (.inr rfl)
      · exact h
    | reconciling completed epoch controller =>
      cases answer with
      | yes | late => exact h.frame (fun n => not_completion (by simp)) rfl rfl (.inr rfl)
      | _ => exact hidle rfl rfl rfl (.inr rfl)
    | claiming completed epoch controller =>
      cases answer with
      | yes => exact h.claim rfl rfl rfl fun n p hbuilding => by cases hbuilding; rfl
      | late => exact h.claim rfl rfl rfl fun n p hbuilding => by cases hbuilding
      | _ => exact hidle rfl rfl rfl (.inr rfl)
    | building completed epoch controller n phase => exact h.build hworker answer
    | faulting epoch controller =>
      dsimp only
      split
      · have hframe : (s.publishWorkerFault epoch controller).commits = s.commits ∧
            (s.publishWorkerFault epoch controller).observed = s.observed ∧
              (s.publishWorkerFault epoch controller).nextJob = s.nextJob := by
          unfold publishWorkerFault
          split <;> exact ⟨rfl, rfl, rfl⟩
        exact hidle hframe.1 hframe.2.1 hframe.2.2 (.inr rfl)
      · exact h
    | _ => exact hidle rfl rfl rfl (.inr rfl)

theorem Jobs.owner (h : Jobs s) (hframe : SameButOwners s s')
    (hcommits : ∀ n, Completed s'.commits n → Completed s.commits n) : Jobs s' :=
  h.frame hcommits hframe.observed hframe.nextJob (.inl (congrArg job hframe.worker))

theorem Jobs.step (h : Jobs s) (action : RuntimeAction) : Jobs (s.step action) := by
  cases action with
  | worker answer => exact h.workerStep answer
  | owner n answer =>
    obtain ⟨hframe, hcommits⟩ := ownerStep_frame
    exact h.owner hframe fun m hm => hcommits ▸ hm
  | ownerCommit n =>
    refine h.owner ownerCommit_frame.1 fun m hm => ?_
    obtain hsame | ⟨-, hcommit⟩ := ownerCommit_eq
    · exact congrArg commits hsame ▸ hm
    · exact not_completion (by simp) (congrArg commits hcommit ▸ hm)
  | ownerFinish n outcome identity =>
    obtain ⟨hframe, hcommits⟩ := ownerFinish_frame
    exact h.owner hframe fun m hm => hcommits ▸ hm
  | starter n spawned =>
    have hframe := starterStep_frame n spawned s
    exact h.frame (fun m hm => hframe.commits ▸ hm) hframe.observed hframe.nextJob
      (hframe.worker.imp (congrArg job) fun hloop => congrArg job hloop.1)
  | shutdown n =>
    have hframe := shutdownStep_frame n s
    exact h.frame (fun m hm => hframe.commits ▸ hm) hframe.observed hframe.nextJob
      (.inl (congrArg job hframe.worker))
  | _ => exact h.frame (fun m hm => hm) rfl rfl (.inl rfl)

/-! ## Runs -/

/-- After every run in which a shutdown that finds no handle finds no running worker either, and whatever follows:
once a shutdown has returned there is no further commit, and a job that has seen the cancellation is never completed.
-/
theorem shutdown_is_final {state : RuntimeState} {identity : Bool} {actions more : List RuntimeAction}
    (hjoin : Throughout step JoinsFirst (.initialized state identity) actions) :
    let s := run (.initialized state identity) actions
    let later := s.run more
    (.returned ∈ s.shutdowns → later.commits = s.commits) ∧
      ∀ n ∈ later.observed, .ready n ∉ later.commits ∧ ∀ category, .failed n category ∉ later.commits := by
  have hclosing : Closing (run (.initialized state identity) actions) :=
    hjoin.invariant (fun _ _ h => h.step) fun _ h => absurd h not_mem_nil
  refine ⟨fun hreturned => (hclosing _ hreturned).commits_run, fun n hn => ?_⟩
  have hjobs : Jobs ((run (.initialized state identity) actions).run more) :=
    run_invariant (fun s action h => h.step action)
      (run_invariant (fun s action h => h.step action) (Jobs.initialized state identity))
  have hnot := (hjobs.observed n hn).2
  exact ⟨fun hready => hnot (.inl hready), fun category hfailed => hnot (.inr ⟨category, hfailed⟩)⟩

instance (s : RuntimeSystem) : Decidable s.Quiet := inferInstanceAs (Decidable (_ ∨ _))

instance (s : RuntimeSystem) (action : RuntimeAction) : Decidable (JoinsFirst s action) := by
  unfold JoinsFirst
  split <;> infer_instance

section Samples

def sampleRuntime : RuntimeSystem := .initialized (.ready 0) true

/-- The worker is started. -/
def started : List RuntimeAction := .callStart :: List.replicate 7 (.starter 0 true)

def workerSteps (n : Nat) : List RuntimeAction := List.replicate n (.worker .yes)

/-- A shutdown comes while the worker builds: the job sees the cancellation, and the worker is joined. -/
def joinedShutdown : List RuntimeAction :=
  started ++ workerSteps 15 ++ .callShutdown :: List.replicate 3 (.shutdown 0) ++ workerSteps 4 ++
    List.replicate 4 (.shutdown 0)

/-- An owner, another start and another shutdown come later. -/
def lateCalls : List RuntimeAction :=
  [.callOwner true true, .owner 0 true, .callStart, .starter 1 true, .starter 1 true, .starter 1 true, .callShutdown] ++
    List.replicate 6 (.shutdown 1) ++ workerSteps 3

theorem joinedShutdown_final :
    (.returned ∈ (sampleRuntime.run joinedShutdown).shutdowns ∧ (sampleRuntime.run joinedShutdown).observed = [0] ∧
      (sampleRuntime.run joinedShutdown).commits = [.reconcile, .claim 0]) ∧
    ((sampleRuntime.run joinedShutdown).run lateCalls).commits = (sampleRuntime.run joinedShutdown).commits ∧
    ∀ n ∈ ((sampleRuntime.run joinedShutdown).run lateCalls).observed,
      .ready n ∉ ((sampleRuntime.run joinedShutdown).run lateCalls).commits ∧
        ∀ category, .failed n category ∉ ((sampleRuntime.run joinedShutdown).run lateCalls).commits := by
  have hjoin : Throughout step JoinsFirst (.initialized (.ready 0) true) joinedShutdown := by decide +kernel
  have hfinal := @shutdown_is_final (.ready 0) true joinedShutdown lateCalls hjoin
  exact ⟨by decide +kernel, hfinal.1 (by decide +kernel), hfinal.2⟩

/-- The worker has passed its check of the flag when one shutdown takes its handle; another one finds none and
returns. -/
def overlappingShutdowns : List RuntimeAction :=
  started ++ workerSteps 7 ++ [.callShutdown, .callShutdown, .shutdown 0, .shutdown 0] ++
    List.replicate 5 (.shutdown 1)

theorem commits_after_overlapping_shutdown :
    (sampleRuntime.run overlappingShutdowns).shutdowns[1]? = some .returned ∧
      (sampleRuntime.run overlappingShutdowns).commits = [] ∧
      ((sampleRuntime.run overlappingShutdowns).run (workerSteps 6)).commits = [.reconcile, .claim 0] := by
  decide +kernel

end Samples

end RuntimeSystem

end Plico.Kernel
