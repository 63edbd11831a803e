import Mathlib.Data.List.MinMax
import Mathlib.Data.List.Perm.Basic
import Mathlib.Data.Prod.Lex
import Plico.Framework.Run
import Plico.Model.Scheduler.Agent

/-!
# First come, first served

As long as no two intents of one priority are submitted at the same time, the queue hands them out by priority and in
the order of submission, and a snapshot or a restart changes nothing about it.
-/

namespace Plico.Scheduler

open List SchedulerQueue QueueRun

variable {q q' : SchedulerQueue} {intent other : Intent} {n : Nat} {choices : List Nat} {intents : List Intent}

/-! ## What the heap hands out -/

theorem popAt_eq_some (h : q.popAt n = some (intent, q')) :
    q.Perm (intent :: q') ∧ ∀ other ∈ q, other.before intent = false := by
  unfold popAt at h
  split at h
  · rename_i found hn
    split at h
    · rename_i hall
      obtain ⟨rfl, rfl⟩ := Prod.mk.inj (Option.some.inj h)
      obtain ⟨hlt, rfl⟩ := List.getElem?_eq_some_iff.mp hn
      exact ⟨(getElem_cons_eraseIdx_perm hlt).symm, by simpa using hall⟩
    · cases h
  · cases h

/-- A queue with intents hands out one of them. -/
theorem popAt_isSome (hq : q ≠ []) : ∃ n, (q.popAt n).isSome := by
  let key : Intent → Lex (Natᵒᵈ × Nat) := fun i => toLex (OrderDual.toDual i.priority.rank, i.submittedAt)
  obtain ⟨first, hfirst⟩ := Option.ne_none_iff_exists'.mp (mt argmin_eq_none.mp hq : q.argmin key ≠ none)
  obtain ⟨n, hn, rfl⟩ := getElem_of_mem (argmin_mem hfirst)
  refine ⟨n, ?_⟩
  have hall : q.all (fun other => !other.before q[n]) = true := by
    rw [all_eq_true]
    intro other hother
    have hle := not_lt_of_mem_argmin hother hfirst
    simpa [key, Prod.Lex.toLex_lt_toLex, Intent.before, imp_iff_not_or] using hle
  rw [popAt, getElem?_eq_getElem hn]
  simp only [hall, if_true, Option.isSome_some]

/-- The queue is handed out as a whole, and nothing before what comes first. -/
theorem popAll_eq_some (h : q.popAll choices = some intents) :
    intents.Perm q ∧ intents.Pairwise fun a b => b.before a = false := by
  induction choices generalizing q intents with
  | nil =>
    unfold popAll at h
    split at h <;> cases h
    exact ⟨by simp [*], .nil⟩
  | cons n choices ih =>
    obtain ⟨⟨intent, q'⟩, hpop, h⟩ := Option.bind_eq_some_iff.mp h
    obtain ⟨rest, hrest, rfl⟩ := Option.map_eq_some_iff.mp h
    obtain ⟨hperm, hfirst⟩ := popAt_eq_some hpop
    obtain ⟨hrest, hordered⟩ := ih hrest
    refine ⟨(hrest.cons intent).trans hperm.symm, .cons (fun other hother => ?_) hordered⟩
    exact hfirst other (hperm.mem_iff.mpr (.tail _ (hrest.mem_iff.mp hother)))

@[simp] theorem restoreIntents_eq : restoreIntents q intents = q ++ intents := by
  induction intents generalizing q with
  | nil => simp [restoreIntents]
  | cons intent intents ih => simpa [restoreIntents, push] using ih (q := q ++ [intent])

/-! ## Runs -/

variable {s : QueueRun} {action : QueueAction}

/-- The clock has moved on since the last intent of the same priority, and a snapshot is restored that still shows the
queue. -/
def QueueAction.Orderly (s : QueueRun) : QueueAction → Prop
  | .submit intent =>
    ∀ other ∈ s.submitted, other.priority.rank = intent.priority.rank → other.submittedAt < intent.submittedAt
  | .restoreIntents => s.snapshot.Perm s.queue
  | _ => True

/-- Every submitted intent is pending or was dequeued, and the times order those of one priority. -/
structure InOrder (s : QueueRun) : Prop where
  perm : (s.dequeued ++ s.queue).Perm s.submitted
  ordered : s.submitted.Pairwise fun a b => a.priority.rank = b.priority.rank → a.submittedAt < b.submittedAt

theorem InOrder.step (h : InOrder s) (horderly : action.Orderly s) : InOrder (s.step action) := by
  cases action with
  | submit intent =>
    refine ⟨?_, pairwise_append.mpr ⟨h.ordered, pairwise_singleton .., ?_⟩⟩
    · simpa [step, push] using h.perm.append_right [intent]
    · simpa [QueueAction.Orderly] using horderly
  | dequeue choice =>
    simp only [step]
    split
    · rename_i hpop
      exact ⟨by simpa using ((popAt_eq_some hpop).1.append_left s.dequeued).symm.trans h.perm, h.ordered⟩
    · exact h
  | snapshotIntents choices =>
    simp only [step]
    split
    · rename_i hsnapshot
      obtain ⟨intents, hintents, heq⟩ := Option.map_eq_some_iff.mp hsnapshot
      cases heq
      exact ⟨by simpa using ((popAll_eq_some hintents).1.append_left s.dequeued).trans h.perm, h.ordered⟩
    · exact h
  | restoreIntents =>
    exact ⟨by simpa [step] using (Perm.append_left s.dequeued horderly).trans h.perm, h.ordered⟩

theorem InOrder.nodup (h : InOrder s) : s.submitted.Nodup := by
  refine h.ordered.imp ?_
  rintro a _ hlt rfl
  exact lt_irrefl _ (hlt rfl)

theorem InOrder.mem (h : InOrder s) (hq : intent ∈ s.queue) : intent ∈ s.submitted :=
  h.perm.mem_iff.mp (mem_append_right _ hq)

/-- Of two pending intents that differ, the one that does not come after the other is more urgent or was submitted
earlier. -/
theorem InOrder.submitted_first (h : InOrder s) (hi : intent ∈ s.queue) (ho : other ∈ s.queue) (hne : intent ≠ other)
    (hfirst : other.before intent = false) : other.priority.rank < intent.priority.rank ∨
      other.priority.rank = intent.priority.rank ∧ s.submitted.idxOf intent < s.submitted.idxOf other := by
  have hi := idxOf_lt_length_iff.mpr (h.mem hi)
  have ho := idxOf_lt_length_iff.mpr (h.mem ho)
  simp only [Intent.before, Bool.or_eq_false_iff, Bool.and_eq_false_imp, decide_eq_true_eq, decide_eq_false_iff_not,
    not_lt] at hfirst
  obtain hlt | heq := hfirst.1.lt_or_eq
  · exact .inl hlt
  · refine .inr ⟨heq, lt_of_le_of_ne (not_lt.mp fun hlt => ?_) fun hidx => hne ?_⟩
    · have := pairwise_iff_getElem.mp h.ordered _ _ ho hi hlt
      rw [getElem_idxOf, getElem_idxOf] at this
      exact (this heq).not_ge (hfirst.2 heq)
    · rw [← getElem_idxOf hi, ← getElem_idxOf ho]
      simp only [hidx]

/-- The heap has one order in which it can hand out the pending intents. -/
theorem InOrder.popAll_unique (h : InOrder s) (hq : q.Perm s.queue) (hq' : q'.Perm s.queue) {choices' : List Nat}
    {intents' : List Intent} (hall : q.popAll choices = some intents) (hall' : q'.popAll choices' = some intents') :
    intents = intents' := by
  obtain ⟨hp, hordered⟩ := popAll_eq_some hall
  obtain ⟨hp', hordered'⟩ := popAll_eq_some hall'
  refine (hp.trans (hq.trans (hp'.trans hq').symm)).eq_of_pairwise (fun a b ha hb hba hab => ?_) hordered hordered'
  by_contra hne
  have ha := (hp.trans hq).mem_iff.mp ha
  have hb := (hp'.trans hq').mem_iff.mp hb
  have hfirst := h.submitted_first ha hb hne hba
  have hfirst' := h.submitted_first hb ha (Ne.symm hne) hab
  omega

/-- In a run in which the times tell intents of one priority apart, a queue that is not empty hands out an intent of the
highest priority, of those the one that was submitted first, and no intent twice; and it hands out the intents of a
snapshot in the order of the snapshot, with or without taking it, and after it was restored. -/
theorem dequeued_first_come (actions : List QueueAction)
    (h : Throughout step (fun s action => action.Orderly s) .start actions) : let s := actions.foldl step .start
    (s.queue ≠ [] → ∃ n, (s.queue.popAt n).isSome) ∧
      (∀ n intent q, s.queue.popAt n = some (intent, q) → s.queue.Perm (intent :: q) ∧ ∀ other ∈ q,
        other.priority.rank < intent.priority.rank ∨ other.priority.rank = intent.priority.rank ∧
          s.submitted.idxOf intent < s.submitted.idxOf other) ∧
      (s.dequeued ++ s.queue).Perm s.submitted ∧ s.submitted.Nodup ∧
      ∀ choices snapshot q, s.queue.snapshotIntents choices = some (snapshot, q) →
        ∀ p ∈ [s.queue, q, restoreIntents [] snapshot], p.Perm s.queue ∧
          ∀ choices intents, p.popAll choices = some intents → intents = snapshot := by
  intro s
  have hs : InOrder s := h.invariant (fun _ _ => InOrder.step) ⟨.rfl, .nil⟩
  refine ⟨popAt_isSome, fun n intent q hpop => ?_, hs.perm, hs.nodup, fun choices snapshot q hsnapshot p hp => ?_⟩
  · obtain ⟨hperm, hfirst⟩ := popAt_eq_some hpop
    refine ⟨hperm, fun other hother => ?_⟩
    have hdistinct : (intent :: q).Nodup := hperm.nodup_iff.mp (hs.perm.nodup_iff.mpr hs.nodup).of_append_right
    have ho := hperm.mem_iff.mpr (.tail _ hother)
    refine hs.submitted_first (hperm.mem_iff.mpr (.head _)) ho ?_ (hfirst other ho)
    rintro rfl
    exact (nodup_cons.mp hdistinct).1 hother
  · obtain ⟨intents, hall, heq⟩ := Option.map_eq_some_iff.mp hsnapshot
    cases heq
    have hperm := (popAll_eq_some hall).1
    have hp : p.Perm s.queue := by
      simp only [restoreIntents_eq, mem_cons, not_mem_nil, or_false] at hp
      rcases hp with rfl | rfl | rfl
      exacts [.rfl, hperm, hperm]
    exact ⟨hp, fun _ _ hall' => hs.popAll_unique hp .rfl hall' hall⟩

theorem dequeued_by_priority :
    let intent (id : String) (priority : IntentPriority) (time : Nat) : Intent := ⟨id, priority, "", none, none, time⟩
    let s := [.submit (intent "1" .low 0), .submit (intent "2" .high 0), .submit (intent "3" .high 1),
      .snapshotIntents [1, 1, 0], .restoreIntents, .dequeue 0].foldl step .start
    s.dequeued.map Intent.id = ["2"] ∧ ∃ n, (s.queue.popAt n).isSome :=
  ⟨by decide, (dequeued_first_come _ (by simp only [Throughout, QueueAction.Orderly]; decide)).1 (by decide)⟩

/-- Of four intents of one time the heap hands out the first and then the third. -/
theorem dequeued_before_second : let intent (id : String) : Intent := ⟨id, .medium, "", none, none, 0⟩
    let s := [.submit (intent "1"), .submit (intent "2"), .submit (intent "3"), .submit (intent "4"),
      .dequeue 0].foldl step .start
    s.dequeued = [intent "1"] ∧ s.queue.popAt 1 = some (intent "3", [intent "2", intent "4"]) ∧
      s.submitted.idxOf (intent "2") < s.submitted.idxOf (intent "3") := by
  decide

end Plico.Scheduler
