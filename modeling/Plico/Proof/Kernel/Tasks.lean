import Mathlib.Data.List.Induction
import Mathlib.Logic.Relation
import Plico.Framework.Run
import Plico.Model.Kernel.Tasks

/-!
# The lifecycle of delegated tasks

`call_cases` says everything a call can do to a task that is already there. From it: as long as no task is created
under an id that is taken, statuses only advance along the documented diagram, finished tasks stay as they are, and a
task is moved by its assigned agent or by the check of deadlines.
-/

namespace Plico.Kernel

open List AList TaskStore

/-- The documented diagram. -/
inductive Advances : TaskStatus → TaskStatus → Prop where
  | start : Advances .pending .inProgress
  | complete : Advances .inProgress .completed
  | fail : Advances .inProgress .failed
  | drop : Advances .pending .failed

def TaskStatus.isFinal (status : TaskStatus) : Prop :=
  status = .completed ∨ status = .failed

/-- The call is one that may move the task: the assigned agent makes it, or it is the check of deadlines. -/
def TaskCall.mayMove (task : Task) : TaskCall → Prop
  | .createTask .. => False
  | .startTask _ agentId _ | .completeTask _ agentId _ _ | .failTask _ agentId _ _ => agentId = task.toAgent
  | .checkDeadlines _ => True

/-- The call creates no task under an id that is taken. -/
def TaskCall.Fresh (store : TaskStore) : TaskCall → Prop
  | .createTask taskId .. => taskId ∉ store
  | _ => True

/-- No task in progress is past its deadline at the check. -/
def TaskCall.Timely (store : TaskStore) : TaskCall → Prop
  | .checkDeadlines now =>
    ∀ taskId task, store.lookup taskId = some task → task.status = .inProgress → task.isExpired (now taskId) = false
  | _ => True

/-- The call is fresh and timely in the store it finds. -/
def Orderly (store : TaskStore) (call : TaskCall) : Prop := call.Fresh store ∧ call.Timely store

theorem Advances.not_final {a b : TaskStatus} (h : Advances a b) : ¬ a.isFinal := by
  cases h <;> simp [TaskStatus.isFinal]

variable {store : TaskStore} {call : TaskCall} {taskId agentId : String} {task task' : Task}

/-! ## One call -/

theorem assigned_eq_ok (h : store.assigned taskId agentId = .ok task) :
    store.lookup taskId = some task ∧ agentId = task.toAgent := by
  obtain ⟨found, hfound, h⟩ := of_seq h
  obtain ⟨⟨⟩, hagent, h⟩ := of_seq h
  cases h
  exact ⟨required_eq_ok.mp hfound, (not_not.mp (refuse_eq_ok.mp hagent)).symm⟩

/-- An agent's call that succeeds replaces the task it is assigned by one further along. -/
structure Moved (store : TaskStore) (taskId agentId : String) (store' : TaskStore) : Prop where
  exists_moved : ∃ task task', store.lookup taskId = some task ∧ agentId = task.toAgent ∧
    store' = store.insert taskId task' ∧ Advances task.status task'.status

variable {result : TaskStore × Task} {now : Nat}

theorem startTask_eq_ok (h : store.startTask taskId agentId now = .ok result) :
    Moved store taskId agentId result.1 := by
  obtain ⟨task, hassigned, h⟩ := of_seq h
  obtain ⟨⟨⟩, hstatus, h⟩ := of_seq h
  cases h
  obtain ⟨hlookup, hagent⟩ := assigned_eq_ok hassigned
  exact ⟨task, task.start now, hlookup, hagent, rfl, not_not.mp (refuse_eq_ok.mp hstatus) ▸ .start⟩

theorem completeTask_eq_ok {resultCids : List String}
    (h : store.completeTask taskId agentId resultCids now = .ok result) : Moved store taskId agentId result.1 := by
  obtain ⟨task, hassigned, h⟩ := of_seq h
  obtain ⟨⟨⟩, hstatus, h⟩ := of_seq h
  cases h
  obtain ⟨hlookup, hagent⟩ := assigned_eq_ok hassigned
  exact ⟨task, task.complete resultCids now, hlookup, hagent, rfl, not_not.mp (refuse_eq_ok.mp hstatus) ▸ .complete⟩

theorem failTask_eq_ok {reason : String} (h : store.failTask taskId agentId reason now = .ok result) :
    Moved store taskId agentId result.1 := by
  obtain ⟨task, hassigned, h⟩ := of_seq h
  obtain ⟨⟨⟩, hstatus, h⟩ := of_seq h
  cases h
  obtain ⟨hlookup, hagent⟩ := assigned_eq_ok hassigned
  have hopen := refuse_eq_ok.mp hstatus
  refine ⟨task, task.fail reason now, hlookup, hagent, rfl, ?_⟩
  cases hcase : task.status with
  | pending => exact .drop
  | inProgress => exact .fail
  | completed => exact absurd (.inl hcase) hopen
  | failed => exact absurd (.inr hcase) hopen

/-- What a call has made of a task: nothing, or it moved it along the diagram and was allowed to. -/
def Kept (call : TaskCall) (task task' : Task) : Prop :=
  task' = task ∨ Advances task.status task'.status ∧ call.mayMove task

variable {other : String} {calls : List TaskCall}

theorem Moved.kept {store' : TaskStore} (h : Moved store taskId agentId store')
    (hmay : ∀ task, agentId = task.toAgent → call.mayMove task)
    (hother : store.lookup other = some task) : ∃ task', store'.lookup other = some task' ∧ Kept call task task' := by
  obtain ⟨moved, moved', hlookup, hagent, rfl, hadvances⟩ := h.exists_moved
  by_cases hid : other = taskId
  · subst hid
    cases hother.symm.trans hlookup
    exact ⟨moved', lookup_insert _, .inr ⟨hadvances, hmay _ hagent⟩⟩
  · exact ⟨task, by rw [lookup_insert_ne hid, hother], .inl rfl⟩

/-- A call that leaves the store as it is when it fails. -/
theorem kept_of_attempt {attempt : Except String (TaskStore × Task)}
    (h : ∀ result, attempt = .ok result → Moved store taskId agentId result.1)
    (hmay : ∀ task, agentId = task.toAgent → call.mayMove task) (hother : store.lookup other = some task) :
    ∃ task', ((attempt.map Prod.fst).toOption.getD store).lookup other = some task' ∧ Kept call task task' := by
  cases attempt with
  | error => exact ⟨task, hother, .inl rfl⟩
  | ok result => exact (h result rfl).kept hmay hother

/-- Everything a call can do to a task that is there. -/
theorem call_cases (hfresh : call.Fresh store) (hother : store.lookup other = some task) :
    ∃ task', (store.call call).lookup other = some task' ∧ Kept call task task' := by
  cases call with
  | createTask taskId fromAgent toAgent intent contextCids deadlineMs now =>
    have hne : other ≠ taskId := by
      rintro rfl
      exact hfresh (lookup_isSome.mp (by rw [hother]; rfl))
    exact ⟨task, by rw [call, createTask, lookup_insert_ne hne, hother], .inl rfl⟩
  | startTask => exact kept_of_attempt (fun _ => startTask_eq_ok) (fun _ => id) hother
  | completeTask => exact kept_of_attempt (fun _ => completeTask_eq_ok) (fun _ => id) hother
  | failTask => exact kept_of_attempt (fun _ => failTask_eq_ok) (fun _ => id) hother
  | checkDeadlines now =>
    refine ⟨expire task (now other), by simp [call, checkDeadlines, hother], ?_⟩
    unfold expire
    split
    · next hexpired => exact .inr ⟨hexpired.2 ▸ .drop, trivial⟩
    · exact .inl rfl

/-- A task that was not there before a call is pending after it. -/
theorem created_pending (hnone : store.lookup taskId = none) (hsome : (store.call call).lookup taskId = some task') :
    task'.status = .pending := by
  -- an agent's call changes a task that is there
  have hattempt {attempt : Except String (TaskStore × Task)} {id agentId : String}
      (h : ∀ result, attempt = .ok result → Moved store id agentId result.1)
      (hsome : ((attempt.map Prod.fst).toOption.getD store).lookup taskId = some task') : False := by
    cases attempt with
    | error => simp [Except.map, Except.toOption, hnone] at hsome
    | ok result =>
      obtain ⟨moved, moved', hlookup, -, hstore, -⟩ := (h result rfl).exists_moved
      have hne : taskId ≠ id := by
        rintro rfl
        simp [hnone] at hlookup
      rw [show ((Except.ok result).map Prod.fst).toOption.getD store = result.1 from rfl,
        hstore, lookup_insert_ne hne, hnone] at hsome
      cases hsome
  cases call with
  | createTask id fromAgent toAgent intent contextCids deadlineMs now =>
    rcases lookup_insert_eq_some.mp hsome with ⟨-, rfl⟩ | ⟨-, hold⟩
    · rfl
    · rw [hnone] at hold
      cases hold
  | startTask => exact (hattempt (fun _ => startTask_eq_ok) hsome).elim
  | completeTask => exact (hattempt (fun _ => completeTask_eq_ok) hsome).elim
  | failTask => exact (hattempt (fun _ => failTask_eq_ok) hsome).elim
  | checkDeadlines now => simp [call, checkDeadlines, hnone] at hsome

/-- After a check at which no task in progress is late, no open task has a deadline before the time of the check. -/
theorem deadline_of_open {now : String → Nat} {t deadline : Nat}
    (htimely : (TaskCall.checkDeadlines now).Timely store) (ht : t ≤ now taskId)
    (hlookup : (store.call (.checkDeadlines now)).lookup taskId = some task')
    (hopen : task'.status = .pending ∨ task'.status = .inProgress) (hdeadline : task'.deadlineMs = some deadline) :
    t ≤ deadline := by
  simp only [call, checkDeadlines, lookup_mapValues, Option.map_eq_some_iff] at hlookup
  obtain ⟨task, htask, rfl⟩ := hlookup
  unfold expire at hopen hdeadline
  split at hopen
  · simp [Task.fail] at hopen
  · rename_i hkept
    rw [if_neg hkept] at hdeadline
    have hunexpired : task.isExpired (now taskId) = false := by
      rcases hopen with hstatus | hstatus
      · cases hexpired : task.isExpired (now taskId) with
        | false => rfl
        | true => exact absurd ⟨hexpired, hstatus⟩ hkept
      · exact htimely taskId task htask hstatus
    simp only [Task.isExpired, hdeadline, Option.any_some, decide_eq_false_iff_not] at hunexpired
    omega

/-! ## Runs -/

/-- The later task of a history is the earlier one moved along the diagram. -/
structure Continues (task task' : Task) : Prop where
  status : Relation.ReflTransGen Advances task.status task'.status
  final : task.status.isFinal → task' = task

theorem Kept.continues (h : Kept call task task') : Continues task task' := by
  rcases h with rfl | ⟨hadvances, -⟩
  · exact ⟨.refl, fun _ => rfl⟩
  · exact ⟨.single hadvances, fun hfinal => absurd hfinal hadvances.not_final⟩

theorem Continues.trans {task'' : Task} (h : Continues task task') (h' : Continues task' task'') :
    Continues task task'' := by
  refine ⟨h.status.trans h'.status, fun hfinal => ?_⟩
  have hsame := h.final hfinal
  exact (h'.final (hsame ▸ hfinal)).trans hsame

theorem runTasks_concat : runTasks store (calls ++ [call]) = (runTasks store calls).call call := by
  simp [runTasks]

/-- In an orderly run a task continues through all later calls. -/
theorem run_continues (h : Throughout TaskStore.call Orderly store calls) {pre mid : List TaskCall}
    (hpre : pre ++ mid <+: calls) (htask : (runTasks store pre).lookup taskId = some task) :
    ∃ task', (runTasks store (pre ++ mid)).lookup taskId = some task' ∧ Continues task task' := by
  induction mid using reverseRecOn with
  | nil => exact ⟨task, by rw [append_nil]; exact htask, .refl, fun _ => rfl⟩
  | append_singleton mid call ih =>
    rw [← append_assoc] at hpre ⊢
    obtain ⟨between, hbetween, hcontinues⟩ := ih ((prefix_append _ _).trans hpre)
    obtain ⟨task', htask', hkept⟩ := call_cases (h.at hpre).1 hbetween
    exact ⟨task', by rw [runTasks_concat]; exact htask', hcontinues.trans hkept.continues⟩

/-- In every run in which no task is created under an id that is taken and no task in progress is late when the
deadlines are checked: tasks begin pending and follow the diagram, finished tasks never change, each call moves a task
only if its assigned agent makes it or it is the check of deadlines, and after a check no open task has a deadline
before the time of the check. -/
theorem tasks_follow_lifecycle (calls : List TaskCall)
    (horderly : Throughout TaskStore.call Orderly ∅ calls) :
    (∀ pre mid, pre ++ mid <+: calls → ∀ taskId task, (runTasks ∅ pre).lookup taskId = some task →
      ∃ task', (runTasks ∅ (pre ++ mid)).lookup taskId = some task' ∧
        Relation.ReflTransGen Advances task.status task'.status ∧ (task.status.isFinal → task' = task)) ∧
    (∀ pre call, pre ++ [call] <+: calls → ∀ taskId task', (runTasks ∅ (pre ++ [call])).lookup taskId = some task' →
      match (runTasks ∅ pre).lookup taskId with
      | none => task'.status = .pending
      | some task => task' = task ∨ Advances task.status task'.status ∧ call.mayMove task) ∧
    (∀ pre now t, pre ++ [.checkDeadlines now] <+: calls → (∀ taskId, t ≤ now taskId) → ∀ taskId task,
      (runTasks ∅ (pre ++ [.checkDeadlines now])).lookup taskId = some task →
        task.status = .pending ∨ task.status = .inProgress → ∀ deadline ∈ task.deadlineMs, t ≤ deadline) := by
  refine ⟨fun pre mid hpre taskId task htask => ?_, fun pre call hpre taskId task' htask' => ?_,
    fun pre now t hpre ht taskId task htask hopen deadline hdeadline => ?_⟩
  · obtain ⟨task', htask', hcontinues⟩ := run_continues horderly hpre htask
    exact ⟨task', htask', hcontinues.status, hcontinues.final⟩
  · rw [runTasks_concat] at htask'
    cases hbefore : (runTasks ∅ pre).lookup taskId with
    | none => exact created_pending hbefore htask'
    | some task =>
      obtain ⟨after, hafter, hkept⟩ := call_cases (horderly.at hpre).1 hbefore
      cases hafter.symm.trans htask'
      exact hkept
  · rw [runTasks_concat] at htask
    exact deadline_of_open (horderly.at hpre).2 (ht taskId) htask hopen hdeadline

/-- A task is delegated, started in time and completed. -/
def servedCalls : List TaskCall :=
  [.createTask "t1" "a" "b" "work" [] (some 50) 1, .startTask "t1" "b" 2, .checkDeadlines fun _ => 10,
    .completeTask "t1" "b" [] 11]

theorem servedCalls_orderly : Throughout TaskStore.call Orderly ∅ servedCalls := by
  refine ⟨⟨notMem_empty _, trivial⟩, ⟨trivial, trivial⟩, ⟨trivial, ?_⟩, ⟨trivial, trivial⟩, trivial⟩
  intro taskId task hlookup _
  rcases lookup_insert_eq_some.mp hlookup with ⟨-, rfl⟩ | ⟨-, hold⟩
  · rfl
  · rcases lookup_insert_eq_some.mp hold with ⟨-, rfl⟩ | ⟨-, hnone⟩
    · rfl
    · cases hnone

theorem tasks_follow_lifecycle_served :
    ∃ task', (runTasks ∅ servedCalls).lookup "t1" = some task' ∧
      Relation.ReflTransGen Advances .pending task'.status := by
  have hcreated : (runTasks ∅ (servedCalls.take 1)).lookup "t1" =
      some (Task.new "t1" "a" "b" "work" [] (some 50) 1) := rfl
  obtain ⟨task', htask', hstatus, -⟩ := (tasks_follow_lifecycle servedCalls servedCalls_orderly).1 (servedCalls.take 1)
    (servedCalls.drop 1) (prefix_refl _) "t1" _ hcreated
  exact ⟨task', htask', hstatus⟩

/-- A finished task is pending again when its id is used for a new one, and the check of deadlines passes over a task in
progress. -/
theorem finished_reopened_and_late_kept :
    (∃ task task', (runTasks ∅ servedCalls).lookup "t1" = some task ∧ task.status = .completed ∧
      ((runTasks ∅ servedCalls).call (.createTask "t1" "a" "c" "more" [] none 20)).lookup "t1" = some task' ∧
      task'.status = .pending) ∧
    ∃ task, (runTasks ∅ [.createTask "t1" "a" "b" "work" [] (some 50) 1, .startTask "t1" "b" 2,
      .checkDeadlines fun _ => 60]).lookup "t1" = some task ∧ task.status = .inProgress ∧ task.deadlineMs = some 50 :=
  ⟨⟨_, _, rfl, rfl, rfl, rfl⟩, _, rfl, rfl, rfl⟩

end Plico.Kernel
