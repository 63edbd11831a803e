import Plico.Framework.Checked
import Plico.Framework.Fold

/-!
# Delegated tasks (kernel/ops/task.rs)

The store of tasks that one agent delegates to another. The clock is an input: `now` is the reading of `now_ms` in one
call, and `check_deadlines` reads it once for every task.
-/

namespace Plico.Kernel

inductive TaskStatus where
  | pending
  | inProgress
  | completed
  | failed
  deriving DecidableEq, Repr

/-- The `Debug` text of a status, as the error messages show it. -/
def TaskStatus.debug : TaskStatus → String
  | .pending => "Pending"
  | .inProgress => "InProgress"
  | .completed => "Completed"
  | .failed => "Failed"

structure Task where
  taskId : String
  fromAgent : String
  toAgent : String
  intent : String
  contextCids : List String
  deadlineMs : Option Nat
  status : TaskStatus
  resultCids : List String
  createdAtMs : Nat
  updatedAtMs : Nat
  failureReason : Option String
  deriving DecidableEq, Repr

namespace Task

def new (taskId fromAgent toAgent intent : String) (contextCids : List String) (deadlineMs : Option Nat) (now : Nat) :
    Task where
  taskId
  fromAgent
  toAgent
  intent
  contextCids
  deadlineMs
  status := .pending
  resultCids := []
  createdAtMs := now
  updatedAtMs := now
  failureReason := none

def start (task : Task) (now : Nat) : Task :=
  { task with status := .inProgress, updatedAtMs := now }

def complete (task : Task) (resultCids : List String) (now : Nat) : Task :=
  { task with status := .completed, resultCids, updatedAtMs := now }

def fail (task : Task) (reason : String) (now : Nat) : Task :=
  { task with status := .failed, failureReason := some reason, updatedAtMs := now }

def isExpired (task : Task) (now : Nat) : Bool :=
  task.deadlineMs.any fun deadline => now > deadline

end Task

/-- `TaskStore`: the tasks by id. -/
abbrev TaskStore := AList (fun _ : String => Task)

namespace TaskStore

variable (store : TaskStore)

def createTask (taskId fromAgent toAgent intent : String) (contextCids : List String)
    (deadlineMs : Option Nat) (now : Nat) : TaskStore × Task :=
  let task := Task.new taskId fromAgent toAgent intent contextCids deadlineMs now
  (store.insert taskId task, task)

/-- The lookup and the check of the agent with which an agent's call begins. -/
def assigned (store : TaskStore) (taskId agentId : String) : Except String Task := do
  let task ← required (store.lookup taskId) ("Task not found: " ++ taskId)
  refuse (task.toAgent ≠ agentId) ("Task " ++ taskId ++ " is assigned to " ++ task.toAgent ++ ", not " ++ agentId)
  pure task

def startTask (taskId agentId : String) (now : Nat) : Except String (TaskStore × Task) := do
  let task ← store.assigned taskId agentId
  refuse (task.status ≠ .pending)
    ("Task " ++ taskId ++ " is not pending (current status: " ++ task.status.debug ++ ")")
  pure (store.insert taskId (task.start now), task.start now)

def completeTask (taskId agentId : String) (resultCids : List String) (now : Nat) :
    Except String (TaskStore × Task) := do
  let task ← store.assigned taskId agentId
  refuse (task.status ≠ .inProgress)
    ("Task " ++ taskId ++ " is not in_progress (current status: " ++ task.status.debug ++ ")")
  pure (store.insert taskId (task.complete resultCids now), task.complete resultCids now)

def failTask (taskId agentId reason : String) (now : Nat) : Except String (TaskStore × Task) := do
  let task ← store.assigned taskId agentId
  refuse (task.status = .completed ∨ task.status = .failed)
    ("Task " ++ taskId ++ " is already " ++ task.status.debug ++ " (cannot fail)")
  pure (store.insert taskId (task.fail reason now), task.fail reason now)

/-- The body of the loop over the tasks, with the reading of the clock for this task. -/
def expire (task : Task) (now : Nat) : Task :=
  if task.isExpired now ∧ task.status = .pending then task.fail "Deadline expired" now else task

/-- The store and the expired tasks with their agents. -/
def checkDeadlines (now : String → Nat) : TaskStore × List (String × String) :=
  (mapValues (fun taskId task => expire task (now taskId)) store,
    (store.entries.filter fun e => e.2.isExpired (now e.1) ∧ e.2.status = .pending).map fun e => (e.1, e.2.toAgent))

end TaskStore

/-! ## Sequences of calls -/

inductive TaskCall where
  | createTask (taskId fromAgent toAgent intent : String) (contextCids : List String) (deadlineMs : Option Nat)
      (now : Nat)
  | startTask (taskId agentId : String) (now : Nat)
  | completeTask (taskId agentId : String) (resultCids : List String) (now : Nat)
  | failTask (taskId agentId reason : String) (now : Nat)
  | checkDeadlines (now : String → Nat)

/-- The store after a call; a call that fails leaves it as it was. -/
def TaskStore.call (store : TaskStore) : TaskCall → TaskStore
  | .createTask taskId fromAgent toAgent intent contextCids deadlineMs now =>
    (store.createTask taskId fromAgent toAgent intent contextCids deadlineMs now).1
  | .startTask taskId agentId now => ((store.startTask taskId agentId now).map Prod.fst).toOption.getD store
  | .completeTask taskId agentId resultCids now =>
    ((store.completeTask taskId agentId resultCids now).map Prod.fst).toOption.getD store
  | .failTask taskId agentId reason now => ((store.failTask taskId agentId reason now).map Prod.fst).toOption.getD store
  | .checkDeadlines now => (store.checkDeadlines now).1

def runTasks (store : TaskStore) (calls : List TaskCall) : TaskStore :=
  calls.foldl TaskStore.call store

end Plico.Kernel
