import Plico.Model.Projection.Types

/-!
# The projection worker and its shutdown

The worker's thread (kernel/ops/projection_runtime.rs, kernel/ops/projection_controller/mod.rs), calls of
`owner_rebuild`, of `start_workers` and of `shutdown_projection_worker` (kernel/mod.rs) run side by side. Each is cut
at its loads and stores of the shared flags, at its locks and at its commits to the manifest; an action is one step of
one of them, with the answer of whatever it asks (the provider, the ledger, the store) as an argument. Locks are held
in certain phases and are free when no thread is in one of them. A wake of the worker is only a hint: it may go on at
any time. Panics of threads, and with them poisoned locks, are left out, as are the reasons kept for the readiness
report and tracing.
-/

namespace Plico.Kernel

open Projection (FailureCategory)

/-! ## Build jobs -/

/-- A step of the manifest pointer, with the job or the owner's call it was made for. -/
inductive ManifestCommit where
  | reconcile
  | claim (job : Nat)
  | ready (job : Nat)
  | failed (job : Nat) (category : FailureCategory)
  | owner (call : Nat)
  deriving DecidableEq

inductive BuildOutcome where
  | ready
  | failed (category : FailureCategory)
  | discarded
  deriving DecidableEq

/-- What a step of a job is told: success, a negative answer, a claim or source that has changed, an error, or an error
after the commit was made. -/
inductive Answer where
  | yes
  | no
  | changed
  | error
  | late
  deriving DecidableEq

/-- `complete_one_interruptible`. -/
inductive JobPhase where
  | validateClaim
  | readDocument
  | unlessCancelled (next : JobPhase)
  | precheck
  | embed
  | postcheck
  | validateOutput
  | completeReady
  | completeFailed (category : FailureCategory)
  | reconcileDiscarded
  | finished (outcome : Option BuildOutcome)
  deriving DecidableEq

namespace JobPhase

/-- What a step of a job brings about: its next phase, the commit it makes and whether it has seen the cancellation. -/
structure Effect where
  phase : JobPhase
  commit : Option ManifestCommit
  observed : Bool
  deriving DecidableEq

def goTo (phase : JobPhase) : Effect := ⟨phase, none, false⟩

/-- An error is a fault of the worker. -/
def fault : JobPhase := .finished none

def step (job : Nat) (stop : Bool) (answer : Answer) : JobPhase → Effect
  | .validateClaim =>
    match answer with
    | .yes => goTo .readDocument
    | .no => goTo (.finished (some .discarded))
    | _ => goTo fault
  | .readDocument =>
    match answer with
    | .yes => goTo (.unlessCancelled .precheck)
    | .no => goTo .reconcileDiscarded
    | _ => goTo fault
  | .unlessCancelled next => if stop then ⟨.finished (some .discarded), none, true⟩ else goTo next
  | .precheck =>
    match answer with
    | .yes => goTo (.unlessCancelled .embed)
    | _ => goTo (.unlessCancelled (.completeFailed .providerIdentityChanged))
  | .embed =>
    match answer with
    | .yes => goTo (.unlessCancelled .postcheck)
    | _ => goTo (.unlessCancelled (.completeFailed .providerUnavailable))
  | .postcheck =>
    match answer with
    | .yes => goTo (.unlessCancelled .validateOutput)
    | _ => goTo (.unlessCancelled (.completeFailed .providerIdentityChanged))
  | .validateOutput =>
    match answer with
    | .yes => goTo (.unlessCancelled .completeReady)
    | .no => goTo (.completeFailed .invalidProjection)
    | .changed => goTo (.finished (some .discarded))
    | _ => goTo fault
  | .completeReady =>
    match answer with
    | .yes => ⟨.finished (some .ready), some (.ready job), false⟩
    | .late => ⟨fault, some (.ready job), false⟩
    | .no => goTo (.completeFailed .artifactStoreUnavailable)
    | .changed => goTo .reconcileDiscarded
    | .error => goTo fault
  | .completeFailed category =>
    match answer with
    | .yes => ⟨.finished (some (.failed category)), some (.failed job category), false⟩
    | .late => ⟨fault, some (.failed job category), false⟩
    | .changed => goTo .reconcileDiscarded
    | _ => goTo fault
  | .reconcileDiscarded =>
    match answer with
    | .yes => ⟨.finished (some .discarded), some .reconcile, false⟩
    | .late => ⟨fault, some .reconcile, false⟩
    | .no => goTo (.finished (some .discarded))
    | _ => goTo fault
  | .finished outcome => goTo (.finished outcome)

end JobPhase

/-! ## Threads -/

inductive RuntimeState where
  | ready (controller : Nat)
  | faulted (controller : Nat)
  | recoveredGenesis
  | unavailable
  deriving DecidableEq

def maxJobsPerTurn : Nat := 16

/-- The worker's thread: its loop, the turn, and the attempts of a turn with the number of those completed. -/
inductive WorkerPhase where
  | loopTop
  | receiving
  | received
  | turnStop
  | turnStopping
  | attemptStop (completed : Nat)
  | attemptStopping (completed : Nat)
  | attemptOwner (completed : Nat)
  | attemptEpoch (completed : Nat)
  | attemptRead (completed epoch : Nat)
  | attemptIdentity (completed epoch controller : Nat)
  | reconciling (completed epoch controller : Nat)
  | claiming (completed epoch controller : Nat)
  | building (completed epoch controller job : Nat) (phase : JobPhase)
  | faulting (epoch controller : Nat)
  | ended
  deriving DecidableEq

inductive OwnerPhase where
  | entered
  | gate
  | gated
  | announcing
  | firstWrite
  | snapshot
  | secondWrite
  | working
  | leaving
  | opening
  | returned
  deriving DecidableEq

structure OwnerCall where
  owner : Bool
  allEligible : Bool
  phase : OwnerPhase
  deriving DecidableEq

inductive StarterPhase where
  | entered
  | locked
  | mayStart
  | mark
  | takeReceiver
  | spawn
  | install
  | returned
  deriving DecidableEq

inductive ShutdownPhase where
  | entered
  | taking
  | stopWorker
  | joining
  | gate
  | barrier
  | leaving
  | returned
  deriving DecidableEq

structure RuntimeSystem where
  stopping : Bool
  ownerPending : Bool
  workerStarted : Bool
  /-- The receiver of wakes, which only one worker gets. -/
  wakeReceiver : Bool
  state : RuntimeState
  identity : Bool
  stateEpoch : Nat
  /-- `projection_worker`: whether it has the handle of the worker. -/
  handle : Bool
  /-- The stop flag of the worker that was started. -/
  stop : Bool
  worker : Option WorkerPhase
  owners : List OwnerCall
  starters : List StarterPhase
  shutdowns : List ShutdownPhase
  nextController : Nat
  nextJob : Nat
  commits : List ManifestCommit
  /-- The jobs that have seen the cancellation. -/
  observed : List Nat

def RuntimeSystem.initialized (state : RuntimeState) (identity : Bool) : RuntimeSystem where
  stopping := false
  ownerPending := false
  workerStarted := false
  wakeReceiver := true
  state := state
  identity := identity
  stateEpoch := 0
  handle := false
  stop := false
  worker := none
  owners := []
  starters := []
  shutdowns := []
  nextController := match state with
    | .ready controller | .faulted controller => controller + 1
    | _ => 0
  nextJob := 0
  commits := []
  observed := []

/-- How an owner's call ends: without a change, with a rebuild by the controller in place, with a new controller, or
with a recovered genesis. -/
inductive OwnerOutcome where
  | failed
  | rebuilt
  | installed
  | recovered
  deriving DecidableEq

inductive RuntimeAction where
  | worker (answer : Answer)
  | callOwner (owner allEligible : Bool)
  | owner (call : Nat) (answer : Bool)
  | ownerCommit (call : Nat)
  | ownerFinish (call : Nat) (outcome : OwnerOutcome) (identity : Option Bool)
  | callStart
  | starter (call : Nat) (spawned : Bool)
  | callShutdown
  | shutdown (call : Nat)
  deriving DecidableEq

/-! ## Locks -/

/-- The read guard of `state`. -/
def WorkerPhase.reads : WorkerPhase → Bool
  | .attemptIdentity .. | .reconciling .. | .claiming .. | .building .. => true
  | _ => false

/-- The guard of `owner_gate`. -/
def OwnerPhase.holdsGate : OwnerPhase → Bool
  | .entered | .gate | .returned => false
  | _ => true

/-- The write guard of `state`. -/
def OwnerPhase.writes : OwnerPhase → Bool
  | .working => true
  | _ => false

/-- The guard of `projection_worker`. -/
def StarterPhase.holdsSlot : StarterPhase → Bool
  | .entered | .returned => false
  | _ => true

def ShutdownPhase.holdsGate : ShutdownPhase → Bool
  | .barrier | .leaving => true
  | _ => false

def ShutdownPhase.writes : ShutdownPhase → Bool
  | .leaving => true
  | _ => false

namespace RuntimeSystem

variable (s : RuntimeSystem)

def gateFree : Bool :=
  s.owners.all (fun call => !call.phase.holdsGate) && s.shutdowns.all fun phase => !phase.holdsGate

def slotFree : Bool := s.starters.all fun phase => !phase.holdsSlot

def notWritten : Bool :=
  s.owners.all (fun call => !call.phase.writes) && s.shutdowns.all fun phase => !phase.writes

def stateFree : Bool := s.notWritten && !(s.worker.any WorkerPhase.reads)

/-! ## The worker -/

def setWorker (phase : WorkerPhase) (s : RuntimeSystem) : RuntimeSystem := { s with worker := some phase }

def commit (c : ManifestCommit) (s : RuntimeSystem) : RuntimeSystem := { s with commits := s.commits ++ [c] }

def publishWorkerFault (epoch controller : Nat) (s : RuntimeSystem) : RuntimeSystem :=
  if s.stateEpoch = epoch ∧ s.state = .ready controller then { s with state := .faulted controller } else s

/-- One step of the job of an attempt, and what the attempt does when the job is finished. -/
def build (completed epoch controller job : Nat) (phase : JobPhase) (answer : Answer) (s : RuntimeSystem) :
    RuntimeSystem :=
  match phase with
  | .finished none => s.setWorker (.faulting epoch controller)
  | .finished (some outcome) =>
    let identity := if outcome = .failed .providerIdentityChanged then false else s.identity
    { s with identity }.setWorker (.attemptStop (completed + 1))
  | phase =>
    let effect := phase.step job s.stop answer
    { s with
      worker := some (.building completed epoch controller job effect.phase)
      commits := s.commits ++ effect.commit.toList
      observed := if effect.observed then s.observed ++ [job] else s.observed }

def workerStep (answer : Answer) (s : RuntimeSystem) : RuntimeSystem :=
  match s.worker with
  | none | some .ended => s
  | some .loopTop => if s.stop then { s with worker := some .ended, workerStarted := false } else s.setWorker .receiving
  | some .receiving => s.setWorker .received
  | some .received =>
    if s.stop then { s with worker := some .ended, workerStarted := false } else s.setWorker .turnStop
  | some .turnStop => s.setWorker (if s.stop then .loopTop else .turnStopping)
  | some .turnStopping => s.setWorker (if s.stopping then .loopTop else .attemptStop 0)
  | some (.attemptStop completed) =>
    s.setWorker (if completed = maxJobsPerTurn ∨ s.stop then .loopTop else .attemptStopping completed)
  | some (.attemptStopping completed) => s.setWorker (if s.stopping then .loopTop else .attemptOwner completed)
  | some (.attemptOwner completed) => s.setWorker (if s.ownerPending then .loopTop else .attemptEpoch completed)
  | some (.attemptEpoch completed) => s.setWorker (.attemptRead completed s.stateEpoch)
  | some (.attemptRead completed epoch) =>
    if s.notWritten then
      match s.state with
      | .ready controller => s.setWorker (.attemptIdentity completed epoch controller)
      | _ => s.setWorker .loopTop
    else s
  | some (.attemptIdentity completed epoch controller) =>
    s.setWorker (if s.identity then .reconciling completed epoch controller else .loopTop)
  | some (.reconciling completed epoch controller) =>
    match answer with
    | .yes => (s.commit .reconcile).setWorker (.claiming completed epoch controller)
    | .no => s.setWorker (.claiming completed epoch controller)
    | .late => (s.commit .reconcile).setWorker (.faulting epoch controller)
    | _ => s.setWorker (.faulting epoch controller)
  | some (.claiming completed epoch controller) =>
    match answer with
    | .yes =>
      { s.commit (.claim s.nextJob) with
        nextJob := s.nextJob + 1
        worker := some (.building completed epoch controller s.nextJob .validateClaim) }
    | .no => s.setWorker .loopTop
    | .late =>
      { s.commit (.claim s.nextJob) with nextJob := s.nextJob + 1, worker := some (.faulting epoch controller) }
    | _ => s.setWorker (.faulting epoch controller)
  | some (.building completed epoch controller job phase) => s.build completed epoch controller job phase answer
  | some (.faulting epoch controller) =>
    if s.stateFree then (s.publishWorkerFault epoch controller).setWorker .loopTop else s

/-! ## owner_rebuild -/

variable (call : Nat)

def setOwner (o : OwnerCall) (phase : OwnerPhase) (s : RuntimeSystem) : RuntimeSystem :=
  { s with owners := s.owners.set call { o with phase } }

/-- What the owner's call does with the state it has locked: work under the guard, go on without it, or leave. -/
def ownerOnState (o : OwnerCall) (first : Bool) : RuntimeState → OwnerPhase
  | .ready _ => .working
  | .faulted _ => .leaving
  | _ => if first then (if o.allEligible then .snapshot else .leaving) else .working

def ownerStep (answer : Bool) (s : RuntimeSystem) : RuntimeSystem :=
  match s.owners[call]? with
  | none => s
  | some o =>
    match o.phase with
    | .entered => s.setOwner call o (if s.stopping ∨ !o.owner then .returned else .gate)
    | .gate => if s.gateFree then s.setOwner call o .gated else s
    | .gated => s.setOwner call o (if s.stopping then .opening else .announcing)
    | .announcing => { s with ownerPending := true }.setOwner call o .firstWrite
    | .firstWrite => if s.stateFree then s.setOwner call o (ownerOnState o true s.state) else s
    | .snapshot =>
      { s with identity := answer && s.identity }.setOwner call o (if answer then .secondWrite else .leaving)
    | .secondWrite => if s.stateFree then s.setOwner call o (ownerOnState o false s.state) else s
    | .working => s
    | .leaving => { s with ownerPending := false }.setOwner call o .opening
    | .opening => s.setOwner call o .returned
    | .returned => s

/-- A commit of the controller on behalf of the owner, under the write guard. -/
def ownerCommit (s : RuntimeSystem) : RuntimeSystem :=
  match s.owners[call]? with
  | some ⟨_, _, .working⟩ => s.commit (.owner call)
  | _ => s

def ownerInstalls (outcome : OwnerOutcome) (s : RuntimeSystem) : RuntimeSystem :=
  match outcome, s.state with
  | .rebuilt, .ready _ => { s with stateEpoch := s.stateEpoch + 1 }
  | .installed, .recoveredGenesis | .installed, .unavailable =>
    { s with state := .ready s.nextController, nextController := s.nextController + 1, stateEpoch := s.stateEpoch + 1 }
  | .recovered, .recoveredGenesis | .recovered, .unavailable => { s with state := .recoveredGenesis }
  | _, _ => s

def ownerFinish (outcome : OwnerOutcome) (identity : Option Bool) (s : RuntimeSystem) : RuntimeSystem :=
  match s.owners[call]? with
  | some ⟨owner, allEligible, .working⟩ =>
    { s.ownerInstalls outcome with identity := identity.getD s.identity }.setOwner call ⟨owner, allEligible, .working⟩
      .leaving
  | _ => s

/-! ## start_workers and shutdown_projection_worker -/

def setStarter (phase : StarterPhase) (s : RuntimeSystem) : RuntimeSystem :=
  { s with starters := s.starters.set call phase }

/-- `start_workers` up to the handle; `spawned` says whether the thread could be made. -/
def starterStep (spawned : Bool) (s : RuntimeSystem) : RuntimeSystem :=
  match s.starters[call]? with
  | none | some .returned => s
  | some .entered => if s.slotFree then s.setStarter call .locked else s
  | some .locked => s.setStarter call (if s.handle then .returned else .mayStart)
  | some .mayStart => s.setStarter call (if s.stopping then .returned else .mark)
  | some .mark =>
    { s with workerStarted := true }.setStarter call (if s.workerStarted then .returned else .takeReceiver)
  | some .takeReceiver =>
    if s.wakeReceiver then { s with wakeReceiver := false }.setStarter call .spawn
    else { s with workerStarted := false }.setStarter call .returned
  | some .spawn =>
    if spawned then { s with stop := false, worker := some .loopTop }.setStarter call .install
    else { s with workerStarted := false }.setStarter call .returned
  | some .install => { s with handle := true }.setStarter call .returned

def setShutdown (phase : ShutdownPhase) (s : RuntimeSystem) : RuntimeSystem :=
  { s with shutdowns := s.shutdowns.set call phase }

def shutdownStep (s : RuntimeSystem) : RuntimeSystem :=
  match s.shutdowns[call]? with
  | none | some .returned => s
  | some .entered => { s with stopping := true }.setShutdown call .taking
  | some .taking =>
    if s.slotFree then { s with handle := false }.setShutdown call (if s.handle then .stopWorker else .gate) else s
  | some .stopWorker => { s with stop := true }.setShutdown call .joining
  | some .joining => if s.worker = some .ended then s.setShutdown call .gate else s
  | some .gate => if s.gateFree then s.setShutdown call .barrier else s
  | some .barrier => if s.stateFree then s.setShutdown call .leaving else s
  | some .leaving => s.setShutdown call .returned

def step : RuntimeAction → RuntimeSystem
  | .worker answer => s.workerStep answer
  | .callOwner owner allEligible => { s with owners := s.owners ++ [⟨owner, allEligible, .entered⟩] }
  | .owner call answer => s.ownerStep call answer
  | .ownerCommit call => s.ownerCommit call
  | .ownerFinish call outcome identity => s.ownerFinish call outcome identity
  | .callStart => { s with starters := s.starters ++ [.entered] }
  | .starter call spawned => s.starterStep call spawned
  | .callShutdown => { s with shutdowns := s.shutdowns ++ [.entered] }
  | .shutdown call => s.shutdownStep call

def run (actions : List RuntimeAction) : RuntimeSystem := actions.foldl step s

end RuntimeSystem

end Plico.Kernel
