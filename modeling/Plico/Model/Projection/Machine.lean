import Plico.Model.Projection.Operations

/-!
# Interleavings of workers, the owner and the ledger

The operations of `Operations.lean` do not run alone: the store's lock is released between reading the
view, reading the root and committing, and the ledger moves on meanwhile. A `Thread` is one call in
progress, and `Thread.step` is one critical section of it. A completion holds the ledger's lock and the
operation lock throughout, so it is a single step. `Machine.run` is any schedule of these steps together
with ledger commits, damage to artifact files and restarts of the process.
-/

namespace Plico.Projection

open Plico.Ledger

variable (P : ProjectionPlatform)

/-- The operations that commit in more than one critical section, and the repair. A claim carries the
random id it draws. -/
inductive Call where
  | activateBuilder (builderSpec : BuilderSpec)
  | reconcile
  | ownerRebuild (selected : List MemoryRevisionId)
  | claimNext (attemptId : Uuid)
  | repairInvalidArtifacts

/-- How far a call has come: before reading the view, the root, the commit floor of a claim, before the
commit of a claim and before reading the claimed entry. -/
inductive Phase where
  | begun
  | viewed (view : ProjectionCurrentView)
  | rooted (view : ProjectionCurrentView) (root : String)
  | floored (view : ProjectionCurrentView) (root : String) (floor : Nat)
  | claimed (id : Uuid) (attempt : Nat)
  | finished

structure Thread where
  call : Call
  canonical : CanonicalProjectionSnapshot
  phase : Phase

/-- What a critical section reads from outside: the clock of the operation and the inputs of its commit. -/
structure SectionInputs where
  now : Nat
  manifest : ManifestInputs

/-- What a call other than a claim commits, from the view it read; none when there is nothing to do. -/
def Call.propose (call : Call) (canonical : CanonicalProjectionSnapshot) (view : ProjectionCurrentView) (now : Nat) :
    Except ProjectionError (Option (ProjectionCommitActor × List ManifestEvent)) :=
  match call with
  | .activateBuilder builderSpec => do
    let builderSpecHash ← checkedBuilderHash P builderSpec
    if view.activeBuilder.any fun active => active.builderSpecHash == builderSpecHash then pure none
    else do
      let events ← activationEvents view builderSpec builderSpecHash
      pure (some (.personalOwner, events))
  | .reconcile => do
    let events ← reconcileEvents P view canonical now
    if events.isEmpty then pure none
    else do
      let _ ← receiptAfter view events.length canonical.watermark
      pure (some (.worker, events))
  | .ownerRebuild selected => do
    refuse selected.isEmpty (.invalid "projection_rebuild_requires_target")
    let events ← ownerRebuildEvents view selected
    let _ ← receiptAfter view events.length view.reconciledSource
    pure (some (.personalOwner, events))
  | .claimNext _ | .repairInvalidArtifacts => .ok none

/-- What a claim commits, from the view and the floor it read. -/
def proposeClaim (view : ProjectionCurrentView) (attemptId : Uuid) (now floor : Nat) :
    Except ProjectionError (Option (Uuid × Nat × ManifestEvent)) :=
  match firstQueued view with
  | none => .ok none
  | some entry => do
    let attempt ← claimAttempt entry
    let event ← claimEvent entry attempt attemptId now floor
    pure (some (entry.projectionId, attempt, event))

/-- Commit a claim; it goes on to read the claimed entry. -/
def Thread.commitClaim (t : Thread) (store : ProjectionManifestStore) (attemptId : Uuid)
    (view : ProjectionCurrentView) (root : String) (floor : Nat) (inputs : SectionInputs) :
    ProjectionManifestStore × Phase :=
  match proposeClaim view attemptId inputs.now floor with
  | .error _ | .ok none => (store, .finished)
  | .ok (some (id, attempt, event)) =>
    match commitExpected P store root .worker [event] [] t.canonical inputs.manifest with
    | (store, .ok _) => (store, .claimed id attempt)
    | (store, .error _) => (store, .finished)

/-- Commit what a call other than a claim proposes. -/
def Thread.commitProposal (t : Thread) (store : ProjectionManifestStore) (view : ProjectionCurrentView) (root : String)
    (inputs : SectionInputs) : ProjectionManifestStore × Phase :=
  match t.call.propose P t.canonical view inputs.now with
  | .error _ | .ok none => (store, .finished)
  | .ok (some (actor, events)) =>
    ((commitExpected P store root actor events [] t.canonical inputs.manifest).1, .finished)

/-- The phase after reading a value, or the end of the call when it cannot be read. -/
def afterRead {α : Type} (read : Except ProjectionError α) (next : α → Phase) : Phase :=
  match read with
  | .ok a => next a
  | .error _ => .finished

/-- One critical section of a call: the store, the phase after it, and the guard that a claim ends with. -/
def Thread.step (t : Thread) (store : ProjectionManifestStore) (inputs : SectionInputs) :
    ProjectionManifestStore × Phase × Option ProjectionBuildGuard :=
  match t.phase, t.call with
  | .begun, .repairInvalidArtifacts =>
    ((repairInvalidArtifacts P store t.canonical inputs.manifest).1, .finished, none)
  | .begun, _ => (store, afterRead (currentView store.state) .viewed, none)
  | .viewed view, _ => (store, afterRead (rootHash store.state) (.rooted view), none)
  | .rooted view root, .claimNext _ => (store, afterRead (committedFloor store.state) (.floored view root), none)
  | .rooted view root, _ =>
    let (store, phase) := t.commitProposal P store view root inputs
    (store, phase, none)
  | .floored view root floor, .claimNext attemptId =>
    let (store, phase) := t.commitClaim P store attemptId view root floor inputs
    (store, phase, none)
  | .claimed id attempt, .claimNext attemptId =>
    (store, .finished, (claimedGuard store.state t.canonical id attempt attemptId).toOption)
  | _, _ => (store, .finished, none)

/-! ## Completions -/

/-- A completion with a vector, under the ledger's lock. -/
def finishReady (l : CASCanonicalLedger) (store : ProjectionManifestStore) (g : ProjectionBuildGuard)
    (vector : List (BitVec 32)) (inputs : SectionInputs) :
    Except LedgerError (Option (ProjectionManifestStore × Except ProjectionError String)) :=
  withCurrentProjectionSource P.toLedgerPlatform l g.entry.source fun canonical =>
    completeReady P store g vector canonical inputs.manifest

/-- A completion with a failure, under the ledger's lock. -/
def finishFailed (l : CASCanonicalLedger) (store : ProjectionManifestStore) (g : ProjectionBuildGuard)
    (category : FailureCategory) (inputs : SectionInputs) :
    Except LedgerError (Option (ProjectionManifestStore × Except ProjectionError String)) :=
  withCurrentProjectionSource P.toLedgerPlatform l g.entry.source fun canonical =>
    completeFailed P store g category canonical inputs.now inputs.manifest

/-- The store that a completion leaves. -/
def storeAfter (store : ProjectionManifestStore)
    (outcome : Except LedgerError (Option (ProjectionManifestStore × Except ProjectionError String))) :
    ProjectionManifestStore :=
  match outcome with
  | .ok (some (store, _)) => store
  | _ => store

/-! ## Schedules -/

structure Machine where
  ledger : CASCanonicalLedger
  store : ProjectionManifestStore
  threads : List Thread
  guards : List ProjectionBuildGuard

inductive Action where
  /-- A request to the ledger. -/
  | ledger (call : CommitCall) (inputs : CommitInputs)
  /-- A caller takes a snapshot of the ledger and starts a call with it. -/
  | start (call : Call)
  /-- A call in progress runs its next critical section. -/
  | advance (thread : Nat) (inputs : SectionInputs)
  | completeReady (guard : Nat) (vector : List (BitVec 32)) (inputs : SectionInputs)
  | completeFailed (guard : Nat) (category : FailureCategory) (inputs : SectionInputs)
  /-- An artifact file is lost, or its bytes change. -/
  | damage (hash : String) (file : Option Bytes)
  /-- The process restarts: the store is opened again, and calls and guards are gone. -/
  | reopen

def damageArtifact (st : LedgerStorage) (hash : String) (file : Option Bytes) : LedgerStorage :=
  match file with
  | none => st.remove hash
  | some bytes =>
    if (st.lookup hash).isSome then { st with objects := st.objects.insert hash bytes } else st

def Machine.start (m : Machine) (call : Call) : Machine :=
  match projectionSnapshot P.toLedgerPlatform m.ledger with
  | .ok canonical => { m with threads := m.threads ++ [⟨call, canonical, .begun⟩] }
  | .error _ => m

def Machine.advance (m : Machine) (thread : Nat) (inputs : SectionInputs) : Machine :=
  match m.threads[thread]? with
  | none => m
  | some t =>
    let (store, phase, guard) := t.step P m.store inputs
    { m with
      store
      threads := m.threads.set thread { t with phase }
      guards := m.guards ++ guard.toList }

/-- Open the store of the machine again; a store that cannot be opened stays as it is on disk. -/
def Machine.reopen (m : Machine) : Machine :=
  match projectionSnapshot P.toLedgerPlatform m.ledger with
  | .error _ => m
  | .ok canonical =>
    match openExistingUnrepaired P m.store.storage canonical with
    | .ok store => { m with store, threads := [], guards := [] }
    | .error _ => m

def Machine.step (m : Machine) : Action → Machine
  | .ledger call inputs => { m with ledger := (call.run P.toLedgerPlatform m.ledger inputs).1 }
  | .start call => m.start P call
  | .advance thread inputs => m.advance P thread inputs
  | .completeReady guard vector inputs =>
    match m.guards[guard]? with
    | none => m
    | some g => { m with store := storeAfter m.store (finishReady P m.ledger m.store g vector inputs) }
  | .completeFailed guard category inputs =>
    match m.guards[guard]? with
    | none => m
    | some g => { m with store := storeAfter m.store (finishFailed P m.ledger m.store g category inputs) }
  | .damage hash file =>
    { m with
      store := ⟨⟨m.store.storage.manifest, damageArtifact m.store.storage.artifacts hash file⟩, m.store.state⟩ }
  | .reopen => m.reopen P

def Machine.run (m : Machine) (actions : List Action) : Machine :=
  actions.foldl (Machine.step P) m

/-- The machine of a new projection store over a ledger. -/
def Machine.boot (l : CASCanonicalLedger) : Option Machine := do
  let canonical ← (projectionSnapshot P.toLedgerPlatform l).toOption
  let store ← (bootstrapNew P canonical).toOption
  pure ⟨l, store, [], []⟩

end Plico.Projection
