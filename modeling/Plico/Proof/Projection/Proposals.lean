import Plico.Model.Projection.Machine
import Plico.Proof.Projection.Attempts

/-!
# What the operations propose

Each operation computes its events from a view. `OperationEvents` is what all operations have in common: at most the
first event is an activation, and only a claim starts an attempt. `GuardHolds` is what a completion finds before it
commits.
-/

namespace Plico.Projection

open ProjectionCurrentView ProjectionEntry ManifestEvent List Plico.Ledger

variable {P : ProjectionPlatform}

/-- The transition that continues an entry. -/
def ProjectionEntry.next (entry : ProjectionEntry) (desiredBuilderSpecHash : String) (state : ProjectionState) :
    ProjectionTransition :=
  { projectionId := entry.projectionId
    projectionKind := entry.projectionKind
    projectionVersion := entry.projectionVersion + 1
    previousSequence := some entry.lastTransitionSequence
    source := entry.source
    desiredBuilderSpecHash, state }

variable {entry : ProjectionEntry} {hash : String} {state : ProjectionState} {event : ManifestEvent}

theorem transitionEvent_eq_ok (h : transitionEvent entry hash state = .ok event) :
    event = .projectionTransition (entry.next hash state) := by
  obtain ⟨version, hversion, h⟩ := of_seq h
  obtain ⟨-, rfl⟩ := checkedAdd_eq_some.mp (required_eq_ok.mp hversion)
  exact (pure_ok_inj.mp h).symm

/-! ## What all operations have in common -/

def ManifestEvent.isActivation : ManifestEvent → Bool
  | .builderActivated _ => true
  | _ => false

def ManifestEvent.startedAttempt (event : ManifestEvent) : Option Uuid :=
  event.transition.bind fun t => t.state.startedAttempt

/-- The events of one operation, which starts the attempts `started`. -/
structure OperationEvents (events : List ManifestEvent) (started : List Uuid) : Prop where
  activation : ∀ event ∈ events.tail, event.isActivation = false
  started_eq : events.filterMap startedAttempt = started

/-- States that operations other than a claim move projections to. -/
def ProjectionState.isOperationState : ProjectionState → Bool
  | .building .. => false
  | _ => true

variable {events : List ManifestEvent}

/-- What an operation may add after its first event: no activation and no attempt. -/
def ManifestEvent.isStep : ManifestEvent → Bool
  | .builderActivated _ => false
  | .projectionTransition t => t.state.isOperationState
  | .reconciliationAdvanced _ => true

theorem isActivation_of_isStep (h : event.isStep = true) : event.isActivation = false := by
  cases event with
  | builderActivated => cases h
  | projectionTransition | reconciliationAdvanced => rfl

theorem operationEvents_of_isStep (h : ∀ event ∈ events, event.isStep = true) : OperationEvents events [] := by
  refine ⟨fun event he => isActivation_of_isStep (h event (mem_of_mem_tail he)),
    filterMap_eq_nil_iff.mpr fun event he => ?_⟩
  have hstep := h event he
  cases event with
  | projectionTransition t =>
    cases hstate : t.state <;> simp_all [startedAttempt, transition,
      ProjectionState.startedAttempt, isStep, ProjectionState.isOperationState]
  | builderActivated | reconciliationAdvanced => rfl

theorem isStep_of_transitionEvent (h : transitionEvent entry hash state = .ok event)
    (hs : state.isOperationState = true) : event.isStep = true := by
  rw [transitionEvent_eq_ok h]
  exact hs

/-! ## Activation -/

theorem isStep_of_builderChangedEvent (h : builderChangedEvent hash entry = .ok (some event)) :
    event.isStep = true := by
  unfold builderChangedEvent at h
  split at h
  · cases h
  · rename_i state hstate
    obtain ⟨event', he, h⟩ := of_seq h
    cases pure_ok_inj.mp h
    refine isStep_of_transitionEvent he ?_
    cases hs : entry.state <;> simp only [hs, builderChangedState, Option.some.injEq, reduceCtorEq] at hstate <;>
      (subst hstate; rfl)

variable {view : ProjectionCurrentView} {revision : CanonicalRevision} {builderSpec : BuilderSpec}

theorem operationEvents_activation (h : activationEvents view builderSpec hash = .ok events) :
    OperationEvents events [] := by
  obtain ⟨transitions, ht, h⟩ := of_seq h
  cases h
  have hsteps : ∀ event ∈ transitions.filterMap id, event.isStep = true := by
    intro event he
    obtain ⟨_, ho, rfl⟩ := mem_filterMap.mp he
    obtain ⟨entry, -, hentry⟩ := (mem_of_mapM ht).mp ho
    exact isStep_of_builderChangedEvent hentry
  exact ⟨fun event he => isActivation_of_isStep (hsteps event he), (operationEvents_of_isStep hsteps).started_eq⟩

/-! ## Reconciliation -/

variable {canonical : CanonicalProjectionSnapshot} {now : Nat} {events' : List ManifestEvent} {attemptId : Uuid}
  {attempt : Nat}

/-- Reconciliation does not claim. -/
theorem isOperationState_of_reconciled {existing : Option ProjectionState} {absent : Option AbsentReason}
    (h : reconciledState existing absent now = some state) : state.isOperationState = true := by
  unfold reconciledState at h
  split at h
  case h_1 =>
    split at h
    · cases h
    · cases h
      rfl
  case h_5 | h_6 =>
    split at h
    · cases h
      rfl
    · cases h
  case h_8 => cases h
  all_goals
    cases h
    rfl

theorem isStep_of_reconcileRevision
    (h : reconcileRevision P view hash canonical now revision = .ok (some event)) : event.isStep = true := by
  obtain ⟨id, -, h⟩ := of_seq h
  dsimp only at h
  split at h
  · cases pure_ok_inj.mp h
  · rename_i state hstate
    have hs := isOperationState_of_reconciled hstate
    obtain ⟨event', he, h⟩ := of_seq h
    cases pure_ok_inj.mp h
    unfold reconcileTransition at he
    split at he
    · exact isStep_of_transitionEvent he hs
    · cases he
      exact hs

theorem operationEvents_reconcile (h : reconcileEvents P view canonical now = .ok events) :
    OperationEvents events [] := by
  obtain ⟨active, -, h⟩ := of_seq h
  obtain ⟨transitions, ht, h⟩ := of_seq h
  cases pure_ok_inj.mp h
  refine operationEvents_of_isStep fun event he => ?_
  rcases mem_append.mp he with he | he
  · obtain ⟨_, ho, rfl⟩ := mem_filterMap.mp he
    obtain ⟨revision, -, hr⟩ := (mem_of_mapM ht).mp ho
    exact isStep_of_reconcileRevision hr
  · unfold advanceEvents at he
    split at he
    · cases he
    · obtain rfl := mem_singleton.mp he
      rfl

/-! ## Rebuilds for the owner -/

/-- A target adds transitions to the events so far. -/
theorem rebuildEntry_append (h : rebuildEntry view events entry = .ok events') :
    ∃ added, events' = events ++ added ∧ ∀ event ∈ added, event.isStep = true := by
  unfold rebuildEntry at h
  split at h
  · obtain ⟨last, -, staleSequence, -, stale, hstale, h⟩ := of_seq₃ h
    obtain ⟨version, -, h⟩ := of_seq h
    obtain rfl := transitionEvent_eq_ok hstale
    exact ⟨_, (pure_ok_inj.mp h).symm, forall_mem_cons.mpr ⟨rfl, forall_mem_singleton.mpr rfl⟩⟩
  · obtain ⟨queued, hqueued, h⟩ := of_seq h
    obtain rfl := transitionEvent_eq_ok hqueued
    exact ⟨_, (pure_ok_inj.mp h).symm, forall_mem_singleton.mpr rfl⟩

theorem rebuildEntries_steps {entries : List ProjectionEntry}
    (h : entries.foldlM (rebuildEntry view) events = .ok events') (hevents : ∀ event ∈ events, event.isStep = true) :
    ∀ event ∈ events', event.isStep = true := by
  induction entries generalizing events with
  | nil =>
    obtain rfl : events = events' := by simpa using h
    exact hevents
  | cons entry entries ih =>
    obtain ⟨next, hnext, h⟩ := of_seq (foldlM_cons.symm.trans h)
    obtain ⟨added, rfl, hadded⟩ := rebuildEntry_append hnext
    exact ih h (forall_mem_append.mpr ⟨hevents, hadded⟩)

theorem operationEvents_ownerRebuild {selected : List MemoryRevisionId}
    (h : ownerRebuildEvents view selected = .ok events) : OperationEvents events [] := by
  obtain ⟨_, -, h⟩ := of_seq h
  obtain ⟨entries, -, h⟩ := of_seq h
  exact operationEvents_of_isStep (rebuildEntries_steps h (by simp))

/-! ## Calls -/

/-- What a call other than a claim proposes. -/
theorem operationEvents_propose {call : Call} {actor : ProjectionCommitActor}
    (h : call.propose P canonical view now = .ok (some (actor, events))) : OperationEvents events [] := by
  cases call with
  | activateBuilder builderSpec =>
    obtain ⟨hash, -, h⟩ := of_seq h
    split at h
    · cases pure_ok_inj.mp h
    · obtain ⟨events', he, h⟩ := of_seq h
      cases pure_ok_inj.mp h
      exact operationEvents_activation he
  | reconcile =>
    obtain ⟨events', he, h⟩ := of_seq h
    split at h
    · cases pure_ok_inj.mp h
    · obtain ⟨receipt, -, h⟩ := of_seq h
      cases pure_ok_inj.mp h
      exact operationEvents_reconcile he
  | ownerRebuild selected =>
    obtain ⟨_, -, events', he, receipt, -, h⟩ := of_seq₃ h
    cases pure_ok_inj.mp h
    exact operationEvents_ownerRebuild he
  | claimNext | repairInvalidArtifacts => cases h

/-- A claim starts the attempt it was given, on an entry of the view it read. -/
theorem proposeClaim_eq_some {floor : Nat} {id : Uuid}
    (h : proposeClaim view attemptId now floor = .ok (some (id, attempt, event))) :
    ∃ entry ∈ view.entries, entry.projectionId = id ∧ ∃ lease, event = .projectionTransition
      (entry.next entry.desiredBuilderSpecHash (.building attempt attemptId lease)) := by
  unfold proposeClaim at h
  split at h
  · cases h
  · rename_i entry hfirst
    obtain ⟨attempt', hattempt, h⟩ := of_seq h
    obtain ⟨event', he, h⟩ := of_seq h
    cases pure_ok_inj.mp h
    obtain ⟨lease, -, he⟩ := of_seq he
    exact ⟨entry, mem_of_find?_eq_some hfirst, rfl, lease, transitionEvent_eq_ok he⟩

theorem operationEvents_claim {lease : Nat} :
    OperationEvents [.projectionTransition (entry.next hash (.building attempt attemptId lease))] [attemptId] :=
  ⟨by simp, rfl⟩

/-! ## Completions -/

/-- What a completion finds before it commits. -/
structure GuardHolds (s : ProjectionStoreState) (g : ProjectionBuildGuard) (root : String) : Prop where
  matching : ∃ entry, s.view.entry g.entry.projectionId = some entry ∧ g.matchesEntry entry = true
  root_eq : root = s.rootHash

section

variable {s : ProjectionStoreState} {g : ProjectionBuildGuard} {canonical : CanonicalProjectionGuard} {root : String}
  {event : ManifestEvent}

theorem guardHolds_of_ok {active : ActiveBuilderSpec} (h : currentGuardedBuilder s g = .ok (root, active)) :
    GuardHolds s g root := by
  obtain ⟨_, -, entry, hentry, _, hmatch, h⟩ := of_seq₃ h
  obtain ⟨_, -, h⟩ := of_seq h
  cases pure_ok_inj.mp h
  rw [required_eq_ok] at hentry
  rw [refuse_eq_ok, Bool.not_eq_false] at hmatch
  exact ⟨⟨entry, hentry, hmatch⟩, rfl⟩

theorem prepareReady_eq_ok {vector : List (BitVec 32)} {artifact : EmbeddingArtifact}
    (h : prepareReady P s g vector canonical = .ok (root, event, artifact)) :
    ∃ descriptor, GuardHolds s g root ∧ event = .projectionTransition (g.entry.next g.entry.desiredBuilderSpecHash
        (.ready g.attempt g.attemptId descriptor)) := by
  obtain ⟨_, -, h⟩ := of_seq h
  obtain ⟨⟨root', active⟩, hguard, h⟩ := of_seq h
  obtain ⟨⟨artifact', descriptor⟩, -, h⟩ := of_seq h
  obtain ⟨event', hevent, h⟩ := of_seq h
  cases pure_ok_inj.mp h
  exact ⟨descriptor, guardHolds_of_ok hguard, transitionEvent_eq_ok hevent⟩

theorem prepareFailed_eq_ok {category : FailureCategory}
    (h : prepareFailed s g category canonical now = .ok (root, event)) :
    ∃ retryAt, GuardHolds s g root ∧ event = .projectionTransition (g.entry.next g.entry.desiredBuilderSpecHash
        (.failed g.attempt g.attemptId category category.retryable retryAt)) := by
  obtain ⟨_, -, h⟩ := of_seq h
  obtain ⟨⟨root', active⟩, hguard, h⟩ := of_seq h
  obtain ⟨retryAt, -, h⟩ := of_seq h
  obtain ⟨event', hevent, h⟩ := of_seq h
  cases pure_ok_inj.mp h
  exact ⟨retryAt, guardHolds_of_ok hguard, transitionEvent_eq_ok hevent⟩

end

/-! ## Repairs -/

theorem operationEvents_repair {s : ProjectionStoreState} (h : prepareRepair s = .ok events) :
    OperationEvents events [] := by
  obtain ⟨_, -, h⟩ := of_seq h
  refine operationEvents_of_isStep fun event he => ?_
  obtain ⟨issue, -, hissue⟩ := (mem_of_mapM h).mp he
  obtain ⟨entry, -, hissue⟩ := of_seq hissue
  split at hissue
  · exact isStep_of_transitionEvent hissue rfl
  · cases hissue

end Plico.Projection
