import Plico.Proof.Projection.Commit
import Plico.Proof.Projection.Proposals

/-!
# What one step of the machine does

`StoreStep` is what a critical section can do to the state behind the store's lock: nothing, poison it, or
commit the events of one operation. `ThreadStep` splits the sections of a call by what they mean for an
attempt: only the commit of a claim starts one, and only the section after it grants a guard.
`Completion` does so for completions.
-/

namespace Plico.Projection

open Plico.Ledger

variable {P : ProjectionPlatform}

/-- What a critical section does to the state of the store, starting the attempts `started`. -/
inductive StoreStep (P : ProjectionPlatform) (inputs : ManifestInputs) (s : ProjectionStoreState) :
    List Uuid → ProjectionStoreState → Prop where
  | unchanged : StoreStep P inputs s [] s
  | poisoned : inputs.publishFault = .unsynced → StoreStep P inputs s [] { s with poisoned := true }
  | committed {started : List Uuid} {events : List ManifestEvent} {c : Candidate} {enc : EncodedCommit} :
      OperationEvents events started → Prepared P s events c →
      encodeCommit P s c = .ok enc → StoreStep P inputs s started (c.apply enc s)
  | repaired {events : List ManifestEvent} {c : Candidate} {enc : EncodedCommit} :
      OperationEvents events [] → Prepared P s events c →
      encodeCommit P s c = .ok enc → StoreStep P inputs s [] { c.apply enc s with artifactIssues := [] }

variable {inputs : ManifestInputs} {s s' : ProjectionStoreState} {store : ProjectionManifestStore}
  {canonical : CanonicalProjectionSnapshot} {root : String} {view : ProjectionCurrentView} {t : Thread} {α : Type}

/-- Only a publication of unknown fate poisons the store. -/
theorem StoreStep.poisoned_eq {started : List Uuid} (h : StoreStep P inputs s started s')
    (hsynced : inputs.publishFault ≠ .unsynced) : s'.poisoned = s.poisoned := by
  cases h with
  | unchanged | committed | repaired => rfl
  | poisoned hfault => exact absurd hfault hsynced

/-- A commit of an operation that starts no attempt. -/
theorem storeStep_commit {actor : ProjectionCommitActor}
    {events : List ManifestEvent} (hevents : OperationEvents events []) {artifacts : List EmbeddingArtifact} :
    StoreStep P inputs store.state [] (commit P store root actor events artifacts canonical false inputs).1.state := by
  have hchange := commit_stateChange P events inputs store root actor artifacts canonical false
  generalize (commit P store root actor events artifacts canonical false inputs).1.state = s',
    (commit P store root actor events artifacts canonical false inputs).2 = result at hchange ⊢
  cases hchange with
  | unchanged => exact .unchanged
  | poisoned hfault => exact .poisoned hfault
  | committed hprep henc => exact .committed hevents hprep henc

/-! ## Repairs -/

theorem finishRepair_state {published : Option String} : (finishRepair P store published).1.state = store.state := by
  unfold finishRepair cleanupInvalidStaleArtifacts
  cases currentView store.state <;> rfl

theorem storeStep_repair :
    StoreStep P inputs store.state [] (repairInvalidArtifacts P store canonical inputs).1.state := by
  unfold repairInvalidArtifacts
  split
  · exact .unchanged
  · rw [finishRepair_state]
    exact .unchanged
  · rename_i events _ hprepared
    have hchange := commit_stateChange P events inputs store store.state.rootHash .worker [] canonical true
    generalize commit P store store.state.rootHash .worker events [] canonical true inputs = out at hchange
    obtain ⟨store', result⟩ := out
    generalize hs' : store'.state = s' at hchange
    cases hchange with
    | unchanged =>
      simp only [hs']
      exact .unchanged
    | poisoned hfault =>
      simp only [hs']
      exact .poisoned hfault
    | committed hprep henc =>
      simp only [finishRepair_state, hs']
      exact .repaired (operationEvents_repair hprepared) hprep henc

/-! ## Calls -/

/-- The commit of a claim is behind. -/
def Phase.isPast : Phase → Bool
  | .claimed .. | .finished => true
  | _ => false

/-- One critical section of a call. -/
inductive ThreadStep (P : ProjectionPlatform) (inputs : ManifestInputs) (t : Thread) (s : ProjectionStoreState) :
    ProjectionStoreState → Phase → Option ProjectionBuildGuard → Prop where
  | other {s' : ProjectionStoreState} {phase : Phase} : StoreStep P inputs s [] s' →
      (t.phase.isPast = true → phase.isPast = true) → (∀ id attempt, phase ≠ .claimed id attempt) →
      ThreadStep P inputs t s s' phase none
  | claimed {attemptId : Uuid} {entry : ProjectionEntry} {attempt lease : Nat} {c : Candidate}
      {enc : EncodedCommit} :
      t.call = .claimNext attemptId → t.phase.isPast = false →
      Prepared P s [.projectionTransition
        (entry.next entry.desiredBuilderSpecHash (.building attempt attemptId lease))] c →
      encodeCommit P s c = .ok enc →
      ThreadStep P inputs t s (c.apply enc s) (.claimed entry.projectionId attempt) none
  | granted {attemptId id : Uuid} {attempt : Nat} {guard : ProjectionBuildGuard} :
      t.call = .claimNext attemptId → t.phase = .claimed id attempt →
      claimedGuard s t.canonical id attempt attemptId = .ok guard →
      ThreadStep P inputs t s s .finished (some guard)

theorem ThreadStep.finish (h : StoreStep P inputs s [] s') : ThreadStep P inputs t s s' .finished none :=
  .other h (fun _ => rfl) (by simp)

/-- A section that only reads. -/
theorem ThreadStep.read (value : Except ProjectionError α) (next : α → Phase)
    (hphase : t.phase.isPast = false) (hnext : ∀ a id attempt, next a ≠ .claimed id attempt) :
    ThreadStep P inputs t s s (afterRead value next) none := by
  cases value with
  | error e => exact .finish .unchanged
  | ok a => exact .other .unchanged (by simp [hphase]) (hnext a)

theorem threadStep_proposal {inputs : SectionInputs} :
    ThreadStep P inputs.manifest t store.state (t.commitProposal P store view root inputs).1.state
      (t.commitProposal P store view root inputs).2 none := by
  unfold Thread.commitProposal
  split
  · exact .finish .unchanged
  · exact .finish .unchanged
  · rename_i actor events hpropose
    exact .finish (storeStep_commit (operationEvents_propose hpropose))

theorem threadStep_claim {attemptId : Uuid} {floor : Nat} {inputs : SectionInputs}
    (hcall : t.call = .claimNext attemptId) (hphase : t.phase.isPast = false) :
    ThreadStep P inputs.manifest t store.state (t.commitClaim P store attemptId view root floor inputs).1.state
      (t.commitClaim P store attemptId view root floor inputs).2 none := by
  unfold Thread.commitClaim
  split
  · exact .finish .unchanged
  · exact .finish .unchanged
  · rename_i id attempt event hpropose
    obtain ⟨entry, -, rfl, lease, rfl⟩ := proposeClaim_eq_some hpropose
    unfold commitExpected
    have hchange := commit_stateChange P
      [.projectionTransition (entry.next entry.desiredBuilderSpecHash (.building attempt attemptId lease))]
      inputs.manifest store root .worker [] t.canonical false
    generalize commit P store root .worker [.projectionTransition
      (entry.next entry.desiredBuilderSpecHash (.building attempt attemptId lease))] [] t.canonical false
      inputs.manifest = out at hchange
    obtain ⟨store', result⟩ := out
    generalize hs' : store'.state = s' at hchange
    cases hchange with
    | unchanged =>
      simp only [hs']
      exact .finish .unchanged
    | poisoned hfault =>
      simp only [hs']
      exact .finish (.poisoned hfault)
    | committed hprep henc =>
      simp only [hs']
      exact .claimed hcall hphase hprep henc

theorem threadStep (t : Thread) (store : ProjectionManifestStore) (inputs : SectionInputs) :
    ThreadStep P inputs.manifest t store.state (t.step P store inputs).1.state (t.step P store inputs).2.1
      (t.step P store inputs).2.2 := by
  unfold Thread.step
  split
  · exact .finish storeStep_repair
  · next hphase _ => exact .read _ _ (by rw [hphase]; rfl) (by simp)
  · next hphase => exact .read _ _ (by rw [hphase]; rfl) (by simp)
  · next hphase _ => exact .read _ _ (by rw [hphase]; rfl) (by simp)
  · exact threadStep_proposal
  · next hphase hcall => exact threadStep_claim hcall (by rw [hphase]; rfl)
  · rename_i id attempt attemptId hphase hcall
    cases hguard : claimedGuard store.state t.canonical id attempt attemptId with
    | error e => exact .finish .unchanged
    | ok guard => exact .granted hcall hphase hguard
  · exact .finish .unchanged

theorem ThreadStep.poisoned_eq {phase : Phase} {guard : Option ProjectionBuildGuard}
    (h : ThreadStep P inputs t s s' phase guard) (hsynced : inputs.publishFault ≠ .unsynced) :
    s'.poisoned = s.poisoned := by
  cases h with
  | other hstep => exact hstep.poisoned_eq hsynced
  | claimed | granted => rfl

/-! ## Completions -/

/-- The entry of a guard is as its claim left it. -/
def ProjectionBuildGuard.Matches (g : ProjectionBuildGuard) (s : ProjectionStoreState) : Prop :=
  ∃ entry, s.view.entry g.entry.projectionId = some entry ∧ g.matchesEntry entry = true

/-- A completion under the canonical guard: it is refused before its commit, for a conflict if the entry has
moved, or it commits the end of the attempt. -/
inductive Completion (P : ProjectionPlatform) (inputs : ManifestInputs) (store : ProjectionManifestStore)
    (g : ProjectionBuildGuard) : ProjectionManifestStore × Except ProjectionError String → Prop where
  | refused {e : ProjectionError} : (store.state.poisoned = false → ¬ g.Matches store.state → e = .headConflict) →
      Completion P inputs store g (store, .error e)
  | attempted {state : ProjectionState} {artifacts : List EmbeddingArtifact}
      {canonical : CanonicalProjectionSnapshot} : g.Matches store.state → state.isOperationState = true →
      Completion P inputs store g (commit P store store.state.rootHash .worker
        [.projectionTransition (g.entry.next g.entry.desiredBuilderSpecHash state)] artifacts canonical false inputs)

variable {g : ProjectionBuildGuard} {category : FailureCategory} {vector : List (BitVec 32)}

/-- A completion for an entry that has moved is in conflict, whatever it would do next. -/
theorem guarded_conflict {canonical : CanonicalProjectionGuard}
    {next : String × ActiveBuilderSpec → Except ProjectionError α} (hpoison : s.poisoned = false)
    (hmatch : ¬ g.Matches s) :
    (do
      refuse (canonical.authorizes g.entry.source = false) .headConflict
      let found ← currentGuardedBuilder s g
      next found : Except ProjectionError α) = .error .headConflict := by
  have hconflict : currentGuardedBuilder s g = .error .headConflict := by
    unfold currentGuardedBuilder
    rw [refuse_neg (by simp [hpoison]), seq_ok]
    cases hentry : s.view.entry g.entry.projectionId with
    | none => rfl
    | some entry =>
      have hno : g.matchesEntry entry = false := by
        cases hm : g.matchesEntry entry with
        | false => rfl
        | true => exact absurd ⟨entry, hentry, hm⟩ hmatch
      rw [required_some, seq_ok, refuse_pos hno]
      rfl
  rw [hconflict]
  unfold refuse
  split <;> rfl

section

variable (store : ProjectionManifestStore) (g : ProjectionBuildGuard) (canonical : CanonicalProjectionGuard)

theorem completion_ready : Completion P inputs store g (completeReady P store g vector canonical inputs) := by
  unfold completeReady
  split
  · rename_i e herror
    exact .refused fun hpoison hmatch => Except.error.inj (herror.symm.trans (guarded_conflict hpoison hmatch))
  · rename_i root event artifact hprepared
    obtain ⟨descriptor, hguard, rfl⟩ := prepareReady_eq_ok hprepared
    rw [hguard.root_eq]
    exact .attempted hguard.matching rfl

theorem completion_failed {now : Nat} :
    Completion P inputs store g (completeFailed P store g category canonical now inputs) := by
  unfold completeFailed
  split
  · rename_i e herror
    exact .refused fun hpoison hmatch => Except.error.inj (herror.symm.trans (guarded_conflict hpoison hmatch))
  · rename_i root event hprepared
    obtain ⟨retryAt, hguard, rfl⟩ := prepareFailed_eq_ok hprepared
    rw [hguard.root_eq]
    exact .attempted hguard.matching rfl

end

variable {l : CASCanonicalLedger}

/-- The ledger grants the canonical guard only for a source that is current. -/
theorem withCurrentProjectionSource_eq_some {P : LedgerPlatform} {expected : CanonicalSourceIdentity}
    {complete : CanonicalProjectionGuard → α} {out : α}
    (h : withCurrentProjectionSource P l expected complete = .ok (some out)) :
    (currentProjectionRevision l.state expected).isSome = true ∧
      ∃ snapshot, out = complete ⟨expected, snapshot⟩ := by
  obtain ⟨_, -, h⟩ := of_seq h
  split at h
  · cases pure_ok_inj.mp h
  · rename_i hsome
    obtain ⟨snapshot, -, h⟩ := of_seq h
    cases pure_ok_inj.mp h
    exact ⟨by simpa [Option.isSome_iff_ne_none] using hsome, snapshot, rfl⟩

variable {store : ProjectionManifestStore} {out : ProjectionManifestStore × Except ProjectionError String}

/-- What a completion under the ledger's lock came to. -/
theorem finishReady_eq_some {inputs : SectionInputs} (h : finishReady P l store g vector inputs = .ok (some out)) :
    (currentProjectionRevision l.state g.entry.source).isSome = true ∧ Completion P inputs.manifest store g out := by
  obtain ⟨hcurrent, snapshot, rfl⟩ := withCurrentProjectionSource_eq_some h
  exact ⟨hcurrent, completion_ready store g _⟩

theorem finishFailed_eq_some {inputs : SectionInputs} (h : finishFailed P l store g category inputs = .ok (some out)) :
    (currentProjectionRevision l.state g.entry.source).isSome = true ∧ Completion P inputs.manifest store g out := by
  obtain ⟨hcurrent, snapshot, rfl⟩ := withCurrentProjectionSource_eq_some h
  exact ⟨hcurrent, completion_failed store g _⟩

theorem storeStep_completion (h : Completion P inputs store g out) : StoreStep P inputs store.state [] out.1.state := by
  cases h with
  | refused => exact .unchanged
  | attempted _ hstate =>
    refine storeStep_commit (operationEvents_of_isStep fun event he => ?_)
    obtain rfl := List.mem_singleton.mp he
    exact hstate

/-- A completion leaves the store as it was, or does one step with it. -/
theorem storeStep_storeAfter
    {outcome : Except LedgerError (Option (ProjectionManifestStore × Except ProjectionError String))}
    (h : ∀ out, outcome = .ok (some out) → Completion P inputs store g out) :
    StoreStep P inputs store.state [] (storeAfter store outcome).state := by
  unfold storeAfter
  split
  · exact storeStep_completion (h _ rfl)
  · exact .unchanged

end Plico.Projection
