import Plico.Framework.Run
import Plico.Model.Ledger.Json
import Plico.Proof.Projection.Snapshots
import Plico.Proof.Projection.Steps

/-!
# Fencing of builds

Any number of workers claim, build and complete while the owner changes builders, reconciliation expires
leases and the ledger moves on. `Fencing` is what every step of the machine keeps: the view is the replay
of the log, every attempt id in the log belongs to one claim, and every guard has its `Building`
transition in the log. From it, `run_fencing`: a completion commits only over the transition its claim made
and only for a live head.
-/

namespace Plico.Projection

open Option Candidate Machine List Plico.Ledger

variable {P : ProjectionPlatform}

/-- `record` is the transition with which a claim started the attempt. -/
structure StartedBy (records : List ManifestRecord) (attemptId id : Uuid) (attempt : Nat) (record : ManifestRecord)
    (event : ProjectionTransition) : Prop where
  mem : record ∈ records
  recorded : record.event = .projectionTransition event
  projection : event.projectionId = id
  building : ∃ lease, event.state = .building attempt attemptId lease

variable {records : List ManifestRecord} {attempt : Nat} {record : ManifestRecord} {event : ProjectionTransition}
  {records' : List ManifestRecord} {id : Uuid} {enc : EncodedCommit}

theorem StartedBy.ofPrefix {attemptId : Uuid}
    (h : StartedBy records attemptId id attempt record event) (hp : records <+: records') :
    StartedBy records' attemptId id attempt record event :=
  { h with mem := hp.subset h.mem }

/-- Where attempt ids are distinct, an attempt is started by one record. -/
theorem record_unique (hn : (startedAttempts records).Nodup) {attemptId : Uuid} {r q : ManifestRecord}
    {t u : ProjectionTransition} (hr : r ∈ records) (hq : q ∈ records) (ht : r.event = .projectionTransition t)
    (hu : q.event = .projectionTransition u) (hts : t.state.startedAttempt = some attemptId)
    (hus : u.state.startedAttempt = some attemptId) : r = q := by
  refine eq_of_nodup_filterMap hn hr hq (k := attemptId) ?_ ?_
  · rw [ht]
    exact hts
  · rw [hu]
    exact hus

/-! ## The state of the store -/

/-- The view is the replay of the log, and its ready entries are bound to the active builder. -/
def Coherent (P : ProjectionPlatform) (s : ProjectionStoreState) : Prop :=
  ∃ scan, Rebuilt P s.root.generation s.genesisSource s.records scan s.view ∧ ReadyBound scan

theorem startedAttempts_append {l l' : List ManifestRecord} :
    startedAttempts (l ++ l') = startedAttempts l ++ startedAttempts l' :=
  filterMap_append

section

variable {s : ProjectionStoreState} {root : String} {actor : ProjectionCommitActor} {events : List ManifestEvent}
  {c : Candidate} {started : List Uuid}

section

variable (h : Prepared P s events c)
include h

theorem Prepared.startedAttempts_eq (hevents : OperationEvents events started) :
    startedAttempts c.records = started := by
  rw [← hevents.started_eq, ← h.events_eq, filterMap_map]
  rfl

/-- The replay of a candidate goes on from the replay of the log. -/
theorem Prepared.rebuilt (hevents : OperationEvents events started) (hs : Coherent P s) :
    ∃ scan, Rebuilt P c.generation s.genesisSource c.candidateRecords scan c.view ∧ ReadyBound scan := by
  obtain ⟨scan, hscan, hbound⟩ := hs
  obtain ⟨scan', hscan'⟩ := rebuildCurrentView_eq_ok h.view
  refine ⟨scan', hscan', ?_⟩
  have hreplay := hscan'.replayed
  rw [h.candidate, replay_append] at hreplay
  obtain ⟨middle, hmiddle, hfold⟩ := hreplay
  cases hscan.replayed.symm.trans hmiddle
  have hmap := h.events_eq
  cases hrecords : c.records with
  | nil =>
    rw [hrecords] at hmap
    exact absurd hmap.symm h.nonempty
  | cons first rest =>
    rw [hrecords] at hmap hfold
    obtain ⟨next, hnext, hfold⟩ := of_seq (foldlM_cons.symm.trans hfold)
    -- only the first record can be an activation, and every entry wants the builder it replaces
    refine ReadyBound.fold (hbound.applied (applied_of_ok hnext) fun _ => hscan.uses) ?_ hfold
    intro record hr event hevent
    have htail : record.event ∈ events.tail := by
      rw [← hmap]
      exact mem_map_of_mem hr
    have hnot := hevents.activation _ htail
    rw [hevent] at hnot
    cases hnot

end

theorem apply_generation (henc : encodeCommit P s c = .ok enc) : (c.apply enc s).root.generation = c.generation := by
  obtain ⟨_, _, h⟩ := encodeCommit_eq_ok henc
  rw [apply, h]
  rfl

end

/-- What every step of the store keeps, and how the log grows. -/
structure StoreGrowth (P : ProjectionPlatform) (s s' : ProjectionStoreState) (started : List Uuid) : Prop where
  coherent : Coherent P s'
  records : s.records <+: s'.records
  started : startedAttempts s'.records = startedAttempts s.records ++ started

variable {inputs : ManifestInputs} {s : ProjectionStoreState}

theorem Prepared.growth {events : List ManifestEvent} {c : Candidate} {started : List Uuid}
    (h : Prepared P s events c) (hevents : OperationEvents events started) (henc : encodeCommit P s c = .ok enc)
    (hs : Coherent P s) : StoreGrowth P s (c.apply enc s) started := by
  refine ⟨?_, ⟨c.records, h.candidate.symm⟩, ?_⟩
  · rw [Coherent, apply_generation henc]
    exact h.rebuilt hevents hs
  · simp only [apply]
    rw [h.candidate, startedAttempts_append, h.startedAttempts_eq hevents]

theorem StoreStep.growth {s' : ProjectionStoreState} {started : List Uuid} (hs : Coherent P s)
    (h : StoreStep P inputs s started s') : StoreGrowth P s s' started := by
  cases h with
  | unchanged | poisoned => exact ⟨hs, prefix_refl _, by simp⟩
  | committed hevents hprep henc => exact hprep.growth hevents henc hs
  | repaired hevents hprep henc =>
    obtain ⟨hcoherent, hrecords, hstarted⟩ := hprep.growth hevents henc hs
    exact ⟨hcoherent, hrecords, hstarted⟩

/-! ## The invariant of the machine -/

/-- The id that a call draws, if it is a claim. -/
def Call.attemptId : Call → Option Uuid
  | .claimNext attemptId => some attemptId
  | _ => none

/-- The attempt was started by a record of the log. -/
def HasStart (records : List ManifestRecord) (attemptId id : Uuid) (attempt : Nat) : Prop :=
  ∃ record event, StartedBy records attemptId id attempt record event

theorem HasStart.ofPrefix {attemptId : Uuid} (h : HasStart records attemptId id attempt) (hp : records <+: records') :
    HasStart records' attemptId id attempt := by
  obtain ⟨record, event, h⟩ := h
  exact ⟨record, event, h.ofPrefix hp⟩

structure Fencing (P : ProjectionPlatform) (m : Machine) : Prop where
  ledger : Sound P.toLedgerPlatform m.ledger.state
  coherent : Coherent P m.store.state
  distinct : (startedAttempts m.store.state.records).Nodup
  /-- An attempt in the log belongs to a claim that has committed. -/
  owned : ∀ attemptId ∈ startedAttempts m.store.state.records, ∃ (i : Nat) (t : Thread), m.threads[i]? = some t ∧
    t.call = .claimNext attemptId ∧ t.phase.isPast = true
  claims : ∀ t ∈ m.threads, ∀ attemptId id attempt, t.call = .claimNext attemptId → t.phase = .claimed id attempt →
    HasStart m.store.state.records attemptId id attempt
  guards : ∀ g ∈ m.guards, HasStart m.store.state.records g.attemptId g.entry.projectionId g.attempt

variable {m : Machine} {store : ProjectionManifestStore} {t : Thread} {i : Nat}

/-- A step of the store that starts no attempt. -/
theorem Fencing.withStore (h : Fencing P m) (hstep : StoreStep P inputs m.store.state [] store.state) :
    Fencing P { m with store } := by
  have hgrowth := hstep.growth h.coherent
  have hstarted := hgrowth.started
  rw [append_nil] at hstarted
  refine ⟨h.ledger, hgrowth.coherent, ?_, ?_, fun t ht attemptId id attempt hcall hphase => ?_, fun g hg => ?_⟩
  · rw [hstarted]
    exact h.distinct
  · rw [hstarted]
    exact h.owned
  · exact (h.claims t ht attemptId id attempt hcall hphase).ofPrefix hgrowth.records
  · exact (h.guards g hg).ofPrefix hgrowth.records

theorem Fencing.withDamage (h : Fencing P m) {storage : ProjectionStorage} :
    Fencing P { m with store := ⟨storage, m.store.state⟩ } :=
  { h with }

/-- A call reaches its next phase. -/
theorem Fencing.withPhase (h : Fencing P m) (ht : m.threads[i]? = some t) {p : Phase}
    (hpast : t.phase.isPast = true → p.isPast = true)
    (hclaimed : ∀ attemptId id attempt, t.call = .claimNext attemptId → p = .claimed id attempt →
      HasStart m.store.state.records attemptId id attempt) :
    Fencing P { m with threads := m.threads.set i { t with phase := p } } := by
  have hi : i < m.threads.length := (List.getElem?_eq_some_iff.mp ht).1
  refine { h with owned := fun attemptId hmem => ?_, claims := forall_mem_set h.claims hclaimed }
  obtain ⟨j, u, hj, hcall, hphase⟩ := h.owned attemptId hmem
  by_cases hij : i = j
  · subst hij
    cases ht.symm.trans hj
    exact ⟨i, { t with phase := p }, by simp [hi], hcall, hpast hphase⟩
  · exact ⟨j, u, by rw [getElem?_set_ne hij]; exact hj, hcall, hphase⟩

/-- The id of a claim that has not committed is not in the log. -/
theorem Fencing.fresh (h : Fencing P m) (hids : (m.threads.filterMap fun t => t.call.attemptId).Nodup)
    (ht : m.threads[i]? = some t) {attemptId : Uuid} (hcall : t.call = .claimNext attemptId)
    (hphase : t.phase.isPast = false) : attemptId ∉ startedAttempts m.store.state.records := by
  intro hmem
  obtain ⟨j, u, hj, hcall', hpast⟩ := h.owned attemptId hmem
  obtain rfl : i = j := index_eq_of_nodup_filterMap hids ht hj (by rw [hcall]; rfl)
    (by rw [hcall']; rfl)
  cases ht.symm.trans hj
  rw [hphase] at hpast
  cases hpast

variable {canonical : CanonicalProjectionSnapshot}

/-- A claim commits its `Building` transition. -/
theorem Fencing.claim (h : Fencing P m) (hids : (m.threads.filterMap fun t => t.call.attemptId).Nodup)
    (ht : m.threads[i]? = some t) {attemptId : Uuid} (hcall : t.call = .claimNext attemptId)
    (hphase : t.phase.isPast = false) {entry : ProjectionEntry} {lease : Nat} {c : Candidate}
    (hprep : Prepared P m.store.state [.projectionTransition
      (entry.next entry.desiredBuilderSpecHash (.building attempt attemptId lease))] c)
    (henc : encodeCommit P m.store.state c = .ok enc) (hstore : store.state = c.apply enc m.store.state) :
    Fencing P { m with
      store
      threads := m.threads.set i { t with phase := .claimed entry.projectionId attempt } } := by
  have hfresh := h.fresh hids ht hcall hphase
  have hi : i < m.threads.length := (List.getElem?_eq_some_iff.mp ht).1
  have hgrowth := hprep.growth operationEvents_claim henc h.coherent
  rw [← hstore] at hgrowth
  have hstart : HasStart store.state.records attemptId entry.projectionId attempt := by
    have hevent : ManifestEvent.projectionTransition
        (entry.next entry.desiredBuilderSpecHash (.building attempt attemptId lease)) ∈ c.records.map (·.event) := by
      rw [hprep.events_eq]
      exact mem_cons_self
    obtain ⟨record, hr, he⟩ := mem_map.mp hevent
    refine ⟨record, _, ?_, he, rfl, lease, rfl⟩
    rw [hstore, apply, hprep.candidate]
    exact mem_append_right _ hr
  refine ⟨h.ledger, hgrowth.coherent, ?_, fun a hmem => ?_, fun u hu a id n hcalls hclaimed => ?_, fun g hg => ?_⟩
  · rw [hgrowth.started, nodup_append]
    refine ⟨h.distinct, by simp, fun a ha b hb => ?_⟩
    cases mem_singleton.mp hb
    rintro rfl
    exact hfresh ha
  · rw [hgrowth.started, mem_append, mem_singleton] at hmem
    rcases hmem with hmem | rfl
    · obtain ⟨j, u, hj, hcalls, hpast⟩ := h.owned a hmem
      have hij : i ≠ j := by
        rintro rfl
        cases ht.symm.trans hj
        rw [hphase] at hpast
        cases hpast
      exact ⟨j, u, by rw [getElem?_set_ne hij]; exact hj, hcalls, hpast⟩
    · exact ⟨i, { t with phase := .claimed entry.projectionId attempt }, by simp [hi], hcall, rfl⟩
  · rcases mem_or_eq_of_mem_set hu with hu | rfl
    · exact (h.claims u hu a id n hcalls hclaimed).ofPrefix hgrowth.records
    · cases hcall.symm.trans hcalls
      cases hclaimed
      exact hstart
  · exact (h.guards g hg).ofPrefix hgrowth.records

/-! ## Steps of the machine -/

variable {g : ProjectionBuildGuard}

theorem claimedGuard_eq_ok {attemptId : Uuid} (h : claimedGuard s canonical id attempt attemptId = .ok g) :
    g.entry.projectionId = id ∧ g.attempt = attempt ∧ g.attemptId = attemptId := by
  obtain ⟨view, -, h⟩ := of_seq h
  obtain ⟨entry, hentry, h⟩ := of_seq h
  cases h
  rw [required_eq_ok] at hentry
  exact ⟨by simpa using find?_some hentry, rfl, rfl⟩

theorem Fencing.advance (h : Fencing P m) (hids : (m.threads.filterMap fun t => t.call.attemptId).Nodup) (i : Nat)
    (inputs : SectionInputs) : Fencing P (m.advance P i inputs) := by
  unfold Machine.advance
  cases ht : m.threads[i]? with
  | none => exact h
  | some t =>
    have hstep := threadStep (P := P) t m.store inputs
    simp only
    generalize t.step P m.store inputs = out at hstep
    obtain ⟨store, phase, guard⟩ := out
    generalize hs : store.state = s' at hstep
    cases hstep with
    | other hstore hpast hclaimed =>
      rw [← hs] at hstore
      simpa using (h.withStore hstore).withPhase ht hpast
        fun _ id attempt _ he => absurd he (hclaimed id attempt)
    | claimed hcall hphase hprep henc =>
      simpa using h.claim hids ht hcall hphase hprep henc hs
    | @granted attemptId id attempt g hcall hphase hguard =>
      obtain ⟨hid, hattempt, hattemptId⟩ := claimedGuard_eq_ok hguard
      have hunchanged : StoreStep P inputs.manifest m.store.state [] store.state := by
        rw [hs]
        exact .unchanged
      have hstart := h.claims t (mem_of_getElem? ht) attemptId id attempt hcall hphase
      have hnext := (h.withStore hunchanged).withPhase (p := .finished) ht (fun _ => rfl)
        (by simp)
      refine { hnext with guards := fun g' hg => ?_ }
      rcases mem_append.mp hg with hg | hg
      · exact hnext.guards g' hg
      · obtain rfl : g = g' := by simpa [eq_comm] using hg
        rw [hid, hattempt, hattemptId]
        exact hstart.ofPrefix (hunchanged.growth h.coherent).records

/-- The id that an action draws, if it starts a claim. -/
def Action.attemptId : Action → Option Uuid
  | .start call => call.attemptId
  | _ => none

/-- The process goes on. -/
def Action.isReopen : Action → Bool
  | .reopen => true
  | _ => false

variable {action : Action} {actions : List Action}

theorem Fencing.step (h : Fencing P m) (hids : (m.threads.filterMap fun t => t.call.attemptId).Nodup)
    (haction : action.isReopen = false) : Fencing P (m.step P action) := by
  cases action with
  | ledger call inputs =>
    exact { h with ledger := h.ledger.step call inputs }
  | start call =>
    simp only [Machine.step, Machine.start]
    split
    · rename_i canonical _
      refine { h with owned := fun attemptId hmem => ?_, claims := fun t ht => ?_ }
      · obtain ⟨i, t, hi, hcall, hphase⟩ := h.owned attemptId hmem
        exact ⟨i, t, by rw [List.getElem?_append_left (List.getElem?_eq_some_iff.mp hi).1]; exact hi, hcall, hphase⟩
      · rcases mem_concat.mp ht with ht | rfl
        · exact h.claims t ht
        · intro _ _ _ _ hphase
          cases hphase
    · exact h
  | advance i inputs => exact h.advance hids i inputs
  | completeReady i vector inputs =>
    simp only [Machine.step]
    split
    · exact h
    · exact h.withStore (storeStep_storeAfter fun out hout => (finishReady_eq_some hout).2)
  | completeFailed i category inputs =>
    simp only [Machine.step]
    split
    · exact h
    · exact h.withStore (storeStep_storeAfter fun out hout => (finishFailed_eq_some hout).2)
  | damage hash file => exact h.withDamage
  | reopen => cases haction

/-- Calls keep their ids, and an action adds at most the one it draws. -/
theorem step_attemptIds (haction : action.isReopen = false) :
    ((m.step P action).threads.filterMap fun t => t.call.attemptId).Sublist
      ((m.threads.filterMap fun t => t.call.attemptId) ++ action.attemptId.toList) := by
  cases action with
  | ledger | damage => simp [step]
  | start call =>
    simp only [step, start, Action.attemptId]
    split
    · cases h : call.attemptId <;> simp [h]
    · exact sublist_append_left _ _
  | advance i inputs =>
    simp only [step, advance, Action.attemptId, toList_none, append_nil]
    cases ht : m.threads[i]? with
    | none => exact List.Sublist.refl _
    | some t =>
      have hcalls : (m.threads.set i { t with phase := (t.step P m.store inputs).2.1 }).map Thread.call = _ :=
        map_set_of_eq ht rfl
      have hids := congrArg (filterMap Call.attemptId) hcalls
      rw [filterMap_map, filterMap_map] at hids
      exact hids ▸ List.Sublist.refl _
  | completeReady | completeFailed =>
    simp only [step]
    split <;> simp
  | reopen => cases haction

theorem run_concat : m.run P (actions ++ [action]) = (m.run P actions).step P action := by
  simp [run]

theorem Fencing.run (h : Fencing P m) (hthreads : m.threads = [])
    (hreopen : ∀ action ∈ actions, action.isReopen = false) (hfresh : (actions.filterMap Action.attemptId).Nodup) :
    Fencing P (m.run P actions) := by
  suffices hrun : Fencing P (m.run P actions) ∧ ((m.run P actions).threads.filterMap fun t => t.call.attemptId).Sublist
      (actions.filterMap Action.attemptId) from hrun.1
  induction actions using List.reverseRecOn with
  | nil => exact ⟨h, by simp [Machine.run, hthreads]⟩
  | append_singleton actions action ih =>
    rw [filterMap_append] at hfresh ⊢
    have hnodup := (nodup_append.mp hfresh).1
    have haction := hreopen action (by simp)
    obtain ⟨hfencing, hsub⟩ := ih (fun a ha => hreopen a (by simp [ha])) hnodup
    rw [run_concat]
    refine ⟨hfencing.step (hnodup.sublist hsub) haction, (step_attemptIds haction).trans (hsub.append ?_)⟩
    cases ha : action.attemptId <;> simp [ha]

/-! ## The new store -/

theorem rebuild_of_loadState {st : ProjectionStorage} (h : loadState P st canonical = .ok s) :
    rebuildCurrentView P s.root.generation s.genesisSource s.records = .ok s.view ∧ s.poisoned = false := by
  obtain ⟨active, -, pointerBytes, -, pointer, -, h⟩ := of_seq₃ h
  obtain ⟨root, -, roots, -, genesis, -, h⟩ := of_seq₃ h
  obtain ⟨genesisView, -, _, -, records, -, h⟩ := of_seq₃ h
  obtain ⟨rebuilt, hrebuilt, stored, -, _, hsame, h⟩ := of_seq₃ h
  obtain ⟨_, -, h⟩ := of_seq h
  obtain ⟨issues, -, h⟩ := of_seq h
  cases h
  rw [refuse_eq_ok, not_or, not_not] at hsame
  rw [hsame.1]
  exact ⟨hrebuilt, rfl⟩

/-- A new store has an empty log. -/
theorem bootstrapNew_eq_ok (h : bootstrapNew P canonical = .ok store) :
    rebuildCurrentView P store.state.root.generation store.state.genesisSource [] = .ok store.state.view ∧
      store.state.records = [] ∧ store.state.poisoned = false := by
  obtain ⟨manifest, -, state, hload, _, hgenesis, h⟩ := of_seq₃ h
  obtain rfl := pure_ok_inj.mp h
  obtain ⟨s, hstate, _, -, _, -, hload⟩ := of_seq₃ hload
  obtain rfl := pure_ok_inj.mp hload
  have hempty : s.records = [] := by
    rw [refuse_eq_ok, Bool.not_eq_false] at hgenesis
    simp only [projectionStateIsGenesisOnly, Bool.and_eq_true, List.isEmpty_iff] at hgenesis
    exact hgenesis.1.1.1.1.1
  obtain ⟨hrebuild, hpoison⟩ := rebuild_of_loadState hstate
  rw [hempty] at hrebuild
  exact ⟨hrebuild, hempty, hpoison⟩

theorem fencing_boot {l : CASCanonicalLedger} (hl : Sound P.toLedgerPlatform l.state) (h : boot P l = some m) :
    Fencing P m ∧ m.threads = [] ∧ m.store.state.poisoned = false := by
  simp only [boot, bind_eq_bind, bind_eq_some_iff] at h
  obtain ⟨canonical, -, store, hstore, h⟩ := h
  cases h
  have hok : bootstrapNew P canonical = .ok store := by
    cases hb : bootstrapNew P canonical with
    | error e => simp [hb, Except.toOption] at hstore
    | ok s => simpa [hb, Except.toOption] using hstore
  obtain ⟨hrebuild, hempty, hpoison⟩ := bootstrapNew_eq_ok hok
  obtain ⟨scan, hscan⟩ := rebuildCurrentView_eq_ok hrebuild
  have hnone : startedAttempts store.state.records = [] := by rw [hempty]; rfl
  refine ⟨⟨hl, ⟨scan, by rw [hempty]; exact hscan, ?_⟩, by rw [hnone]; simp, by rw [hnone]; simp, by simp, by simp⟩,
    rfl, hpoison⟩
  intro id e attempt attemptId artifact builder he
  obtain ⟨record, event, hlast, -⟩ := lastTransition_of_replay hscan.replayed he
  exact absurd hlast.mem (by simp)

/-! ## Completions -/

/-- The entry of a projection is exactly what `record` left: its version, sequence, source, builder and state
are those of the transition. -/
def StillAt (s : ProjectionStoreState) (record : ManifestRecord) (event : ProjectionTransition) : Prop :=
  ∃ e, s.view.entry event.projectionId = some e ∧ LastTransition s.records e record event

/-- A guard that matches is still at the transition that its claim made. -/
theorem stillAt_of_matches (hs : Coherent P s) (hn : (startedAttempts s.records).Nodup)
    (hstart : StartedBy s.records g.attemptId g.entry.projectionId g.attempt record event) (hmatch : g.Matches s) :
    StillAt s record event := by
  obtain ⟨scan, hscan, -⟩ := hs
  obtain ⟨e, he, hm⟩ := hmatch
  have hbuilding : e.state.startedAttempt = some g.attemptId := by
    simp only [ProjectionBuildGuard.matchesEntry] at hm
    cases hstate : e.state <;>
      simp_all [ProjectionState.isBuildingOf, ProjectionState.startedAttempt]
  have hlookup := he
  rw [hscan.entry_eq_lookup] at hlookup
  obtain ⟨r, t, hlast, hid⟩ := lastTransition_of_replay hscan.replayed hlookup
  have hstarted : t.state.startedAttempt = some g.attemptId := by
    rw [← hbuilding, ← hlast.left]
    rfl
  obtain ⟨lease, hlease⟩ := hstart.building
  obtain rfl : r = record := record_unique hn hlast.mem hstart.mem hlast.recorded hstart.recorded hstarted
    (by rw [hlease]; rfl)
  cases hlast.recorded.symm.trans hstart.recorded
  exact ⟨e, by rw [hid]; exact he, hlast⟩

/-- The outcome of a completion: it commits only where the claim's transition is the last one and its source
is a live head. Otherwise nothing changes, and the canonical guard is not granted or the completion is in
conflict (or the store was poisoned before). -/
structure CompletionOutcome (m : Machine) (g : ProjectionBuildGuard) (record : ManifestRecord)
    (event : ProjectionTransition)
    (outcome : Except LedgerError (Option (ProjectionManifestStore × Except ProjectionError String))) : Prop where
  commits : ∀ store hash, outcome = .ok (some (store, .ok hash)) →
    StillAt m.store.state record event ∧ ∃ revision, LiveHead m.ledger.state.revisions g.entry.source revision
  otherwise : ¬ (StillAt m.store.state record event ∧
      ∃ revision, LiveHead m.ledger.state.revisions g.entry.source revision) →
    storeAfter m.store outcome = m.store ∧
      ∀ out, outcome = .ok (some out) → out.2 = .error .headConflict ∨ m.store.state.poisoned = true

theorem outcome_of_completion (h : Fencing P m)
    (hstart : StartedBy m.store.state.records g.attemptId g.entry.projectionId g.attempt record event)
    {outcome : Except LedgerError (Option (ProjectionManifestStore × Except ProjectionError String))}
    (houtcome : ∀ out, outcome = .ok (some out) →
      (currentProjectionRevision m.ledger.state g.entry.source).isSome = true ∧ Completion P inputs m.store g out) :
    CompletionOutcome m g record event outcome := by
  have hholds : ∀ out, outcome = .ok (some out) → g.Matches m.store.state →
      StillAt m.store.state record event ∧
        ∃ revision, LiveHead m.ledger.state.revisions g.entry.source revision := fun out hout hmatch =>
    ⟨stillAt_of_matches h.coherent h.distinct hstart hmatch, liveHead_of_current h.ledger (houtcome out hout).1⟩
  constructor
  · intro store hash hout
    obtain ⟨-, hcompletion⟩ := houtcome _ hout
    generalize hx : (store, Except.ok hash) = x at hcompletion
    cases hcompletion with
    | refused => cases hx
    | attempted hmatch => exact hholds _ hout hmatch
  · intro hnot
    have hcases : ∀ out, outcome = .ok (some out) → out.1 = m.store ∧
        (out.2 = .error .headConflict ∨ m.store.state.poisoned = true) := by
      intro out hout
      have hmatch : ¬ g.Matches m.store.state := fun hmatch => hnot (hholds out hout hmatch)
      obtain ⟨-, hcompletion⟩ := houtcome out hout
      cases hcompletion with
      | refused herror =>
        refine ⟨rfl, ?_⟩
        cases hpoison : m.store.state.poisoned with
        | false => exact .inl (by rw [herror hpoison hmatch])
        | true => exact .inr rfl
      | attempted hm => exact absurd hm hmatch
    refine ⟨?_, fun out hout => (hcases out hout).2⟩
    unfold storeAfter
    split
    · exact (hcases _ rfl).1
    · rfl

/-! ## Runs -/

/-- Every publication of the action reached the disk. -/
def Action.isSynced : Action → Bool
  | .advance _ inputs | .completeReady _ _ inputs | .completeFailed _ _ inputs =>
    inputs.manifest.publishFault != .unsynced
  | _ => true

theorem step_poisoned (hreopen : action.isReopen = false)
    (hsynced : action.isSynced = true) : (m.step P action).store.state.poisoned = m.store.state.poisoned := by
  cases action with
  | ledger | damage => rfl
  | start call =>
    simp only [step, start]
    split <;> rfl
  | advance i inputs =>
    simp only [step, advance]
    split
    · rfl
    · exact (threadStep _ m.store inputs).poisoned_eq (by simpa [Action.isSynced] using hsynced)
  | completeReady i vector inputs =>
    simp only [step]
    split
    · rfl
    · exact (storeStep_storeAfter fun out hout => (finishReady_eq_some hout).2).poisoned_eq
        (by simpa [Action.isSynced] using hsynced)
  | completeFailed i category inputs =>
    simp only [step]
    split
    · rfl
    · exact (storeStep_storeAfter fun out hout => (finishFailed_eq_some hout).2).poisoned_eq
        (by simpa [Action.isSynced] using hsynced)
  | reopen => cases hreopen

theorem run_poisoned (hreopen : ∀ action ∈ actions, action.isReopen = false)
    (hsynced : ∀ action ∈ actions, action.isSynced = true) :
    (m.run P actions).store.state.poisoned = m.store.state.poisoned := by
  induction actions using List.reverseRecOn with
  | nil => rfl
  | append_singleton actions action ih =>
    rw [run_concat, step_poisoned (hreopen action (by simp)) (hsynced action (by simp))]
    exact ih (fun a ha => hreopen a (by simp [ha])) (fun a ha => hsynced a (by simp [ha]))

/-- How builds are fenced in a state of the machine. -/
structure FencedMachine (P : ProjectionPlatform) (m : Machine) : Prop where
  /-- Each guard has one transition that started its attempt, and its completions are fenced by it. -/
  completions : ∀ g ∈ m.guards, ∃ record event,
    StartedBy m.store.state.records g.attemptId g.entry.projectionId g.attempt record event ∧
    (∀ other ∈ m.store.state.records, ∀ t, other.event = .projectionTransition t →
      t.state.startedAttempt = some g.attemptId → other = record) ∧
    (∀ vector inputs, CompletionOutcome m g record event (finishReady P m.ledger m.store g vector inputs)) ∧
    ∀ category inputs, CompletionOutcome m g record event (finishFailed P m.ledger m.store g category inputs)
  /-- No attempt is completed twice. -/
  once : (endedAttempts m.store.state.records).Nodup
  numbered : ∀ id, ∃ n, attemptNumbers m.store.state.records id = List.range' 1 n
  bound : ∀ e ∈ m.store.state.view.entries, ∀ attempt attemptId artifact, e.state = .ready attempt attemptId artifact →
    ∃ builder, m.store.state.view.activeBuilder = some builder ∧ BoundTo e artifact builder

theorem Fencing.fencedMachine (h : Fencing P m) : FencedMachine P m := by
  obtain ⟨scan, hscan, hbound⟩ := h.coherent
  constructor
  · intro g hg
    obtain ⟨record, event, hstart⟩ := h.guards g hg
    obtain ⟨lease, hlease⟩ := hstart.building
    refine ⟨record, event, hstart, fun other ho t ht hs => ?_, fun vector inputs => ?_, fun category inputs => ?_⟩
    · exact record_unique h.distinct ho hstart.mem ht hstart.recorded hs (by rw [hlease]; rfl)
    · exact outcome_of_completion h hstart fun _ => finishReady_eq_some
    · exact outcome_of_completion h hstart fun _ => finishFailed_eq_some
  · exact (fenced_of_replay hscan.replayed h.distinct).once
  · exact fun id => ⟨_, attemptNumbers_eq hscan.replayed⟩
  · intro e he attempt attemptId artifact hstate
    have hlookup := hscan.mem_entries.mp he
    have huses := hscan.uses _ e hlookup (by rw [hstate]; rfl)
    obtain ⟨builder, hbuilder, hhash⟩ := map_eq_some_iff.mp huses
    exact ⟨builder, hscan.activeBuilder_eq.trans hbuilder,
      hbound _ e attempt attemptId artifact builder hlookup hstate hbuilder hhash⟩

/-- Builds are fenced in every state that one process reaches from a new store, whatever the workers, the owner
and the ledger do and in whatever order, as long as no two claims draw the same id. The store is poisoned
only if a publication did not reach the disk. -/
theorem run_fencing (P : ProjectionPlatform) (st : LedgerStorage) (rootHash viewHash : String)
    (calls : List (CommitCall × CommitInputs)) {m : Machine}
    (hboot : boot P (runCommits P.toLedgerPlatform ⟨st, .genesis rootHash viewHash⟩ calls) = some m)
    {actions : List Action} (hreopen : ∀ action ∈ actions, action.isReopen = false)
    (hfresh : (actions.filterMap Action.attemptId).Nodup) :
    FencedMachine P (m.run P actions) ∧
      ((∀ action ∈ actions, action.isSynced = true) → (m.run P actions).store.state.poisoned = false) := by
  have hledger := Sound.run (l := ⟨st, .genesis rootHash viewHash⟩)
    (sound_genesis (P := P.toLedgerPlatform) rootHash viewHash) calls
  obtain ⟨hfencing, hthreads, hpoison⟩ := fencing_boot hledger hboot
  refine ⟨(hfencing.run hthreads hreopen hfresh).fencedMachine, fun hsynced => ?_⟩
  rw [run_poisoned hreopen hsynced, hpoison]

/-- A codec of one text, which stands for `a`. -/
def oneText {α : Type} (a : α) : Serde α :=
  ⟨fun _ => some [0x30], fun bytes => if bytes = [] then none else some a, rfl⟩

/-- A digest of 64 digits. -/
def sumDigest (bytes : Bytes) : String :=
  let sum := bytes.foldl (fun sum b => sum + b.toNat) 0
  String.ofList ((List.range 64).map fun i => Nat.digitChar (sum / 16 ^ i % 16))

def oneHash : String := sumDigest (utf8 Ledger.rootDomain ++ [0x30])

def oneView : ProjectionCurrentView := ⟨currentViewSchema, 0, 0, ⟨oneHash, 0, 0, 0, 0⟩, [], []⟩

/-- A value is stored as its schema. -/
def onePlatform : ProjectionPlatform where
  sha256 := sumDigest
  parseUuid := parseUuidText
  hyphenated := uuidText
  newV5 _ _ := 9
  value :=
    { toVec := fun value => some (utf8 (((value.get "schema").bind Value.asStr).getD "-"))
      fromSlice := fun bytes => if bytes = [] then none else
        ([manifestRootSchema, currentViewSchema, rootPointerSchema].find? (utf8 · = bytes)).map fun schema =>
          .object [("schema", .string schema)]
      fromSlice_nil := rfl }
  content := oneText (.text "")
  revisionSegment := oneText ⟨"", 0, 0, none, []⟩
  policySegment := oneText ⟨"", 0, 0, none, []⟩
  relationSegment := emptySerde _
  root := oneText (Ledger.genesisRoot oneHash)
  view := oneText Ledger.genesisView
  pointer := oneText (Ledger.activePointer oneHash)
  sourceManifest := emptySerde _
  migrationManifest := emptySerde _
  decodeRoot _ := some (genesisRoot oneView.reconciledSource (sumDigest (utf8 viewDomain ++ utf8 currentViewSchema)))
  decodeSegment _ := none
  decodeView _ := some oneView
  decodePointer _ := some (rootPointer (sumDigest (utf8 rootDomain ++ utf8 manifestRootSchema)))
  decodeArtifact _ := none
  f32Number _ := .posInt 1
  unitNorm _ := true

def sampleBuilder : BuilderSpec :=
  ⟨builderSpecSchema, .memoryEmbedding, "builder", "1", "local", "v1", "model", 2, 2, .memoryTextUtf8V1, .documentV1,
    .providerNative, "provider-native-document-v1", embeddingArtifactSchema⟩

def noteId : MemoryId := "00000000-0000-4000-8000-000000000001"

def noteRevision : CanonicalRevision :=
  ⟨revisionSchema, 1, noteId, noteId, none, .text "note",
    sumDigest (utf8 "plico.memory.content.v1\x00" ++ hashComponent "text" (utf8 "note")), [], .untyped, .working, none,
    1, personalOwnerRoleId⟩

def advance (thread now : Nat) : Action :=
  .advance thread ⟨now, now, fun _ => .none, false, fun _ => .none, false, .none⟩

def claimActions : List Action :=
  .start (.activateBuilder sampleBuilder) :: List.replicate 3 (advance 0 1) ++
    [.ledger (.roots personalOwnerRoleId .working [noteRevision]) ⟨2, fun _ => noteId, fun _ => .none, .none⟩,
      .start .reconcile] ++ List.replicate 3 (advance 1 3) ++ .start (.claimNext 7) :: List.replicate 5 (advance 2 4)

/-- A builder is activated, a memory is created, reconciled and claimed: the guard of the claim is fenced. -/
theorem run_fencing_claimed :
    ∃ m, boot onePlatform (runCommits onePlatform.toLedgerPlatform ⟨.empty, .genesis oneHash oneHash⟩ []) = some m ∧
      (m.run onePlatform claimActions).guards.length = 1 ∧ FencedMachine onePlatform
      (m.run onePlatform claimActions) := by
  have hclaimed : (boot onePlatform (runCommits onePlatform.toLedgerPlatform
      ⟨.empty, .genesis oneHash oneHash⟩ [])).map (fun m => (m.run onePlatform claimActions).guards.length) =
        some 1 := by
    decide +kernel
  obtain ⟨m, hboot, hguards⟩ := map_eq_some_iff.mp hclaimed
  exact ⟨m, hboot, hguards, (run_fencing onePlatform .empty oneHash oneHash [] hboot (by decide) (by decide)).1⟩

end Plico.Projection
