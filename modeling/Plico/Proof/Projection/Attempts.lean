import Plico.Proof.Projection.Replay

/-!
# Attempts and artifacts in an accepted log

Every `Building` transition starts an attempt, and `Ready` and `Failed` end one. The replay numbers the
attempts of each projection one by one (`attemptNumbers_eq`), and lets an attempt end only from the entry
that is still building it, so an attempt id that was started once is ended at most once
(`fenced_of_replay`). `ReadyBound` is what the replay checks of the artifact of a ready projection; it
outlives a change of the builder because no ready projection does.
-/

namespace Plico.Projection

open Option ManifestEvent ProjectionTransition ViewScan List ProjectionState Plico.Ledger

variable {P : ProjectionPlatform}

/-- The attempt a state starts. -/
def ProjectionState.startedAttempt : ProjectionState → Option Uuid
  | .building _ attemptId _ => some attemptId
  | _ => none

/-- The attempt a state ends. -/
def ProjectionState.endedAttempt : ProjectionState → Option Uuid
  | .ready _ attemptId _ => some attemptId
  | .failed _ attemptId _ _ _ => some attemptId
  | _ => none

/-- The number of the attempt a state starts. -/
def ProjectionState.startedNumber : ProjectionState → Option Nat
  | .building attempt _ _ => some attempt
  | _ => none

def ManifestEvent.transition : ManifestEvent → Option ProjectionTransition
  | .projectionTransition event => some event
  | _ => none

def startedAttempts (records : List ManifestRecord) : List Uuid :=
  records.filterMap fun record => record.event.transition.bind fun event => event.state.startedAttempt

def endedAttempts (records : List ManifestRecord) : List Uuid :=
  records.filterMap fun record => record.event.transition.bind fun event => event.state.endedAttempt

/-- The numbers of the attempts of one projection, in the order they were started. -/
def attemptNumbers (records : List ManifestRecord) (id : Uuid) : List Nat :=
  records.filterMap fun record => record.event.transition.bind fun event =>
    if event.projectionId = id then event.state.startedNumber else none

variable {attemptId : Uuid}

theorem startedAttempt_of_ended {state : ProjectionState}
    (h : state.endedAttempt = some attemptId) : state.startedAttempt = none := by
  cases state <;> simp_all [endedAttempt, startedAttempt]

section

variable {s s' : ViewScan} {record : ManifestRecord} {event : ProjectionTransition} {builder : ActiveBuilderSpec}
  {n : Nat}

theorem Admitted.allowed (h : Admitted P s record event builder n) :
    record.committedByRole = expectedActor event.state ∧
      transitionAllowed (s.stateOf event.projectionId) event.state = true ∧
      checkAttempt (s.stateOf event.projectionId) event.state = .ok () ∧
      checkRequeue (s.stateOf event.projectionId) event.state record.committedAt = .ok () := by
  obtain ⟨_, htable, h⟩ := of_seq h.actor
  obtain ⟨⟨⟩, hattempt, hrequeue⟩ := of_seq h
  simp only [refuse_eq_ok, not_or, not_not, Bool.not_eq_false] at htable
  exact ⟨htable.1, htable.2, hattempt, hrequeue⟩

/-- An attempt ends only where it is being built. -/
theorem Admitted.building_of_ended (h : Admitted P s record event builder n)
    (he : event.state.endedAttempt = some attemptId) :
    ∃ e, s.entries.lookup event.projectionId = some e ∧ e.state.startedAttempt = some attemptId := by
  obtain ⟨-, htable, hattempt, -⟩ := h.allowed
  unfold stateOf at htable hattempt
  have hbuilding : ∀ {previous : Option ProjectionState} {a : Nat}, (∃ p, previous = some p) →
      (∀ p, previous = some p → p.isBuildingOf a attemptId = true) →
      ∃ p, previous = some p ∧ p.startedAttempt = some attemptId := by
    rintro _ a ⟨p, rfl⟩ hp
    cases p <;> simp_all [isBuildingOf, startedAttempt]
  have hstate : ∃ p, (s.entries.lookup event.projectionId).map (·.state) = some p ∧
      p.startedAttempt = some attemptId := by
    revert htable hattempt
    cases hstate : event.state <;> simp only [hstate, endedAttempt, reduceCtorEq] at he
    all_goals
      cases he
      intro htable hattempt
      generalize (s.entries.lookup event.projectionId).map (·.state) = previous at htable hattempt
      cases previous with
      | none => simp [transitionAllowed] at htable
      | some p => exact hbuilding ⟨p, rfl⟩ (by simpa [checkAttempt] using hattempt)
  obtain ⟨p, hp, hstarted⟩ := hstate
  obtain ⟨e, hlookup, rfl⟩ := map_eq_some_iff.mp hp
  exact ⟨e, hlookup, hstarted⟩

end

/-! ## Numbers -/

variable {record : ManifestRecord}

theorem attemptNumbers_concat {l : List ManifestRecord} {id : Uuid} :
    attemptNumbers (l ++ [record]) id = attemptNumbers l id ++ attemptNumbers [record] id :=
  filterMap_append

/-- Only a `Building` state adds an attempt, and it is the next number. -/
theorem nextAttemptCount_cases {current n : Nat} {next : ProjectionState} (h : nextAttemptCount current next = .ok n) :
    (next.startedNumber = some (current + 1) ∧ n = current + 1) ∨ (next.startedNumber = none ∧ n = current) := by
  cases next with
  | building attempt attemptId lease =>
    obtain ⟨_, hadd, hn⟩ := of_seq h
    rw [refuse_eq_ok, not_not, checkedAdd_eq_some] at hadd
    cases hn
    exact .inl ⟨by rw [startedNumber, hadd.2], hadd.2.symm⟩
  | ready | failed =>
    obtain ⟨_, _, hn⟩ := of_seq h
    exact .inr ⟨rfl, (pure_ok_inj.mp hn).symm⟩
  | absentByPolicy | queued | stale => exact .inr ⟨rfl, (Except.ok.inj h).symm⟩

variable {l : List ManifestRecord} {s : ViewScan} {genesis : CanonicalWatermark} {s' : ViewScan}

/-- The attempts of a projection are numbered from one, in the order they are started. -/
theorem attemptNumbers_eq (h : replay P genesis l = .ok s) {id : Uuid} :
    attemptNumbers l id = range' 1 (s.attemptsOf id) := by
  refine replay_induction (I := fun l s => attemptNumbers l id = range' 1 (s.attemptsOf id)) ?_ ?_ h
  · intro _
    simp [attemptNumbers, attemptsOf, start]
  · intro pre s record s' hi happlied
    rw [attemptNumbers_concat, hi]
    cases happlied with
    | activation hevent =>
      simp [attemptNumbers, hevent, transition, attemptsOf]
    | @transition event _ n hevent hadm =>
      by_cases hid : id = event.projectionId
      · subst hid
        have hcount : (s.afterTransition record event n).attemptsOf event.projectionId = n := by
          simp [attemptsOf, entry]
        have hnumbers : attemptNumbers [record] event.projectionId = event.state.startedNumber.toList := by
          cases hstate : event.state.startedNumber <;>
            simp [attemptNumbers, hevent, transition, hstate]
        rw [hcount, hnumbers]
        rcases nextAttemptCount_cases hadm.attempts with ⟨hstarted, rfl⟩ | ⟨hstarted, rfl⟩
        · rw [hstarted, range'_1_concat, toList_some, Nat.add_comm]
        · rw [hstarted, toList_none, append_nil]
      · have hcount : (s.afterTransition record event n).attemptsOf id = s.attemptsOf id := by
          rw [attemptsOf, afterTransition_lookup_of_ne hid]
          rfl
        simp [attemptNumbers, hevent, transition, Ne.symm hid, hcount]
    | advance hevent =>
      simp [attemptNumbers, hevent, transition, attemptsOf]

/-! ## Ends -/

/-- Attempts are ended at most once, by the entry that built them. -/
structure Fenced (l : List ManifestRecord) (s : ViewScan) : Prop where
  started : ∀ {id e attemptId}, s.entries.lookup id = some e → e.state.startedAttempt = some attemptId →
    attemptId ∈ startedAttempts l
  unique : ∀ {id id' e e' attemptId}, s.entries.lookup id = some e → s.entries.lookup id' = some e' →
    e.state.startedAttempt = some attemptId → e'.state.startedAttempt = some attemptId → id = id'
  /-- An attempt that has ended is not being built. -/
  ended : ∀ {attemptId}, attemptId ∈ endedAttempts l → attemptId ∈ startedAttempts l ∧
    ∀ id e, s.entries.lookup id = some e → e.state.startedAttempt ≠ some attemptId
  once : (endedAttempts l).Nodup

theorem startedAttempts_concat :
    startedAttempts (l ++ [record]) = startedAttempts l ++
      (record.event.transition.bind fun event => event.state.startedAttempt).toList := by
  unfold startedAttempts
  cases h : record.event.transition.bind fun event => event.state.startedAttempt <;> simp [h]

theorem endedAttempts_concat :
    endedAttempts (l ++ [record]) = endedAttempts l ++
      (record.event.transition.bind fun event => event.state.endedAttempt).toList := by
  unfold endedAttempts
  cases h : record.event.transition.bind fun event => event.state.endedAttempt <;> simp [h]

/-- Records that are not transitions change nothing. -/
theorem Fenced.of_other (h : Fenced l s)
    (hevent : record.event.transition = none) (hs : s'.entries = s.entries) : Fenced (l ++ [record]) s' := by
  have hstarted : startedAttempts (l ++ [record]) = startedAttempts l := by
    simp [startedAttempts_concat, hevent]
  have hended : endedAttempts (l ++ [record]) = endedAttempts l := by
    simp [endedAttempts_concat, hevent]
  constructor
  · rw [hs, hstarted]
    exact h.started
  · rw [hs]
    exact h.unique
  · rw [hs, hstarted, hended]
    exact h.ended
  · rw [hended]
    exact h.once

section

variable {l : List ManifestRecord} {s : ViewScan} {record : ManifestRecord} {event : ProjectionTransition}
  {builder : ActiveBuilderSpec} {n : Nat}

/-- An attempt that a transition starts was not started before. -/
theorem not_mem_started (hevent : record.event = .projectionTransition event)
    (hn : (startedAttempts (l ++ [record])).Nodup)
    (hs : event.state.startedAttempt = some attemptId) : attemptId ∉ startedAttempts l := by
  rw [startedAttempts_concat, hevent] at hn
  simp only [transition, bind_some, hs] at hn
  exact fun hmem => disjoint_of_nodup_append hn hmem mem_cons_self

theorem Fenced.transition (h : Fenced l s) (hevent : record.event = .projectionTransition event)
    (hadm : Admitted P s record event builder n) (hn : (startedAttempts (l ++ [record])).Nodup) :
    Fenced (l ++ [record]) (s.afterTransition record event n) := by
  have hstarted : startedAttempts (l ++ [record]) = startedAttempts l ++ event.state.startedAttempt.toList := by
    rw [startedAttempts_concat, hevent]
    rfl
  have hended : endedAttempts (l ++ [record]) = endedAttempts l ++ event.state.endedAttempt.toList := by
    rw [endedAttempts_concat, hevent]
    rfl
  -- no other entry builds the attempt that this transition starts
  have hother : ∀ {id e attemptId}, s.entries.lookup id = some e → e.state.startedAttempt = some attemptId →
      event.state.startedAttempt ≠ some attemptId :=
    fun he hi hs => not_mem_started hevent hn hs (h.started he hi)
  -- the attempt that this transition ends was being built by its own entry
  have hlive : ∀ {attemptId}, event.state.endedAttempt = some attemptId →
      attemptId ∉ endedAttempts l := by
    intro attemptId hi hmem
    obtain ⟨e, he, hs⟩ := hadm.building_of_ended hi
    exact (h.ended hmem).2 _ e he hs
  constructor
  · intro id e attemptId he hi
    rw [hstarted, mem_append]
    rcases afterTransition_cases he with ⟨rfl, rfl⟩ | ⟨_, he⟩
    · exact .inr (by simpa [entry] using hi)
    · exact .inl (h.started he hi)
  · intro id id' e e' attemptId he he' hi hi'
    rcases afterTransition_cases he with ⟨rfl, rfl⟩ | ⟨_, he⟩ <;>
      rcases afterTransition_cases he' with ⟨rfl, rfl⟩ | ⟨_, he'⟩
    · rfl
    · exact absurd hi (hother he' hi')
    · exact absurd hi' (hother he hi)
    · exact h.unique he he' hi hi'
  · intro attemptId hmem
    rw [hended, mem_append] at hmem
    rcases hmem with hmem | hmem
    · obtain ⟨hold, hnot⟩ := h.ended hmem
      refine ⟨by rw [hstarted]; exact mem_append_left _ hold, fun id e he hi => ?_⟩
      rcases afterTransition_cases he with ⟨rfl, rfl⟩ | ⟨_, he⟩
      · exact not_mem_started hevent hn hi hold
      · exact hnot id e he hi
    · have hi : event.state.endedAttempt = some attemptId := by simpa using hmem
      obtain ⟨b, hb, hs⟩ := hadm.building_of_ended hi
      refine ⟨by rw [hstarted]; exact mem_append_left _ (h.started hb hs), fun id e he hbuilding => ?_⟩
      rcases afterTransition_cases he with ⟨rfl, rfl⟩ | ⟨hne, he⟩
      · have hnone := startedAttempt_of_ended hi
        rw [entry, hnone] at hbuilding
        cases hbuilding
      · exact hne (h.unique he hb hbuilding hs)
  · rw [hended]
    cases hi : event.state.endedAttempt with
    | none => simpa using h.once
    | some attemptId =>
      rw [nodup_append]
      refine ⟨h.once, by simp, fun a ha b hb => ?_⟩
      obtain rfl : b = attemptId := by simpa using hb
      rintro rfl
      exact hlive hi ha

end

theorem fenced_of_replay (h : replay P genesis l = .ok s) (hn : (startedAttempts l).Nodup) : Fenced l s := by
  refine replay_induction (I := fun l s => (startedAttempts l).Nodup → Fenced l s) ?_ ?_ h hn
  · intro _ _
    constructor <;> simp [start, endedAttempts]
  · intro pre s record s' hi happlied hn
    have hpre : (startedAttempts pre).Nodup := by
      rw [startedAttempts_concat] at hn
      exact (nodup_append.mp hn).1
    cases happlied with
    | activation hevent => exact (hi hpre).of_other (by rw [hevent]; rfl) rfl
    | transition hevent hadm => exact (hi hpre).transition hevent hadm hn
    | advance hevent => exact (hi hpre).of_other (by rw [hevent]; rfl) rfl

/-! ## Artifacts -/

/-- The artifact of an entry is made from its source by `builder`. -/
structure BoundTo (e : ProjectionEntry) (artifact : ArtifactDescriptor) (builder : ActiveBuilderSpec) : Prop where
  revision : artifact.sourceRevisionId = e.source.revisionId
  content : artifact.sourceContentHash = e.source.contentHash
  builder_hash : artifact.builderSpecHash = builder.builderSpecHash
  dimension : artifact.dimension = builder.builderSpec.dimension

/-- Ready entries that want the active builder have an artifact of it. -/
def ReadyBound (s : ViewScan) : Prop :=
  ∀ id e attempt attemptId artifact builder, s.entries.lookup id = some e →
    e.state = .ready attempt attemptId artifact → s.activeBuilder = some builder →
    builder.builderSpecHash = e.desiredBuilderSpecHash → BoundTo e artifact builder

/-- A record that is not an activation keeps ready entries bound. An activation does so when every entry
wants the builder that it replaces: none of them wants the new one. -/
theorem ReadyBound.applied (hb : ReadyBound s) (happlied : Applied P s record s')
    (huses : (∃ event, record.event = .builderActivated event) →
      ∀ id e, s.entries.lookup id = some e → e.state.isAbsent = false →
        s.activeBuilder.map (·.builderSpecHash) = some e.desiredBuilderSpecHash) :
    ReadyBound s' := by
  intro id e attempt attemptId artifact builder he hstate hbuilder hdesired
  cases happlied with
  | activation hevent hact =>
    have hold := huses ⟨_, hevent⟩ id e he (by rw [hstate]; rfl)
    cases hbuilder
    exact absurd (hact.previous.symm.trans (hold.trans (congrArg some hdesired.symm))) hact.changed
  | @transition event active n hevent hadm =>
    rcases afterTransition_cases he with ⟨rfl, rfl⟩ | ⟨_, he⟩
    · cases hadm.active.symm.trans hbuilder
      have hbinding := hadm.binding
      simp only [entry] at hstate
      rw [hstate, validateStateBinding, refuse_eq_ok] at hbinding
      simp only [not_or, not_not] at hbinding
      obtain ⟨hrevision, hcontent, hhash, hdimension⟩ := hbinding
      exact ⟨hrevision, hcontent, hhash.trans hadm.desired.symm, hdimension⟩
    · exact hb id e attempt attemptId artifact builder he hstate hbuilder hdesired
  | advance => exact hb id e attempt attemptId artifact builder he hstate hbuilder hdesired

/-- A stretch of records without activations keeps ready entries bound. -/
theorem ReadyBound.fold (hb : ReadyBound s)
    (hl : ∀ record ∈ l, ∀ event, record.event ≠ .builderActivated event) (h : l.foldlM (applyRecord P) s = .ok s') :
    ReadyBound s' := by
  induction l generalizing s with
  | nil =>
    obtain rfl : s = s' := by simpa using h
    exact hb
  | cons record l ih =>
    obtain ⟨t, ht, h⟩ := of_seq (foldlM_cons.symm.trans h)
    refine ih (hb.applied (applied_of_ok ht) ?_) (fun r hr => hl r (mem_cons_of_mem _ hr)) h
    rintro ⟨event, hevent⟩
    exact absurd hevent (hl record mem_cons_self event)

end Plico.Projection
