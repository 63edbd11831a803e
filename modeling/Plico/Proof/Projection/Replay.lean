import Plico.Model.Projection.Operations

/-!
# What the replay accepts

`Applied` says what an accepted record is and does to the replay. `replay_induction` is the rule for
invariants of the replay: what holds at the start and is kept by every accepted record holds of every
accepted log. `Rebuilt` connects the view with the replay it is made of.
-/

namespace Plico.Projection

open AList ViewScan List Plico.Ledger

variable {P : ProjectionPlatform}

theorem checkedAdd_eq_some {w a b c : Nat} : checkedAdd w a b = some c ↔ a + b < 2 ^ w ∧ a + b = c := by
  unfold checkedAdd
  split <;> simp_all

/-! ## Single records -/

/-- The state of the projection that a transition continues. -/
def ViewScan.stateOf (s : ViewScan) (id : Uuid) : Option ProjectionState :=
  (s.entries.lookup id).map (·.state)

def ViewScan.attemptsOf (s : ViewScan) (id : Uuid) : Nat :=
  (s.entries.lookup id).elim 0 (·.attemptCount)

/-- What the replay in state `s` requires of a transition, under the active builder, and the number of
attempts it leaves. -/
structure Admitted (P : ProjectionPlatform) (s : ViewScan) (record : ManifestRecord) (event : ProjectionTransition)
    (builder : ActiveBuilderSpec) (attemptCount : Nat) : Prop where
  active : s.activeBuilder = some builder
  desired : builder.builderSpecHash = event.desiredBuilderSpecHash
  binding : validateStateBinding (s.stateOf event.projectionId) event.state event.source event.desiredBuilderSpecHash
    builder = .ok ()
  actor : validateActorAndTransition (s.stateOf event.projectionId) event.state record = .ok ()
  attempts : nextAttemptCount (s.attemptsOf event.projectionId) event.state = .ok attemptCount

/-- The replay after an admitted transition. -/
def ViewScan.afterTransition (s : ViewScan) (record : ManifestRecord) (event : ProjectionTransition)
    (attemptCount : Nat) : ViewScan :=
  { s with
    offset := s.offset + 1
    entries := s.entries.insert event.projectionId (event.entry record.sequence attemptCount) }

variable {s s' : ViewScan} {record : ManifestRecord} {event : ProjectionTransition}

theorem applyTransition_eq_ok (h : applyTransition P s record event = .ok s') :
    ∃ builder attemptCount, Admitted P s record event builder attemptCount ∧
      s' = s.afterTransition record event attemptCount := by
  obtain ⟨_, -, _, -, _, -, h⟩ := of_seq₃ h
  obtain ⟨_, -, _, hdesired, _, -, h⟩ := of_seq₃ h
  obtain ⟨builder, hbuilder, ⟨⟩, hbinding, ⟨⟩, hactor, h⟩ := of_seq₃ h
  obtain ⟨count, hcount, h⟩ := of_seq h
  simp only [refuse_eq_ok, not_or, not_not] at hdesired
  rw [required_eq_ok] at hbuilder
  exact ⟨builder, count, ⟨hbuilder, by simpa [hbuilder] using hdesired.2, hbinding, hactor, hcount⟩,
    (pure_ok_inj.mp h).symm⟩

/-- What the replay requires of an activation. -/
structure Activates (s : ViewScan) (event : BuilderActivation) : Prop where
  changed : event.previousBuilderSpecHash ≠ some event.builderSpecHash
  previous : s.activeBuilder.map (·.builderSpecHash) = event.previousBuilderSpecHash

theorem applyActivation_eq_ok {event : BuilderActivation} (h : applyActivation P s record event = .ok s') :
    Activates s event ∧ s' = { s with
      offset := s.offset + 1
      activeBuilder := some ⟨event.projectionKind, event.builderSpecHash, event.builderSpec⟩ } := by
  obtain ⟨_, hc, h⟩ := of_seq h
  obtain ⟨_, -, h⟩ := of_seq h
  simp only [refuse_eq_ok, not_or, not_not] at hc
  exact ⟨⟨hc.2.2.2.1, hc.2.2.2.2⟩, (pure_ok_inj.mp h).symm⟩

/-- What one accepted record does to the replay. -/
inductive Applied (P : ProjectionPlatform) (s : ViewScan) (record : ManifestRecord) : ViewScan → Prop where
  | activation {event : BuilderActivation} : record.event = .builderActivated event → Activates s event →
      Applied P s record { s with
        offset := s.offset + 1
        activeBuilder := some ⟨event.projectionKind, event.builderSpecHash, event.builderSpec⟩ }
  | transition {event : ProjectionTransition} {builder : ActiveBuilderSpec} {attemptCount : Nat} :
      record.event = .projectionTransition event → Admitted P s record event builder attemptCount →
      Applied P s record (s.afterTransition record event attemptCount)
  | advance {event : ReconciliationAdvance} : record.event = .reconciliationAdvanced event →
      Applied P s record { s with offset := s.offset + 1, reconciledSource := event.reconciledSource }

theorem applied_of_ok (h : applyRecord P s record = .ok s') : Applied P s record s' := by
  obtain ⟨_, -, h⟩ := of_seq h
  unfold applyEvent at h
  split at h
  case h_1 event he =>
    obtain ⟨ha, rfl⟩ := applyActivation_eq_ok h
    exact .activation he ha
  case h_2 event he =>
    obtain ⟨builder, count, ha, rfl⟩ := applyTransition_eq_ok h
    exact .transition he ha
  case h_3 event he =>
    obtain ⟨_, -, h⟩ := of_seq h
    obtain ⟨_, -, h⟩ := of_seq h
    cases pure_ok_inj.mp h
    exact .advance he

/-! ## Whole logs -/

variable {genesis : CanonicalWatermark} {l : List ManifestRecord} {id : Uuid} {n : Nat}

theorem replay_append {l' : List ManifestRecord} :
    replay P genesis (l ++ l') = .ok s' ↔
      ∃ s, replay P genesis l = .ok s ∧ l'.foldlM (applyRecord P) s = .ok s' := by
  unfold replay
  cases hw : validateWatermark genesis with
  | error e => simp
  | ok u =>
    simp only [seq_ok, foldlM_append]
    exact seq_eq_ok

/-- What holds at the start and is kept by every accepted record holds of every accepted log. -/
theorem replay_induction {I : List ManifestRecord → ViewScan → Prop}
    (hstart : validateWatermark genesis = .ok () → I [] (.start genesis))
    (hstep : ∀ {pre s record s'}, I pre s → Applied P s record s' → I (pre ++ [record]) s')
    (h : replay P genesis l = .ok s) : I l s := by
  induction l using reverseRecOn generalizing s with
  | nil =>
    obtain ⟨⟨⟩, hw, h⟩ := of_seq h
    obtain rfl : start genesis = s := by simpa using h
    exact hstart hw
  | append_singleton l record ih =>
    obtain ⟨t, ht, hr⟩ := replay_append.mp h
    obtain ⟨u, hu, hs⟩ := of_seq (foldlM_cons.symm.trans hr)
    obtain rfl : u = s := by simpa using hs
    exact hstep (ih ht) (applied_of_ok hu)

@[simp] theorem afterTransition_lookup_self : (s.afterTransition record event n).entries.lookup event.projectionId =
      some (event.entry record.sequence n) :=
  lookup_insert _

theorem afterTransition_lookup_of_ne (h : id ≠ event.projectionId) :
    (s.afterTransition record event n).entries.lookup id = s.entries.lookup id :=
  lookup_insert_ne h

variable {e : ProjectionEntry}

/-- An entry after a transition is the one it left, or an entry of another projection from before. -/
theorem afterTransition_cases (h : (s.afterTransition record event n).entries.lookup id = some e) :
    (id = event.projectionId ∧ e = event.entry record.sequence n) ∨
      (id ≠ event.projectionId ∧ s.entries.lookup id = some e) := by
  by_cases hid : id = event.projectionId
  · subst hid
    rw [afterTransition_lookup_self] at h
    exact .inl ⟨rfl, (Option.some.inj h).symm⟩
  · rw [afterTransition_lookup_of_ne hid] at h
    exact .inr ⟨hid, h⟩

/-- An entry is what the last transition of its projection left. -/
structure LastTransition (l : List ManifestRecord) (e : ProjectionEntry) (record : ManifestRecord)
    (event : ProjectionTransition) : Prop where
  mem : record ∈ l
  recorded : record.event = .projectionTransition event
  left : event.entry record.sequence e.attemptCount = e

theorem LastTransition.concat (h : LastTransition l e record event) (r : ManifestRecord) :
    LastTransition (l ++ [r]) e record event :=
  ⟨mem_append_left _ h.mem, h.recorded, h.left⟩

theorem lastTransition_of_replay (h : replay P genesis l = .ok s) (he : s.entries.lookup id = some e) :
    ∃ record event, LastTransition l e record event ∧ event.projectionId = id := by
  refine replay_induction (I := fun l s => ∀ id e, s.entries.lookup id = some e →
    ∃ record event, LastTransition l e record event ∧ event.projectionId = id) ?_ ?_ h id e he
  · intro _ id e he
    simp [start] at he
  · intro pre s record s' hi happlied id e he
    have hold : s.entries.lookup id = some e → ∃ r t, LastTransition (pre ++ [record]) e r t ∧ t.projectionId = id := by
      intro he
      obtain ⟨r, t, hlast, hid⟩ := hi id e he
      exact ⟨r, t, hlast.concat _, hid⟩
    cases happlied with
    | activation | advance => exact hold he
    | @transition event _ n hevent _ =>
      rcases afterTransition_cases he with ⟨rfl, rfl⟩ | ⟨_, he⟩
      · exact ⟨record, event, ⟨mem_append_right _ mem_cons_self, hevent, rfl⟩, rfl⟩
      · exact hold he

/-! ## The view of a replay -/

/-- `view` is made of the replay `s` of `records`. -/
structure Rebuilt (P : ProjectionPlatform) (generation : Nat) (genesis : CanonicalWatermark)
    (records : List ManifestRecord) (s : ViewScan) (view : ProjectionCurrentView) : Prop where
  replayed : replay P genesis records = .ok s
  uses : ∀ id e, s.entries.lookup id = some e → e.state.isAbsent = false →
    s.activeBuilder.map (·.builderSpecHash) = some e.desiredBuilderSpecHash
  view_eq : view = ⟨currentViewSchema, generation, s.offset, s.reconciledSource, s.activeBuilder.toList,
    s.sortedEntries⟩

theorem mem_sortedEntries : e ∈ s.sortedEntries ↔ ∃ id, s.entries.lookup id = some e := by
  unfold sortedEntries
  rw [(perm_insertionSort _ _).mem_iff, mem_map]
  constructor
  · rintro ⟨⟨id, e⟩, he, rfl⟩
    exact ⟨id, mem_lookup_iff.mpr he⟩
  · rintro ⟨id, he⟩
    exact ⟨⟨id, e⟩, mem_lookup_iff.mp he, rfl⟩

theorem usesActiveBuilder_eq {builder : Option ActiveBuilderSpec} :
    usesActiveBuilder builder.toList e = false ↔ ¬ (e.state.isAbsent = false →
      builder.map (·.builderSpecHash) = some e.desiredBuilderSpecHash) := by
  unfold usesActiveBuilder
  cases hk : e.projectionKind
  cases builder with
  | none => cases e.state.isAbsent <;> simp
  | some b =>
    cases b.projectionKind
    cases e.state.isAbsent <;> simp

theorem rebuildCurrentView_eq_ok {generation : Nat} {records : List ManifestRecord} {view : ProjectionCurrentView}
    (h : rebuildCurrentView P generation genesis records = .ok view) :
    ∃ s, Rebuilt P generation genesis records s view := by
  obtain ⟨s, hs, _, -, _, hu, h⟩ := of_seq₃ h
  rw [refuse_eq_ok] at hu
  refine ⟨s, hs, fun id e he => ?_, (pure_ok_inj.mp h).symm⟩
  by_contra hne
  exact hu ⟨e, mem_sortedEntries.mpr ⟨id, he⟩, usesActiveBuilder_eq.mpr hne⟩

section

variable {generation : Nat} {genesis : CanonicalWatermark} {records : List ManifestRecord} {s : ViewScan}
  {view : ProjectionCurrentView}

section

variable (h : Rebuilt P generation genesis records s view)
include h

theorem Rebuilt.mem_entries : e ∈ view.entries ↔ s.entries.lookup e.projectionId = some e := by
  rw [h.view_eq, mem_sortedEntries]
  refine ⟨fun ⟨id, he⟩ => ?_, fun he => ⟨_, he⟩⟩
  obtain ⟨r, t, hlast, hid⟩ := lastTransition_of_replay h.replayed he
  have : e.projectionId = id := by rw [← hid, ← hlast.left]; rfl
  rwa [this]

/-- Looking an entry up in the view is looking it up in the replay. -/
theorem Rebuilt.entry_eq_lookup : view.entry id = s.entries.lookup id := by
  ext e
  constructor
  · intro he
    have hid : e.projectionId = id := by simpa using find?_some he
    rw [← hid]
    exact h.mem_entries.mp (mem_of_find?_eq_some he)
  · intro he
    obtain ⟨r, t, hlast, hid⟩ := lastTransition_of_replay h.replayed he
    have hid : e.projectionId = id := by rw [← hid, ← hlast.left]; rfl
    have hmem : e ∈ view.entries := h.mem_entries.mpr (by rwa [hid])
    cases hf : view.entry id with
    | none => simpa [hid] using find?_eq_none.mp hf e hmem
    | some e' =>
      have hid' : e'.projectionId = id := by simpa using find?_some hf
      have he' := h.mem_entries.mp (mem_of_find?_eq_some hf)
      rw [hid', he] at he'
      exact he'.symm

theorem Rebuilt.activeBuilder_eq : view.activeBuilder = s.activeBuilder := by
  unfold ProjectionCurrentView.activeBuilder
  rw [h.view_eq]
  cases s.activeBuilder with
  | none => rfl
  | some b => simp

end

end

end Plico.Projection
