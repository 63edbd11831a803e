import Plico.Proof.Projection.Replay

/-!
# What a manifest commit decides and how it can end

`Prepared` is what `prepareCandidate` makes of the proposed events. Only a published commit changes the
state behind the lock, and it changes it to the candidate that was replayed; a commit of unknown fate
poisons the store.
-/

namespace Plico.Projection

open Plico.Ledger

variable {P : ProjectionPlatform}

/-! ## Stamping -/

theorem stampEvents_events {committedAt : Nat} {role : String} {first : Nat} {events : List ManifestEvent} :
    (stampEvents committedAt role first events).map (·.event) = events := by
  apply List.ext_getElem <;> simp [stampEvents]

/-! ## Decisions -/

/-- What `prepareCandidate` found when it accepts a candidate. -/
structure Prepared (P : ProjectionPlatform) (s : ProjectionStoreState) (events : List ManifestEvent)
    (c : Candidate) : Prop where
  nonempty : events ≠ []
  records : c.records = stampEvents c.committedAt c.committedByRole c.firstSequence events
  candidate : c.candidateRecords = s.records ++ c.records
  view : rebuildCurrentView P c.generation s.genesisSource c.candidateRecords = .ok c.view

section

variable {s : ProjectionStoreState} {root : String} {actor : ProjectionCommitActor} {events : List ManifestEvent}
  {canonical : CanonicalProjectionSnapshot} {repairing : Bool} {now : Nat} {c : Candidate}

theorem prepareCandidate_eq_ok (h : prepareCandidate P s root actor events canonical repairing now = .ok c) :
    Prepared P s events c := by
  obtain ⟨_, -, _, -, _, -, h⟩ := of_seq₃ h
  obtain ⟨_, hempty, _, -, _, -, h⟩ := of_seq₃ h
  obtain ⟨_, -, _, -, _, -, h⟩ := of_seq₃ h
  obtain ⟨view, hview, h⟩ := of_seq h
  obtain ⟨_, -, h⟩ := of_seq h
  cases h
  rw [refuse_eq_ok, List.isEmpty_iff] at hempty
  exact ⟨hempty, rfl, rfl, hview⟩

theorem Prepared.events_eq (h : Prepared P s events c) :
    c.records.map (·.event) = events := by
  rw [h.records, stampEvents_events]

end

/-! ## Encoding -/

theorem encodeCommit_eq_ok {s : ProjectionStoreState} {c : Candidate} {enc : EncodedCommit}
    (h : encodeCommit P s c = .ok enc) :
    ∃ segmentHash viewHash, enc.root = candidateRoot s c segmentHash viewHash := by
  obtain ⟨⟨_, segmentHash⟩, -, h⟩ := of_seq h
  obtain ⟨⟨_, viewHash⟩, -, h⟩ := of_seq h
  obtain ⟨_, -, h⟩ := of_seq h
  obtain ⟨_, -, _, -, _, -, h⟩ := of_seq₃ h
  cases h
  exact ⟨segmentHash, viewHash, rfl⟩

/-! ## Outcomes -/

section

variable (P) (events : List ManifestEvent) (inputs : ManifestInputs)

/-- What a commit does to the state behind the lock. -/
inductive StateChange (s : ProjectionStoreState) : ProjectionStoreState → Except ProjectionError String → Prop where
  | unchanged {e : ProjectionError} : StateChange s s (.error e)
  | poisoned : inputs.publishFault = .unsynced →
      StateChange s { s with poisoned := true } (.error .commitIndeterminate)
  | committed {c : Candidate} {enc : EncodedCommit} : Prepared P s events c → encodeCommit P s c = .ok enc →
      StateChange s (c.apply enc s) (.ok enc.rootHash)

theorem commit_stateChange (store : ProjectionManifestStore) (root : String) (actor : ProjectionCommitActor)
    (artifacts : List EmbeddingArtifact) (canonical : CanonicalProjectionSnapshot) (repairing : Bool) :
    StateChange P events inputs store.state
    (commit P store root actor events artifacts canonical repairing inputs).1.state
    (commit P store root actor events artifacts canonical repairing inputs).2 := by
  unfold commit
  split
  · exact .unchanged
  · rename_i c hprep
    replace hprep := prepareCandidate_eq_ok hprep
    split
    · exact .unchanged
    · split
      · exact .unchanged
      · rename_i enc henc
        unfold writeCommit
        split
        · exact .unchanged
        · split
          · exact .unchanged
          · unfold publishCommit
            split
            · exact .unchanged
            · cases hfault : inputs.publishFault with
              | none => exact .committed hprep henc
              | lost => exact .unchanged
              | unsynced => exact .poisoned hfault

end

end Plico.Projection
