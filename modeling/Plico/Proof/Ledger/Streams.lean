import Plico.Proof.Ledger.Commit

/-!
# Every reachable ledger is a set of linear chains

`Sound` is what every commit re-establishes: both logs validate and the view is the one rebuilt from
them. From it, `runCommits_wellFormed`: after any run of requests from genesis, whatever the clients
send and whichever writes fail, the revisions of each memory form one chain and the view names the
last revision of each chain.
-/

namespace Plico.Ledger

variable {P : LedgerPlatform}

/-! ## The invariant of the writer -/

/-- The logs validate and the view is rebuilt from them. -/
structure Sound (P : LedgerPlatform) (s : LedgerState) : Prop where
  revisions : validateRevisions P.toPlatform s.revisions = .ok ()
  policies : validatePolicies P.toPlatform s.policies s.revisions = .ok ()
  relations : s.relations = []
  view : ∃ v generation, s.view = some v ∧ rebuildCurrentView generation s.revisions s.policies 0 = .ok v

theorem sound_genesis (rootHash viewHash : String) : Sound P (.genesis rootHash viewHash) where
  revisions := rfl
  policies := rfl
  relations := rfl
  view := ⟨genesisView, 0, rfl, rfl⟩

variable {s : LedgerState} {revisions : List CanonicalRevision} {l : CASCanonicalLedger}

/-- Publishing a prepared commit gives a sound state again. -/
theorem Sound.apply {roleId : String} {tier : MemoryTier}
    {expectedHeads : List ExpectedHead} {inputs : CommitInputs} {c : PreparedCommit} (hs : Sound P s)
    (hc : Prepared P s roleId tier revisions expectedHeads inputs c) : Sound P (c.apply s) := by
  obtain ⟨_, _, _, _, henc⟩ := encoded_of_ok hc.encoded
  have hview := henc.view
  rw [hs.relations] at hview
  exact ⟨hc.validRevisions, hc.validPolicies, hs.relations, c.view, c.generation, rfl, hview⟩

theorem Sound.poison (hs : Sound P s) : Sound P { s with poisoned := true } :=
  { hs with }

theorem Sound.step (hs : Sound P l.state) (call : CommitCall) (inputs : CommitInputs) :
    Sound P (call.run P l inputs).1.state := by
  have hout := run_outcome (P := P) l call inputs
  generalize call.run P l inputs = out at hout ⊢
  cases hout with
  | refused _ => exact hs
  | interrupted _ _ => exact hs
  | unpublished _ _ => exact hs
  | indeterminate _ _ _ _ => exact hs.poison
  | committed hprep _ _ _ => exact hs.apply (prepared_of_ok hprep)

theorem Sound.run (hs : Sound P l.state) (calls : List (CommitCall × CommitInputs)) :
    Sound P (runCommits P l calls).state :=
  List.foldlRecOn (motive := fun l : CASCanonicalLedger => Sound P l.state) calls _ hs
    fun _ hl call _ => hl.step call.1 call.2

theorem Sound.grown (hs : Sound P s) : Grown (Admits P.toPlatform) s.revisions :=
  validateRevisions_grown hs.revisions

theorem Sound.isViewOf (hs : Sound P s) : ∃ v, s.view = some v ∧ IsViewOf s.revisions s.policies v := by
  obtain ⟨v, _, hv, hrebuild⟩ := hs.view
  exact ⟨v, hv, isViewOf_rebuild hrebuild⟩

/-! ## Chains and heads -/

/-- The revision id of the last revision of a memory. -/
def headIn (log : List CanonicalRevision) (memoryId : MemoryId) : Option MemoryRevisionId :=
  (memoryRevisions log memoryId).getLast?.map (·.revisionId)

def LedgerState.head (s : LedgerState) (memoryId : MemoryId) : Option MemoryRevisionId :=
  headIn s.revisions memoryId

theorem Sound.isViewOf_currentView (hs : Sound P s) : IsViewOf s.revisions s.policies s.currentView := by
  obtain ⟨v, hv, hview⟩ := hs.isViewOf
  rwa [LedgerState.currentView, hv]

/-- The head the current view shows is the head of the memory. -/
theorem Sound.headFor_eq (hs : Sound P s) (memoryId : MemoryId) : headFor s.currentView memoryId = s.head memoryId :=
  Ledger.headFor_eq hs.isViewOf_currentView memoryId

/-- `v` has exactly one stream for each memory of the log, naming the last revision of its chain. -/
structure ShowsHeads (revisions : List CanonicalRevision) (v : CurrentView) : Prop where
  one_stream : (v.streams.map (·.memoryId)).Nodup
  covers : ∀ memoryId, (∃ st ∈ v.streams, st.memoryId = memoryId) ↔ memoryRevisions revisions memoryId ≠ []
  head : ∀ st ∈ v.streams, ∃ r, (memoryRevisions revisions st.memoryId).getLast? = some r ∧
    st.headRevisionId = r.revisionId ∧ st.deleted = r.deletedAt.isSome

theorem IsViewOf.showsHeads {policies : List PolicyRecord} {v : CurrentView}
    (h : IsViewOf revisions policies v) : ShowsHeads revisions v := by
  have hhead : ∀ st ∈ v.streams, ∃ r, (memoryRevisions revisions st.memoryId).getLast? = some r ∧
      st.headRevisionId = r.revisionId ∧ st.deleted = r.deletedAt.isSome := by
    intro st hst
    obtain ⟨head, policy, hlast, -, he⟩ := (h.mem st).mp hst
    exact ⟨head, hlast, by rw [he], by rw [he]⟩
  refine ⟨h.nodup, fun memoryId => ⟨?_, fun hne => ?_⟩, hhead⟩
  · rintro ⟨st, hst, rfl⟩ hnil
    obtain ⟨r, hr, -⟩ := hhead st hst
    simp [hnil] at hr
  · obtain ⟨r, hr⟩ := List.exists_mem_of_ne_nil _ hne
    obtain ⟨hm, rfl⟩ := (mem_stream _).mp hr
    exact h.total r hm

/-- What the revision log and the view of a ledger state look like. -/
structure WellFormed (P : Platform) (s : LedgerState) : Prop where
  sequences : s.revisions.map (·.sequence) = List.range' 1 s.revisions.length
  unique_ids : (s.revisions.map (·.revisionId)).Nodup
  chains : ∀ memoryId, MemoryChain P memoryId (memoryRevisions s.revisions memoryId)
  view : ∃ v, s.view = some v ∧ ShowsHeads s.revisions v

/-- In every state reached from genesis the revisions are linear chains and the view names their heads. -/
theorem runCommits_wellFormed (P : LedgerPlatform) (st : LedgerStorage) (rootHash viewHash : String)
    (calls : List (CommitCall × CommitInputs)) :
    WellFormed P.toPlatform (runCommits P ⟨st, .genesis rootHash viewHash⟩ calls).state := by
  have hs := Sound.run (l := ⟨st, .genesis rootHash viewHash⟩) (sound_genesis (P := P) rootHash viewHash) calls
  obtain ⟨v, hv, hview⟩ := hs.isViewOf
  exact ⟨sequences_of_grown hs.grown, nodup_of_grown hs.grown, memoryChain_of_grown hs.grown,
    v, hv, hview.showsHeads⟩

end Plico.Ledger
