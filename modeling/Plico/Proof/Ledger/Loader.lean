import Plico.Proof.Ledger.Restart

/-!
# What the loader accepts

The store is arbitrary here: cycles, shared segments and reordered roots are possible contents. `RootChain`
is what `validateRootChain` has established when it succeeds, one constructor for each turn of its loop.
The checks compare single hashes, heads and watermarks; `prefix_of_headExtends` turns them into a statement
about whole logs, because a head that is reached from another one carries the older part of its chain.
-/

namespace Plico.Ledger

open List

variable {P : LedgerPlatform} {st : LedgerStorage}

/-! ## Segments -/

section Segments

variable {α : Type} {codec : Serde (Segment α)} {kind : LogKind} {head : Option String} {log : List α}

/-- The chain under `head`, newest segment first, holds `log`. -/
structure ChainOf (P : LedgerPlatform) (codec : Serde (Segment α)) (kind : LogKind) (st : LedgerStorage)
    (head : Option String) (log : List α) (l : List (String × Segment α)) : Prop where
  linked : Linked (readSegment P codec kind st) (·.previousSegmentHash) head l
  appended : ∃ next, (l.reverse.map Prod.snd).foldlM appendSegment (1, []) = .ok (next, log)

theorem chainOf_of_load {watermark : Nat} (h : loadSegmentChain P codec kind st head watermark = .ok log) :
    log.length = watermark ∧ ∃ l, ChainOf P codec kind st head log l := by
  unfold loadSegmentChain at h
  split at h
  · rename_i hzero
    obtain ⟨_, hhead, h⟩ := of_seq h
    cases h
    rw [refuse_eq_ok, Bool.not_eq_true, Option.isSome_eq_false_iff, Option.isNone_iff_eq_none] at hhead
    subst hhead
    exact ⟨hzero.symm, [], .nil, 1, rfl⟩
  · obtain ⟨l, hwalk, h⟩ := of_seq h
    obtain ⟨⟨next, records⟩, happended, h⟩ := of_seq h
    obtain ⟨_, hlength, h⟩ := of_seq h
    cases h
    rw [refuse_eq_ok, not_not] at hlength
    exact ⟨hlength, l, (walk_spec hwalk).1, next, happended⟩

theorem appendSegment_eq_ok {s s' : Nat × List α} {segment : Segment α} (h : appendSegment s segment = .ok s') :
    s'.2 = s.2 ++ segment.records := by
  obtain ⟨_, -, h⟩ := of_seq h
  rw [← pure_ok_inj.mp h]

/-- Appending segments only adds records. -/
theorem prefix_of_append {segments : List (Segment α)} {s s' : Nat × List α}
    (h : segments.foldlM appendSegment s = .ok s') : s.2 <+: s'.2 := by
  induction segments generalizing s with
  | nil =>
    obtain rfl : s = s' := pure_ok_inj.mp h
    exact prefix_refl _
  | cons segment rest ih =>
    obtain ⟨s₁, hs₁, h⟩ := of_seq (foldlM_cons.symm.trans h)
    have hfirst : s.2 <+: s₁.2 := by
      rw [appendSegment_eq_ok hs₁]
      exact prefix_append _ _
    exact hfirst.trans (ih h)

/-- The log under the older part of a chain is a prefix of the log under the whole chain. -/
theorem ChainOf.prefix_of_split {older : Option String} {olderLog : List α}
    {l newerPart olderPart : List (String × Segment α)} (h : ChainOf P codec kind st head log l)
    (ho : ChainOf P codec kind st older olderLog olderPart) (hl : l = newerPart ++ olderPart) : olderLog <+: log := by
  obtain ⟨next, happended⟩ := h.appended
  obtain ⟨olderNext, holder⟩ := ho.appended
  rw [hl, reverse_append, map_append, foldlM_append, holder] at happended
  exact prefix_of_append happended

/-- A head that extends another one extends its log. -/
theorem prefix_of_headExtends {current previous : Option String} {w w' : Nat} {log' : List α}
    (hlog : loadSegmentChain P codec kind st current w = .ok log)
    (hlog' : loadSegmentChain P codec kind st previous w' = .ok log')
    (h : headExtends P codec kind st current previous = .ok true) : log' <+: log := by
  obtain ⟨-, l, hl⟩ := chainOf_of_load hlog
  obtain ⟨-, l', hl'⟩ := chainOf_of_load hlog'
  cases previous with
  | none =>
    obtain rfl : l' = [] := hl'.linked.unique .nil
    exact hl.prefix_of_split hl' (append_nil l).symm
  | some target =>
    obtain ⟨newerPart, olderPart, hsplit, hlinked⟩ := hl.linked.split_of_reaches h
    obtain rfl : l' = olderPart := hl'.linked.unique hlinked
    exact hl.prefix_of_split hl' hsplit

end Segments

/-! ## Generations -/

/-- The three logs of a generation. -/
structure Logs where
  revisions : List CanonicalRevision
  policies : List PolicyRecord
  relations : List RelationRecord

/-- Every log of `a` is a prefix of the log of `b`. -/
structure Logs.Prefix (a b : Logs) : Prop where
  revisions : a.revisions <+: b.revisions
  policies : a.policies <+: b.policies
  relations : a.relations <+: b.relations

/-- The canonical form of a view determines it. Numbers are left out: the canonical form rounds large ones,
and the loader compares them itself. -/
def FaithfulViews (P : LedgerPlatform) : Prop :=
  ∀ (v w : CurrentView) (bytes : Bytes), P.view.toVec v = some bytes → P.view.toVec w = some bytes →
    v.generation = w.generation → v.revisionWatermark = w.revisionWatermark →
    v.policyWatermark = w.policyWatermark → v.relationWatermark = w.relationWatermark → v = w

/-- The logs of `root` load, and the view stored for it is the one rebuilt from them. -/
structure LoadsAs (P : LedgerPlatform) (st : LedgerStorage) (root : LedgerRoot) (logs : Logs) (view : CurrentView) :
    Prop where
  revisions : loadRevisions P st root = .ok logs.revisions
  policies : loadPolicies P st root = .ok logs.policies
  relations : loadRelations P st root = .ok logs.relations
  stored : readHashedObject P.view st root.currentViewHash = .ok view
  rebuilt : rebuildCurrentView root.generation logs.revisions logs.policies root.relationWatermark = .ok view

variable {root : LedgerRoot}

/-- Two views with the same canonical bytes, one rebuilt from valid logs and one with the numbers of the root. -/
theorem view_eq_rebuilt (hviews : FaithfulViews P) {revisions : List CanonicalRevision} {policies : List PolicyRecord}
    {view rebuilt : CurrentView} {bytes : Bytes} (hrevisions : loadRevisions P st root = .ok revisions)
    (hpolicies : loadPolicies P st root = .ok policies) (hvalid : validateRevisions P.toPlatform revisions = .ok ())
    (hvalid' : validatePolicies P.toPlatform policies revisions = .ok ())
    (hrebuilt : rebuildCurrentView root.generation revisions policies root.relationWatermark = .ok rebuilt)
    (hmatch : viewMatchesRoot root view = true) (hbytes : P.view.toVec view = some bytes)
    (hbytes' : P.view.toVec rebuilt = some bytes) : view = rebuilt := by
  obtain ⟨_, -, hr⟩ := rebuildCurrentView_eq_ok hrebuilt
  have hrevLength := (chainOf_of_load hrevisions).1
  have hpolLength := (chainOf_of_load hpolicies).1
  have hrevLast := last_sequence_of_grown (validateRevisions_grown hvalid)
  have hpolLast := last_policy_sequence (validatePolicies_grown hvalid')
  simp only [viewMatchesRoot, Bool.and_eq_true, beq_iff_eq] at hmatch
  obtain ⟨⟨⟨⟨-, hgen⟩, hrev⟩, hpol⟩, hrel⟩ := hmatch
  refine hviews view rebuilt bytes hbytes hbytes' ?_ ?_ ?_ ?_ <;> rw [hr]
  · exact hgen
  · rw [hrev, ← hrevLength]
    exact hrevLast.symm
  · rw [hpol, ← hpolLength]
    exact hpolLast.symm
  · exact hrel

variable {u : Unit}

theorem loadsAs_of_snapshot (hviews : FaithfulViews P) (h : validateRootSnapshot P st root = .ok u) :
    ∃ logs view, LoadsAs P st root logs view := by
  obtain ⟨view, hview, ⟨⟩, -, revisions, hrevisions, h⟩ := of_seq₃ h
  obtain ⟨policies, hpolicies, relations, hrelations, ⟨⟩, hvalid, h⟩ := of_seq₃ h
  obtain ⟨⟨⟩, hvalid', ⟨⟩, -, ⟨⟩, -, h⟩ := of_seq₃ h
  obtain ⟨rebuilt, hrebuilt, bytes, hbytes, bytes', hbytes', h⟩ := of_seq₃ h
  rw [refuse_eq_ok, not_or, not_not, Bool.not_eq_false] at h
  obtain ⟨hmatch, rfl⟩ := h
  rw [jcs_eq_ok] at hbytes hbytes'
  obtain rfl := view_eq_rebuilt hviews hrevisions hpolicies hvalid hvalid' hrebuilt hmatch hbytes hbytes'
  exact ⟨⟨revisions, policies, relations⟩, view, hrevisions, hpolicies, hrelations, hview, hrebuilt⟩

/-- What one link of the chain of roots establishes of the logs and of the migration. -/
structure RootExtends (root previous : LedgerRoot) (logs previousLogs : Logs) : Prop where
  logs : previousLogs.Prefix logs
  kept : previous.migrationManifestHash.isSome → root.migrationManifestHash = previous.migrationManifestHash
  introduced : previous.migrationManifestHash = none → root.migrationManifestHash.isSome → previous.generation = 0

theorem refuseUnlessPrefix_eq_ok {c : Prop} [Decidable c] : refuseUnlessPrefix c = .ok u ↔ c := by
  rw [refuseUnlessPrefix, refuse_eq_ok, not_not]

theorem rootExtends_of_logs {previous : LedgerRoot} {logs previousLogs : Logs} {view view' : CurrentView}
    (hroot : LoadsAs P st root logs view) (hprevious : LoadsAs P st previous previousLogs view')
    (h : validateRootPrefix P st root previous = .ok u) : RootExtends root previous logs previousLogs := by
  obtain ⟨_, -, revisions, hrevisions, _, hrev, h⟩ := of_seq₃ h
  obtain ⟨policies, hpolicies, _, hpol, relations, hrelations, h⟩ := of_seq₃ h
  obtain ⟨_, hrel, h⟩ := of_seq h
  rw [refuseUnlessPrefix_eq_ok] at hrev hpol hrel
  subst hrev hpol hrel
  obtain ⟨hkept, hintroduced⟩ := refuseUnlessPrefix_eq_ok.mp h
  refine ⟨⟨?_, ?_, ?_⟩, fun hs => ?_, fun hn hs => ?_⟩
  · exact prefix_of_headExtends hroot.revisions hprevious.revisions hrevisions
  · exact prefix_of_headExtends hroot.policies hprevious.policies hpolicies
  · exact prefix_of_headExtends hroot.relations hprevious.relations hrelations
  · by_contra hne
    exact hkept ⟨hs, hne⟩
  · by_contra hne
    exact hintroduced ⟨by rw [hn]; rfl, hs, hne⟩

/-! ## The chain of roots -/

/-- A root of the chain: its hash, itself, and the logs and the view that are stored for it. -/
structure LoadedRoot where
  hash : String
  root : LedgerRoot
  logs : Logs
  view : CurrentView

/-- The roots that the loop of `validateRootChain` visits, newest first. -/
inductive RootChain (P : LedgerPlatform) (st : LedgerStorage) : List LoadedRoot → Prop where
  | genesis {x : LoadedRoot} : LoadsAs P st x.root x.logs x.view → x.root.generation = 0 →
      x.root.previousRootHash = none → isGenesisRoot x.root = true → RootChain P st [x]
  | link {x previous : LoadedRoot} {rest : List LoadedRoot} : LoadsAs P st x.root x.logs x.view →
      x.root.generation = previous.root.generation + 1 → x.root.previousRootHash = some previous.hash →
      readHashedObject P.root st previous.hash = .ok previous.root →
      RootExtends x.root previous.root x.logs previous.logs → RootChain P st (previous :: rest) →
      RootChain P st (x :: previous :: rest)

theorem rootChain_of_validate (hviews : FaithfulViews P) {generation : Nat} {seen : List String} {hash : String}
    (h : validateRootChain P st generation seen hash root = .ok u) :
    root.generation = generation ∧ ∃ logs view rest, RootChain P st (⟨hash, root, logs, view⟩ :: rest) := by
  induction generation generalizing seen hash root with
  | zero =>
    obtain ⟨_, hshape, h⟩ := of_seq h
    obtain ⟨⟨⟩, hsnapshot, h⟩ := of_seq h
    rw [refuse_eq_ok, not_or, not_or, not_not, not_not] at hshape
    obtain ⟨logs, view, hloads⟩ := loadsAs_of_snapshot hviews hsnapshot
    split at h
    · cases h
    · rename_i hprevious
      rw [refuse_eq_ok, Bool.not_eq_false] at h
      exact ⟨hshape.2.2, logs, view, [], .genesis hloads hshape.2.2 hprevious h⟩
  | succ generation ih =>
    obtain ⟨_, hshape, h⟩ := of_seq h
    obtain ⟨⟨⟩, hsnapshot, h⟩ := of_seq h
    rw [refuse_eq_ok, not_or, not_or, not_not, not_not] at hshape
    obtain ⟨logs, view, hloads⟩ := loadsAs_of_snapshot hviews hsnapshot
    split at h
    · rename_i previousHash hprevious
      obtain ⟨previous, hread, ⟨⟩, -, ⟨⟩, -, h⟩ := of_seq₃ h
      obtain ⟨⟨⟩, hprefix, h⟩ := of_seq h
      obtain ⟨hgeneration, logs', view', rest, hrest⟩ := ih h
      have hloads' : LoadsAs P st previous logs' view' := by
        cases hrest with
        | genesis hl => exact hl
        | link hl => exact hl
      refine ⟨hshape.2.2, logs, view, ⟨previousHash, previous, logs', view'⟩ :: rest, ?_⟩
      refine .link hloads ?_ hprevious hread (rootExtends_of_logs hloads hloads' hprefix) hrest
      rw [hshape.2.2, hgeneration]
    · cases h

section

variable {x : LoadedRoot} {rest : List LoadedRoot}

variable {l : List LoadedRoot}

theorem RootChain.loads (h : RootChain P st l) : ∀ y ∈ l, LoadsAs P st y.root y.logs y.view := by
  induction h with
  | genesis hl _ _ _ =>
    intro y hy
    cases mem_singleton.mp hy
    exact hl
  | link hl _ _ _ _ _ ih =>
    intro y hy
    rcases mem_cons.mp hy with rfl | hy
    · exact hl
    · exact ih y hy

section

variable (h : RootChain P st (x :: rest))
include h

/-- Following the previous root from the newest one visits exactly the chain. -/
theorem RootChain.linked :
    Linked (readHashedObject P.root st) (·.previousRootHash) x.root.previousRootHash
      (rest.map fun y => (y.hash, y.root)) := by
  induction rest generalizing x with
  | nil =>
    cases h with
    | genesis _ _ hprevious _ =>
      rw [hprevious]
      exact .nil
  | cons y rest ih =>
    cases h with
    | link _ _ hprevious hread _ hrest =>
      rw [hprevious]
      exact .cons hread (ih hrest)

theorem RootChain.generations : (x :: rest).map (·.root.generation) = (List.range (x.root.generation + 1)).reverse := by
  induction rest generalizing x with
  | nil =>
    cases h with
    | genesis _ hgeneration _ _ => simp [hgeneration]
  | cons y rest ih =>
    cases h with
    | link _ hgeneration _ _ _ hrest =>
      rw [map_cons, ih hrest, hgeneration, range_succ (n := y.root.generation + 1), reverse_append]
      rfl

theorem RootChain.generation_le {y : LoadedRoot} (hy : y ∈ x :: rest) : y.root.generation ≤ x.root.generation := by
  have hmem : y.root.generation ∈ (x :: rest).map (·.root.generation) := mem_map_of_mem hy
  rw [h.generations, mem_reverse, mem_range] at hmem
  omega

end

theorem RootChain.ends (h : RootChain P st l) : ∃ y, l.getLast? = some y ∧ isGenesisRoot y.root = true := by
  induction h with
  | @genesis x _ _ _ hgenesis => exact ⟨x, rfl, hgenesis⟩
  | link _ _ _ _ _ _ ih =>
    obtain ⟨y, hy, hgenesis⟩ := ih
    exact ⟨y, by rw [getLast?_cons_cons]; exact hy, hgenesis⟩

theorem RootChain.extends (h : RootChain P st l) : l.IsChain fun later earlier => earlier.logs.Prefix later.logs := by
  induction h with
  | genesis => exact .singleton _
  | link _ _ _ _ hextends _ ih => exact .cons_cons hextends.logs ih

/-- A migration belongs to all roots but the first. -/
theorem RootChain.migration (h : RootChain P st l) {manifestHash : String} :
    ∀ y ∈ l, y.root.migrationManifestHash = some manifestHash →
      0 < y.root.generation ∧ ∀ z ∈ l, 0 < z.root.generation → z.root.migrationManifestHash = some manifestHash := by
  induction h with
  | genesis _ hgeneration _ hgenesis =>
    intro y hy hsome
    cases mem_singleton.mp hy
    simp [isGenesisRoot, hsome] at hgenesis
  | @link x previous rest _ hgeneration _ _ hextends hrest ih =>
    -- the newest root has the hash exactly when the one before it has it, or is the first
    have hnewest : x.root.migrationManifestHash = some manifestHash →
        ∀ z ∈ previous :: rest, 0 < z.root.generation → z.root.migrationManifestHash = some manifestHash := by
      intro hsome z hz hpositive
      cases hprevious : previous.root.migrationManifestHash with
      | none =>
        have hzero := hextends.introduced hprevious (by rw [hsome]; rfl)
        have hle := hrest.generation_le hz
        omega
      | some hash =>
        have hsame := hextends.kept (by rw [hprevious]; rfl)
        rw [hprevious, hsome] at hsame
        rw [← hsame] at hprevious
        exact (ih previous mem_cons_self hprevious).2 z hz hpositive
    intro y hy hsome
    rcases mem_cons.mp hy with rfl | hy'
    · refine ⟨by omega, fun z hz hpositive => ?_⟩
      rcases mem_cons.mp hz with rfl | hz
      · exact hsome
      · exact hnewest hsome z hz hpositive
    · refine ⟨(ih y hy' hsome).1, fun z hz hpositive => ?_⟩
      rcases mem_cons.mp hz with rfl | hz
      · have hle := hrest.generation_le hy'
        have hpositive' := (ih y hy' hsome).1
        have hprevious := (ih y hy' hsome).2 previous mem_cons_self (by omega)
        rw [hextends.kept (by rw [hprevious]; rfl)]
        exact hprevious
      · exact (ih y hy' hsome).2 z hz hpositive

end

/-! ## Loading -/

/-- What a successful load has established of the store: following the previous roots from the active one
visits `older`, newest first. -/
structure SoundLoad (P : LedgerPlatform) (st : LedgerStorage) (s : LedgerState) (active : LoadedRoot)
    (older : List LoadedRoot) : Prop where
  state : s = ⟨false, some active.hash, some active.root, some active.view, active.logs.revisions,
    active.logs.policies, active.logs.relations⟩
  stored : readHashedObject P.root st active.hash = .ok active.root
  visited : Linked (readHashedObject P.root st) (·.previousRootHash) active.root.previousRootHash
    (older.map fun y => (y.hash, y.root))
  generations : (active :: older).map (·.root.generation) = (List.range (active.root.generation + 1)).reverse
  genesis : ∃ first, (active :: older).getLast? = some first ∧ isGenesisRoot first.root = true
  /-- The logs and the view of every root are those stored for it, and the view is rebuilt from the logs. -/
  views : ∀ y ∈ active :: older, LoadsAs P st y.root y.logs y.view
  prefixes : (active :: older).IsChain fun later earlier => earlier.logs.Prefix later.logs
  migration : ∀ y ∈ active :: older, ∀ manifestHash, y.root.migrationManifestHash = some manifestHash →
    0 < y.root.generation ∧ ∀ z ∈ active :: older, 0 < z.root.generation →
      z.root.migrationManifestHash = some manifestHash

/-- What `loadState` has read and checked when it succeeds. -/
structure Loaded (P : LedgerPlatform) (st : LedgerStorage) (s : LedgerState) (hash : String) (root : LedgerRoot)
    (logs : Logs) (view : CurrentView) : Prop where
  state : s = ⟨false, some hash, some root, some view, logs.revisions, logs.policies, logs.relations⟩
  stored : readHashedObject P.root st hash = .ok root
  verified : verifyRootHash P root hash = .ok ()
  chain : validateRootChain P st root.generation [] hash root = .ok ()
  loads : LoadsAs P st root logs view
  validRevisions : validateRevisions P.toPlatform logs.revisions = .ok ()
  validPolicies : validatePolicies P.toPlatform logs.policies logs.revisions = .ok ()

theorem loaded_of_ok (hviews : FaithfulViews P) {s : LedgerState} (h : loadState P st = .ok s) :
    ∃ hash root logs view, Loaded P st s hash root logs view := by
  obtain ⟨pointerBytes, -, pointer, -, canonical, -, h⟩ := of_seq₃ h
  obtain ⟨_, -, _, -, root, hroot, h⟩ := of_seq₃ h
  obtain ⟨⟨⟩, hverified, _, -, ⟨⟩, hchain, h⟩ := of_seq₃ h
  obtain ⟨view, hview, ⟨⟩, -, revisions, hrevisions, h⟩ := of_seq₃ h
  obtain ⟨policies, hpolicies, relations, hrelations, ⟨⟩, hvalid, h⟩ := of_seq₃ h
  obtain ⟨⟨⟩, hvalid', ⟨⟩, -, rebuilt, hrebuilt, h⟩ := of_seq₃ h
  obtain ⟨_, hmatch, bytes, hbytes, _, hbytes', h⟩ := of_seq₃ h
  obtain ⟨_, hsame, h⟩ := of_seq h
  cases h
  rw [refuse_eq_ok, Bool.not_eq_false] at hmatch
  rw [refuse_eq_ok, not_not] at hsame
  subst hsame
  rw [jcs_eq_ok] at hbytes hbytes'
  obtain rfl := view_eq_rebuilt hviews hrevisions hpolicies hvalid hvalid' hrebuilt hmatch hbytes hbytes'
  exact ⟨_, root, ⟨revisions, policies, relations⟩, view, rfl, hroot, hverified, hchain,
    ⟨hrevisions, hpolicies, hrelations, hview, hrebuilt⟩, hvalid, hvalid'⟩

theorem LoadsAs.unique {logs logs' : Logs} {view view' : CurrentView} (h : LoadsAs P st root logs view)
    (h' : LoadsAs P st root logs' view') : logs = logs' ∧ view = view' := by
  obtain ⟨_, _, _⟩ := logs
  cases h.revisions.symm.trans h'.revisions
  cases h.policies.symm.trans h'.policies
  cases h.relations.symm.trans h'.relations
  exact ⟨rfl, Except.ok.inj (h.stored.symm.trans h'.stored)⟩

theorem soundLoad_of_ok (hviews : FaithfulViews P) {s : LedgerState} (h : loadState P st = .ok s) :
    ∃ active older, SoundLoad P st s active older := by
  obtain ⟨hash, root, logs, view, h⟩ := loaded_of_ok hviews h
  obtain ⟨-, logs', view', older, hchain⟩ := rootChain_of_validate hviews h.chain
  -- the logs and the view of the active root are read twice, from the same store
  obtain ⟨rfl, rfl⟩ := h.loads.unique (hchain.loads _ mem_cons_self)
  exact ⟨_, older, h.state, h.stored, hchain.linked, hchain.generations, hchain.ends, hchain.loads, hchain.extends,
    fun y hy _ => hchain.migration y hy⟩

/-- The loops over the segments of one log end, from any head. -/
def LoopsEnd {α : Type} (P : LedgerPlatform) (codec : Serde (Segment α)) (kind : LogKind) (st : LedgerStorage) : Prop :=
  (∀ head, Walks (readSegment P codec kind st) (·.previousSegmentHash) (.invalid "segment_cycle") [] head
    (walk (readSegment P codec kind st) (·.previousSegmentHash) (.invalid "segment_cycle") (st.keys.length + 1) []
      head)) ∧
  ∀ current previous, Searches (readSegment P codec kind st) (·.previousSegmentHash) previous [] current
    (headExtends P codec kind st current (some previous))

theorem loopsEnd {α : Type} {codec : Serde (Segment α)} {kind : LogKind} : LoopsEnd P codec kind st :=
  ⟨fun _ => walks_walk fun _ _ => mem_keys_of_readSegment,
    fun _ _ => searches_reaches fun _ _ => mem_keys_of_readSegment⟩

/-- Loading is sound on any content of the store, and it ends: the loops over segments end by themselves, and
the loop over roots counts the generation down. -/
theorem loadState_sound (hviews : FaithfulViews P) (st : LedgerStorage) :
    (∀ s, loadState P st = .ok s → ∃ active older, SoundLoad P st s active older) ∧
      LoopsEnd P P.revisionSegment .revision st ∧ LoopsEnd P P.policySegment .policy st ∧
      LoopsEnd P P.relationSegment .relation st :=
  ⟨fun _ => soundLoad_of_ok hviews, loopsEnd, loopsEnd, loopsEnd⟩

theorem RunObjects.Distinct.faithfulViews {o : RunObjects} (h : o.Distinct) : FaithfulViews o.platform :=
  fun _ w _ hv hw _ _ _ _ =>
    eq_of_toVec_eq hv hw (Serde.listed_roundTrips h.views _) (Serde.listed_roundTrips h.views w)

/-- The vault of the sample run loads, so its chain is sound: two roots, the newer one with one revision. -/
theorem loadState_sound_sample :
    (runCommits sampleObjects.platform sampleLedger [(sampleCall, sampleInputs)]).state.revisions.length = 1 ∧
      ∃ active older, SoundLoad sampleObjects.platform
        (runCommits sampleObjects.platform sampleLedger [(sampleCall, sampleInputs)]).storage
        (runCommits sampleObjects.platform sampleLedger [(sampleCall, sampleInputs)]).state active older := by
  obtain ⟨hlength, hlive⟩ := sample_committed
  have hdurable := (durable_new sampleObjects_distinct.genesisRoundTrips sampleLedger_eq).2.run
    (sampleObjects_distinct.runRoundTrips _ [(sampleCall, sampleInputs)])
  exact ⟨hlength, (loadState_sound sampleObjects_distinct.faithfulViews _).1 _ (hdurable.loadState hlive)⟩

end Plico.Ledger
