import Plico.Framework.Run
import Plico.Proof.Layered.Agreement
import Plico.Proof.Ledger.Concurrency

/-!
# What the runtime shows

From the agreement of runtime and ledger: the active entries of a role and a tier are the heads of the
live streams the role started (`runOps_activeHeads`), and a restart, which opens the storage again, brings
back the same entries as long as each delete reads one time and the objects of each commit are decoded as
they were (`restart_keeps_entries`).
-/

namespace Plico.Layered

open List Ledger LayeredMemory

variable {P : LedgerPlatform} {timed : Prop} {role : String}

theorem map_eq_of_forall₂ {α β γ : Type} {R : α → β → Prop} {f : α → γ} {g : β → γ} (hfg : ∀ a b, R a b → f a = g b)
    {as : List α} {bs : List β} (h : List.Forall₂ R as bs) : as.map f = bs.map g := by
  induction h with
  | nil => rfl
  | cons hr _ ih => rw [map_cons, map_cons, hfg _ _ hr, ih]

/-! ## Active entries -/

/-- The revisions of a list that no revision of it follows and that are no tombstones. -/
def liveHeads (rs : List CanonicalRevision) : List CanonicalRevision :=
  rs.filter fun r => r.revisionId ∉ rs.filterMap (·.parentRevisionId) ∧ r.deletedAt = none

/-- The active entries are those of the live heads. -/
theorem activeRevisions_ids {es : List MemoryEntry} {rs : List CanonicalRevision}
    (h : List.Forall₂ (Agrees timed role) es rs) :
    (activeRevisions es).map (·.id) = (liveHeads rs).map (·.revisionId) := by
  have hparents : es.filterMap (·.parentRevisionId) = rs.filterMap (·.parentRevisionId) := by
    have hmap := map_eq_of_forall₂
      (fun _ _ hr => hr.parentRevisionId) h
    have hid := congrArg (List.filterMap id) hmap
    rwa [filterMap_map, filterMap_map] at hid
  refine map_eq_of_forall₂ (R := Agrees timed role) (fun _ _ hr => hr.id) ?_
  refine rel_filter (fun e r hr => ?_) h
  have hdel : e.deletedAt = none ↔ r.deletedAt = none := by
    rw [← Option.isNone_iff_eq_none, ← Option.isNone_iff_eq_none, ← Option.not_isSome, ← Option.not_isSome, hr.deleted]
  simp only [decide_eq_true_eq]
  rw [hparents, hr.id, hdel, and_iff_left hr.supersededBy]

theorem exists_next {α : Type} {R : α → α → Prop} {l : List α} (h : l.IsChain R) {a : α} (ha : a ∈ l)
    (hlast : l.getLast? ≠ some a) : ∃ b ∈ l, R a b := by
  obtain ⟨pre, post, rfl⟩ := append_of_mem ha
  cases post with
  | nil => simp at hlast
  | cons b post =>
    have htail := (isChain_append.mp h).2.1
    exact ⟨b, by simp, (isChain_cons_cons.mp htail).1⟩

section

variable {s : LedgerState} {tier : MemoryTier} {r : CanonicalRevision}

theorem mem_originRevisions :
    r ∈ originRevisions s role tier ↔
      r ∈ s.revisions ∧ r.memoryId ∈ originMemories s role ∧ r.cognitiveTier = tier := by
  simp [originRevisions]

/-- Among the revisions of a role and a tier, the live heads are the live heads of whole memories. -/
theorem mem_liveHeads (hs : Sound P s) :
    r ∈ liveHeads (originRevisions s role tier) ↔ r ∈ originRevisions s role tier ∧
      (memoryRevisions s.revisions r.memoryId).getLast? = some r ∧ r.deletedAt = none := by
  unfold liveHeads
  rw [mem_filter, decide_eq_true_eq]
  refine and_congr_right fun hr => and_congr_left fun _ => ?_
  obtain ⟨hmem, horigin, htier⟩ := mem_originRevisions.mp hr
  have hstream : r ∈ memoryRevisions s.revisions r.memoryId := (mem_stream _).mpr ⟨hmem, rfl⟩
  have hchain := memoryChain_of_grown hs.grown r.memoryId
  constructor
  · intro hchild
    by_contra hlast
    obtain ⟨q, hq, hlink⟩ := exists_next hchain.linked hstream hlast
    obtain ⟨hqm, hqid⟩ := (mem_stream _).mp hq
    refine hchild (mem_filterMap.mpr ⟨q, mem_originRevisions.mpr ⟨hqm, ?_, ?_⟩, hlink⟩)
    · rwa [hqid]
    · exact (hchain.tier q hq r hstream).trans htier
  · intro hlast hparent
    obtain ⟨q, hq, hlink⟩ := mem_filterMap.mp hparent
    have hpassed := (parentsUsed_of_grown hs.grown).passed q (mem_originRevisions.mp hq).1 _ hlink r.memoryId
    rw [headIn, hlast] at hpassed
    exact hpassed rfl

end

/-- The entries `get_active_tier` returns for the role and the tier are the heads of the streams of the
view that are not deleted, whose policy names the role as origin and whose head is of the tier. -/
structure ShowsActiveHeads (m : LayeredMemory) (s : LedgerState) (view : CurrentView) (role : String)
    (tier : MemoryTier) : Prop where
  nodup : ((m.getActiveTier role tier).map (·.id)).Nodup
  mem : ∀ id, id ∈ (m.getActiveTier role tier).map (·.id) ↔ ∃ stream ∈ view.streams,
    stream.deleted = false ∧ stream.headRevisionId = id ∧
    (∃ policy ∈ s.policies, policy.policyId = stream.policyId ∧ policy.originRoleId = role) ∧
    (∃ r ∈ s.revisions, r.revisionId = id ∧ r.cognitiveTier = tier)

theorem Agreement.showsActiveHeads {m : LayeredMemory} {l : CASCanonicalLedger} (h : Agreement P timed m l)
    {view : CurrentView} (hview : IsViewOf l.state.revisions l.state.policies view) {tier : MemoryTier}
    (ht : tier ≠ .ephemeral) : ShowsActiveHeads m l.state view role tier := by
  have hids := activeRevisions_ids (h.entries role tier ht)
  have hrn := nodup_of_grown h.sound.grown
  have hpn := policyIds_nodup (validatePolicies_grown h.sound.policies)
  refine ⟨?_, fun id => ?_⟩
  · rw [getActiveTier, hids]
    exact hrn.sublist ((filter_sublist.trans filter_sublist).map _)
  rw [getActiveTier, hids, mem_map]
  constructor
  · rintro ⟨r, hr, rfl⟩
    obtain ⟨hmem, hlast, hlive⟩ := (mem_liveHeads h.sound).mp hr
    obtain ⟨hrm, horigin, htier⟩ := mem_originRevisions.mp hmem
    obtain ⟨p, hp, hrole⟩ := mem_originMemories.mp horigin
    have honly : memoryPolicies l.state.policies r.memoryId = [p] := by
      have hgov := h.governed r.memoryId
      generalize memoryRevisions l.state.revisions r.memoryId = rs at hgov
      generalize memoryPolicies l.state.policies r.memoryId = ps at hgov hp
      cases hgov with
      | absent => cases hp
      | present => rw [mem_singleton.mp hp]
    refine ⟨⟨r.memoryId, r.revisionId, r.deletedAt.isSome, p.policyId⟩, ?_, by rw [hlive]; rfl, rfl,
      ⟨p, ((mem_stream _).mp hp).1, rfl, hrole⟩, ⟨r, hrm, rfl, htier⟩⟩
    exact (hview.mem _).mpr ⟨r, p, hlast, by rw [honly]; rfl, rfl⟩
  · rintro ⟨stream, hstream, hdel, hhead, ⟨p, hpm, hpid, hrole⟩, ⟨q, hqm, hqid, htier⟩⟩
    obtain ⟨r, policy, hlast, hpolicy, he⟩ := (hview.mem stream).mp hstream
    obtain ⟨hrm, hrmem⟩ := (mem_stream _).mp (mem_of_getLast? hlast)
    have hrid : r.revisionId = id := by rw [← hhead, he]
    obtain rfl : q = r := eq_of_revisionId_eq hrn hqm hrm (hqid.trans hrid.symm)
    have hpolm := mem_of_getLast? hpolicy
    obtain rfl : p = policy := inj_on_of_nodup_map hpn hpm ((mem_stream _).mp hpolm).1 (by rw [hpid, he])
    refine ⟨q, (mem_liveHeads h.sound).mpr ⟨mem_originRevisions.mpr ⟨hrm, ?_, htier⟩, ?_, ?_⟩, hrid⟩
    · rw [hrmem]
      exact mem_originMemories.mpr ⟨p, hpolm, hrole⟩
    · rw [hrmem]
      exact hlast
    · rw [he] at hdel
      simpa using hdel

/-- After any run of operations, whichever commits fail, what the runtime shows as active is what the
ledger's current view shows. -/
theorem runOps_activeHeads (P : LedgerPlatform) (st : LedgerStorage) (rootHash viewHash : String) (ops : List Op) :
    ∃ l view, (runOps P (.new ⟨st, .genesis rootHash viewHash⟩) ops).ledger = some l ∧ l.state.view = some view ∧
      ∀ role tier, tier ≠ .ephemeral →
        ShowsActiveHeads (runOps P (.new ⟨st, .genesis rootHash viewHash⟩) ops) l.state view role tier := by
  obtain ⟨l, h⟩ := agreement_new.run ops False.elim
  obtain ⟨view, hv, hview⟩ := h.sound.isViewOf
  exact ⟨l, view, h.ledger, hv, fun _ _ => h.showsActiveHeads hview⟩

/-! ## Restart -/

/-- The fields of an entry that make up what the memory says. -/
structure SameEntry (e e' : MemoryEntry) : Prop where
  id : e.id = e'.id
  memoryId : e.memoryId = e'.memoryId
  parentRevisionId : e.parentRevisionId = e'.parentRevisionId
  content : e.content = e'.content
  canonicalContentHash : e.canonicalContentHash = e'.canonicalContentHash
  agentId : e.agentId = e'.agentId
  tier : e.tier = e'.tier
  tags : e.tags = e'.tags
  memoryType : e.memoryType = e'.memoryType
  createdAt : e.createdAt = e'.createdAt
  deletedAt : e.deletedAt = e'.deletedAt

/-- The runtime that a restart builds over the storage, with one role restored. -/
def restarted (P : LedgerPlatform) (st : LedgerStorage) (role : String) : Except LedgerError LayeredMemory :=
  (CASCanonicalLedger.new P st).map fun l => (LayeredMemory.new l).restoreAgent role

/-- Decoding gives back the objects of the commit that the operation makes. -/
def Op.RoundTrips (P : LedgerPlatform) (m : LayeredMemory) (op : Op) : Prop :=
  ∀ (l l' : CASCanonicalLedger) (call : CommitCall) (inputs : CommitInputs) (c : PreparedCommit),
    m.ledger = some l → (op.run P m).ledger = some l' →
    prepareCommit P l.state call.roleId call.tier call.revisions call.expectedHeads inputs = .ok c →
    l'.state = c.apply l.state → CommitRoundTrips P l.state c

/-- Restart brings back the entries of every role and tier, in runs whose deletes read one time and whose commits are
decoded as they were, if the last commit was not left unsynced. -/
theorem restart_keeps_entries {P : LedgerPlatform} {l₀ : CASCanonicalLedger}
    (hopen : CASCanonicalLedger.new P .empty = .ok l₀) (hgenesis : GenesisRoundTrips P) (ops : List Op)
    (hops : Throughout (Op.run P) (fun m op => op.ReadsOneClock ∧ op.RoundTrips P m) (.new l₀) ops) :
    ∃ l, (runOps P (.new l₀) ops).ledger = some l ∧ (l.state.poisoned = false → ∀ role tier, tier ≠ .ephemeral →
      ∃ m, restarted P l.storage role = .ok m ∧
        List.Forall₂ SameEntry ((runOps P (.new l₀) ops).getTier role tier) (m.getTier role tier)) := by
  obtain ⟨⟨rootHash, viewHash, hstate⟩, hdurable⟩ := durable_new hgenesis hopen
  have hnew : Agreement P True (.new l₀) l₀ := by
    obtain ⟨st, s⟩ := l₀
    subst hstate
    exact agreement_new
  obtain ⟨l, h, hstored⟩ : ∃ l, Agreement P True (runOps P (.new l₀) ops) l ∧ Durable P l := by
    refine hops.invariant (I := fun m => ∃ l, Agreement P True m l ∧ Durable P l) ?_ ⟨l₀, hnew, hdurable⟩
    rintro m op ⟨l, h, hstored⟩ ⟨hclock, htrips⟩
    obtain ⟨l', h', rfl | ⟨call, inputs, rfl⟩⟩ := h.step op fun _ => hclock
    · exact ⟨l', h', hstored⟩
    · exact ⟨_, h', hstored.step fun c hc hstate => htrips l _ call inputs c h.ledger h'.ledger hc hstate⟩
  refine ⟨l, h.ledger, fun hlive role tier ht => ⟨_, by rw [restarted, hstored.reopen hlive]; rfl, ?_⟩⟩
  rw [getTier_restoreAgent rfl ht, if_pos rfl, forall₂_map_right_iff]
  refine (h.entries role tier ht).imp fun e r hr => ?_
  exact { hr with deletedAt := hr.deletedAt trivial }

/-! ## A delete

Role `role-a` creates a memory and deletes it. The ledger commits the tombstone at 1700000000002; the
runtime builds it at the same millisecond, or one before. -/

def sampleEntry : MemoryEntry :=
  sampleRevision.intoRuntimeEntry "role-a"

def tombstoneId : MemoryRevisionId := "33333333-3333-4333-8333-333333333333"

def tombstoneInputs : CommitInputs :=
  { sampleInputs with now := 1700000000002 }

/-- The ledger after the create. -/
def createdState : LedgerState :=
  { sampleGenesis with
    rootHash := some sampleRoot.2
    root := some sampleRoot.1
    view := some sampleView.1
    revisions := sampleRevisions.1.records
    policies := samplePolicies.1.records }

def tombstoneRevisions : Segment CanonicalRevision × String :=
  (revisionSegmentOf createdState [stamp "role-a" tombstoneInputs.now 2
      { sampleRevision with
        revisionId := tombstoneId
        parentRevisionId := some sampleMemory
        deletedAt := some tombstoneInputs.now }],
    "d62d1a14bf81bbd8821b8541c3dc3ff267212368de10b6782285671c7ff2beb3")

def tombstoneView : CurrentView × String :=
  ({ sampleView.1 with
      generation := 2
      revisionWatermark := 2
      streams := [⟨sampleMemory, tombstoneId, true, sampleInputs.policyIds 0⟩] },
    "334c703b79974ca2be9de1459d943e55a6a2ab9c69f1f5e16e12c1cb0a0ef56e")

def tombstoneRoot : LedgerRoot × String :=
  (candidateRoot createdState "role-a" tombstoneInputs.now 2 tombstoneRevisions.2 2 none tombstoneView.2,
    "19f235e0616823b08ea9e67319c9b317b9efb510e82676311b4850336503f556")

def tombstoneObjects : RunObjects :=
  { sampleObjects with
    revisionSegments := sampleObjects.revisionSegments ++ [tombstoneRevisions.1]
    roots := sampleObjects.roots ++ [tombstoneRoot.1]
    views := sampleObjects.views ++ [tombstoneView.1]
    pointers := sampleObjects.pointers ++ [activePointer tombstoneRoot.2]
    digests := sampleObjects.digests ++
      [(utf8 segmentDomain ++ tombstoneRevisions.1.json CanonicalRevision.json, tombstoneRevisions.2),
       (utf8 viewDomain ++ tombstoneView.1.json, tombstoneView.2),
       (utf8 rootDomain ++ tombstoneRoot.1.json, tombstoneRoot.2)] }

/-- Create the sample memory, then delete it with a tombstone built at `now`. -/
def createThenDelete (now : Nat) : List Op :=
  [.createWorking sampleEntry 0 sampleInputs,
    .delete "role-a" defaultTenant sampleMemory tombstoneId now tombstoneInputs]

def afterDelete (now : Nat) : LayeredMemory :=
  runOps tombstoneObjects.platform (.new tombstoneObjects.opened) (createThenDelete now)

theorem tombstoneObjects_distinct : tombstoneObjects.Distinct := by
  constructor <;> decide +kernel

theorem restart_keeps_entries_sample :
    ((afterDelete 1700000000002).getTier "role-a" .working).map (·.deletedAt) = [none, some 1700000000002] ∧
      ∃ l, (afterDelete 1700000000002).ledger = some l ∧ ∀ role tier, tier ≠ .ephemeral →
        ∃ m, restarted tombstoneObjects.platform l.storage role = .ok m ∧
          List.Forall₂ SameEntry ((afterDelete 1700000000002).getTier role tier) (m.getTier role tier) := by
  have htrips (m : LayeredMemory) (op : Op) : op.RoundTrips tombstoneObjects.platform m :=
    fun l _ _ _ c _ _ _ _ => tombstoneObjects_distinct.commitRoundTrips l.state c
  obtain ⟨l, hl, hkept⟩ := restart_keeps_entries (tombstoneObjects.opened_eq (by decide +kernel))
    tombstoneObjects_distinct.genesisRoundTrips (createThenDelete 1700000000002)
    ⟨⟨trivial, htrips _ _⟩, ⟨rfl, htrips _ _⟩, trivial⟩
  have hlive : (afterDelete 1700000000002).ledger.map (·.state.poisoned) = some false := by decide +kernel
  rw [show (afterDelete 1700000000002).ledger = some l from hl] at hlive
  exact ⟨by decide +kernel, l, hl, hkept (Option.some.inj hlive)⟩

/-- The runtime holds one deletion time and a restart the other. -/
theorem restart_changes_deletedAt :
    ((afterDelete 1700000000001).getTier "role-a" .working).map (·.deletedAt) = [none, some 1700000000001] ∧
      ((afterDelete 1700000000001).ledger.map fun l =>
        (restarted tombstoneObjects.platform l.storage "role-a").toOption.map fun m =>
          (m.getTier "role-a" .working).map (·.deletedAt)) = some (some [none, some 1700000000002]) := by
  decide +kernel

end Plico.Layered
