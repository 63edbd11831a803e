import Plico.Proof.Migrate.Plan

/-!
# The ledger accepts the planned records

The records of `planned` pass the checks of a ledger: the revisions are chains (`planned_grown`), the policies are
admitted and succeed one another (`validatePolicies_planned`). What this needs of the ids that the planner derives is
`FreshIds`: they collide neither with one another nor with the ids of the legacy entries.
-/

namespace Plico.Migrate

open Migrate.Stream Draft List Plico.Ledger

variable {entry : LegacyMemoryEntry}

/-- The derived ids are new. -/
structure FreshIds (P : MigratePlatform) (hash : String) (entries : List LegacyMemoryEntry) : Prop where
  tombstones : ∀ a ∈ entries, ∀ b ∈ entries, tombstoneId P hash a = tombstoneId P hash b → a.id = b.id
  revisions : ∀ a ∈ entries, ∀ b ∈ entries, tombstoneId P hash a ≠ b.id
  policies : ∀ a ∈ entries, ∀ b ∈ entries, ∀ i j, i ≤ entries.length → j ≤ entries.length →
    deterministicMigrationPolicyId P.toLedgerPlatform hash a.id i =
      deterministicMigrationPolicyId P.toLedgerPlatform hash b.id j → i = j

/-- What the planned records rest on. -/
structure Ready (P : MigratePlatform) (input : MigrationPlanInput) (hash : String) (streams : List Stream) : Prop where
  split : Streams input.preflight.entries streams
  reported : input.preflight.streams = streams.map report
  entryCount : input.preflight.entryCount = input.preflight.entries.length
  streamCount : input.preflight.streamCount = streams.length
  unique : (input.preflight.entries.map (·.id)).Nodup
  plannable : ∀ entry ∈ input.preflight.entries, Plannable P input.preflight entry
  named : ∀ entry ∈ input.preflight.entries, isBlank entry.id = false ∧ isBlank entry.agentId = false
  uuids : ∀ entry ∈ input.preflight.entries, (P.parseUuid entry.id).isSome
  derived : ∀ id, (P.parseUuid (P.hyphenated id)).isSome
  encoded : ∀ entry ∈ input.preflight.entries, (P.content.toVec entry.content).isSome
  snapshots : ∀ entry ∈ input.preflight.entries,
    entry.agentId ∈ input.preflight.sourceSnapshots.map (·.legacyAgentId)
  roles : (input.preflight.roleMappings.map (·.legacyAgentId)).Nodup
  groups : (input.preflight.groupMappings.map (·.legacyGroupId)).Nodup
  actor : input.importedByRole = personalOwnerRoleId
  time : input.importedAt ≠ 0
  digest : isLowerHash hash
  size : 2 * input.preflight.entries.length ≤ u64Max
  fresh : FreshIds P hash input.preflight.entries

variable {P : MigratePlatform} {input : MigrationPlanInput} {hash : String} {streams : List Stream} {stream : Stream}

/-! ## Drafts -/

variable {memoryId : String} {parent : Option String} {entries : List LegacyMemoryEntry} {d : Draft}
  {r : CanonicalRevision} {m : Nat}

theorem mem_chainDrafts (h : d ∈ chainDrafts memoryId parent entries) :
    d.entry ∈ entries ∧ d.memoryId = memoryId ∧ d.revisionId = d.entry.id ∧ d.tombstone = false := by
  induction entries generalizing parent with
  | nil => cases h
  | cons entry entries ih =>
    rcases mem_cons.mp h with rfl | h
    · exact ⟨by simp, rfl, rfl, rfl⟩
    · obtain ⟨hentry, hrest⟩ := ih h
      exact ⟨by simp [hentry], hrest⟩

theorem mem_tombstone (h : d ∈ stream.tombstone P hash) :
    d = ⟨stream.head, stream.1.id, tombstoneId P hash stream.head, some stream.head.id, true⟩ ∧
      stream.head.deletedAt.isSome := by
  unfold Stream.tombstone at h
  split at h
  · exact ⟨mem_singleton.mp h, ‹_›⟩
  · cases h

/-- A draft of a stream imports one of its entries or is its tombstone. -/
theorem mem_drafts (h : d ∈ stream.drafts P hash) :
    d.entry ∈ stream.entries ∧ d.memoryId = stream.1.id ∧
      (d.revisionId = d.entry.id ∨ d.revisionId = tombstoneId P hash stream.head) := by
  rcases mem_append.mp h with h | h
  · obtain ⟨hentry, hmemory, hid, -⟩ := mem_chainDrafts h
    exact ⟨hentry, hmemory, .inl hid⟩
  · obtain ⟨rfl, -⟩ := mem_tombstone h
    exact ⟨head_mem stream, rfl, .inr rfl⟩

theorem map_chainDrafts : (chainDrafts memoryId parent entries).map (·.revisionId) = entries.map (·.id) := by
  induction entries generalizing parent with
  | nil => rfl
  | cons entry entries ih => simp [chainDrafts, ih]

theorem map_drafts : (stream.drafts P hash).map (·.revisionId) =
    stream.entries.map (·.id) ++ (stream.tombstone P hash).map (·.revisionId) := by
  rw [drafts, map_append, map_chainDrafts]

/-- What the streams of a checked input are migrated to. -/
abbrev Ready.plan (_ : Ready P input hash streams) : Planned := planned P input hash streams

namespace Ready

variable (h : Ready P input hash streams)

include h

theorem mem_entries (hs : stream ∈ streams) (he : entry ∈ stream.entries) : entry ∈ input.preflight.entries :=
  (mem_entries_iff h.split).mpr ⟨stream, hs, he⟩

theorem head_mem (hs : stream ∈ streams) : stream.head ∈ input.preflight.entries :=
  h.mem_entries hs (Migrate.head_mem stream)

theorem roots_nodup : (streams.map fun stream => stream.1.id).Nodup := by
  have hsub := (roots_sublist streams).map (·.id)
  rw [map_map] at hsub
  exact hsub.nodup (ids_nodup h.unique h.split)

theorem entry_ids_nodup : (streams.flatMap fun stream => stream.entries.map (·.id)).Nodup := by
  rw [← map_flatMap]
  exact ids_nodup h.unique h.split

/-- No two drafts have one revision id. -/
theorem draft_ids_nodup : ((streams.flatMap (drafts P hash)).map (·.revisionId)).Nodup := by
  obtain ⟨hself, hother⟩ := nodup_flatMap.mp h.entry_ids_nodup
  rw [map_flatMap, nodup_flatMap]
  constructor
  · intro stream hs
    rw [map_drafts, nodup_append]
    refine ⟨hself stream hs, ?_, fun a ha b hb => ?_⟩
    · rw [Stream.tombstone]
      split <;> simp
    · obtain ⟨entry, he, rfl⟩ := mem_map.mp ha
      obtain ⟨d, hd, rfl⟩ := mem_map.mp hb
      obtain ⟨rfl, -⟩ := mem_tombstone hd
      exact (h.fresh.revisions _ (h.head_mem hs) _ (h.mem_entries hs he)).symm
  · refine hother.imp_of_mem fun {s t} hs ht hdisjoint id hids hidt => ?_
    obtain ⟨d, hd, rfl⟩ := mem_map.mp hids
    obtain ⟨e, he, heq⟩ := mem_map.mp hidt
    obtain ⟨hdm, -, hd⟩ := mem_drafts hd
    obtain ⟨hem, -, he⟩ := mem_drafts he
    rcases hd with hd | hd <;> rcases he with he | he <;> rw [hd, he] at heq
    · exact hdisjoint (mem_map_of_mem hdm) (heq ▸ mem_map_of_mem hem)
    · exact h.fresh.revisions _ (h.head_mem ht) _ (h.mem_entries hs hdm) heq
    · exact h.fresh.revisions _ (h.head_mem hs) _ (h.mem_entries ht hem) heq.symm
    · have hid := h.fresh.tombstones _ (h.head_mem ht) _ (h.head_mem hs) heq
      exact hdisjoint (mem_map_of_mem (Migrate.head_mem s)) (hid ▸ mem_map_of_mem (Migrate.head_mem t))

end Ready

/-! ## Revisions -/

/-- One draft may follow another in the log of its memory. -/
structure DraftFollows (a b : Draft) : Prop where
  link : b.parentRevisionId = some a.revisionId
  tier : b.entry.tier = a.entry.tier
  live : a.tombstone = false
  repeats : b.tombstone = true → b.entry = a.entry

theorem isChain_chainDrafts (h : entries.IsChain Precedes) :
    (chainDrafts memoryId parent entries).IsChain DraftFollows := by
  induction entries generalizing parent with
  | nil => simp [chainDrafts]
  | cons entry entries ih =>
    cases entries with
    | nil => simp [chainDrafts]
    | cons next entries =>
      rw [isChain_cons_cons] at h
      simp only [chainDrafts, isChain_cons_cons]
      exact ⟨⟨rfl, h.1.tier.symm, rfl, by simp⟩, ih h.2⟩

theorem getLast?_chainDrafts (h : (chainDrafts memoryId parent entries).getLast? = some d) :
    entries.getLast? = some d.entry ∧ d.revisionId = d.entry.id ∧ d.tombstone = false := by
  refine ⟨?_, (mem_chainDrafts (mem_of_getLast? h)).2.2⟩
  induction entries generalizing parent with
  | nil => cases h
  | cons entry entries ih =>
    cases entries with
    | nil =>
      obtain rfl : mk entry memoryId entry.id parent false = d := by simpa [chainDrafts] using h
      rfl
    | cons next entries =>
      exact ih h

theorem isChain_drafts (h : IsStream stream) : (stream.drafts P hash).IsChain DraftFollows := by
  refine isChain_append.mpr ⟨isChain_chainDrafts h.linked, ?_, fun a ha b hb => ?_⟩
  · rw [Stream.tombstone]
    split <;> simp
  · obtain ⟨rfl, -⟩ := mem_tombstone (mem_of_head? hb)
    obtain ⟨hentry, hid, hlive⟩ := getLast?_chainDrafts ha
    have hhead : stream.head = a.entry := Option.some.inj hentry
    exact ⟨by rw [hid, hhead], by rw [hhead], hlive, fun _ => hhead⟩

theorem DraftFollows.record {a b : Draft} (h : DraftFollows a b)
    (hencoded : (P.content.toVec a.entry.content).isSome) (m n : Nat) :
    Ledger.Follows P.toPlatform (a.record P input m) (b.record P input n) := by
  refine ⟨h.link, h.tier, by simp [h.live], fun hdeleted => ?_⟩
  have htombstone : b.tombstone = true := by
    by_contra hnot
    simp [hnot] at hdeleted
  have hentry := h.repeats htombstone
  obtain ⟨bytes, hbytes⟩ := Option.isSome_iff_exists.mp hencoded
  exact ⟨⟨bytes, by rw [record_content, hentry, hbytes], hbytes⟩, fun _ _ => by
    rw [record_content, hentry, record_content], by
    rw [record_contentHash, hentry, record_contentHash], by
    rw [record_tags, hentry, record_tags], by
    rw [record_memoryType, hentry, record_memoryType]⟩

theorem revisionIds_numbered {n : Nat} {drafts : List Draft} :
    (numbered (record P input) n drafts).map (·.revisionId) = drafts.map (·.revisionId) :=
  map_numbered (record_revisionId P input)

theorem mem_planned (hr : r ∈ (planned P input hash streams).revisions) :
    ∃ stream ∈ streams, ∃ d ∈ stream.drafts P hash, ∃ m, r = d.record P input m := by
  obtain ⟨d, hd, m, -, -, rfl⟩ := mem_numbered hr
  obtain ⟨stream, hs, hd⟩ := mem_flatMap.mp hd
  exact ⟨stream, hs, d, hd, m, rfl⟩

namespace Ready

variable (h : Ready P input hash streams)

include h

/-- The revisions of a memory are those of its stream. -/
theorem memoryRevisions_planned (hs : stream ∈ streams) :
    ∃ m, memoryRevisions h.plan.revisions stream.1.id =
      numbered (record P input) m (stream.drafts P hash) :=
  stream_numbered_flatMap CanonicalRevision.memoryId (fun stream : Stream => stream.1.id)
    (fun _ _ hd _ => (mem_drafts hd).2.1) h.roots_nodup hs 0

/-- The revisions of a memory continue one another. -/
theorem continues_block (hs : stream ∈ streams) :
    Grown (fun pre r => Continues P.toPlatform pre.getLast? r)
      (numbered (record P input) m (stream.drafts P hash)) := by
  refine grown_of_isChain (fun r hr => ?_) (isChain_numbered ?_ m)
  · obtain rfl : record P input ⟨stream.1, stream.1.id, stream.1.id, none, false⟩ (m + 1) = r := by
      simpa [drafts, entries, chainDrafts] using hr
    exact ⟨rfl, rfl, rfl⟩
  · refine (isChain_drafts (h.split.isStream stream hs)).imp_of_mem_imp fun a b ha _ hab m => ?_
    exact hab.record (h.encoded _ (h.mem_entries hs (mem_drafts ha).1)) _ _

theorem revisionIds_nodup : (h.plan.revisions.map (·.revisionId)).Nodup := by
  rw [plan, planned, revisionIds_numbered]
  exact h.draft_ids_nodup

theorem planned_grown : Grown (Admits P.toPlatform) h.plan.revisions := by
  have hcontinues := grown_of_streams CanonicalRevision.memoryId fun r hr => by
    obtain ⟨stream, hs, d, hd, n, rfl⟩ := mem_planned hr
    obtain ⟨m, hm⟩ := h.memoryRevisions_planned hs
    rw [record_memoryId, (mem_drafts hd).2.1, show Plico.stream _ _ _ = _ from hm]
    exact h.continues_block hs
  have hsequence : Grown (fun pre r => r.sequence = pre.length + 1) h.plan.revisions :=
    grown_numbered fun pre d _ => by simp
  intro pre r hr
  have hmem : r ∈ h.plan.revisions := hr.subset (by simp)
  obtain ⟨stream, hs, d, hd, m, rfl⟩ := mem_planned hmem
  obtain ⟨hentry, hmemory, hid⟩ := mem_drafts hd
  have hlegacy := h.mem_entries hs hentry
  obtain ⟨hash', hhash⟩ := (h.plannable _ hlegacy).hashed
  refine ⟨rfl, hsequence pre _ hr, ?_, ?_, ?_, ?_, grown_of_nodup_map h.revisionIds_nodup pre _ hr,
    hcontinues pre _ hr⟩
  · rcases hid with hid | hid
    · rw [record_revisionId, hid]
      exact h.uuids _ hlegacy
    · rw [record_revisionId, hid]
      exact h.derived _
  · rw [record_memoryId, hmemory]
    exact h.uuids _ (h.mem_entries hs mem_cons_self)
  · rw [record_committedByRole, h.actor]
    exact owner_not_blank
  · rw [record_content, record_contentHash, contentHashOf_eq hhash, hhash]

end Ready

/-! ## Policies -/

/-- The entries of a stream belong to one agent. -/
theorem IsStream.agentId (h : IsStream stream) : stream.entries.Pairwise fun a b => a.agentId = b.agentId := by
  have hchain := (isChain_map _).mpr (h.linked.imp fun _ _ hab => hab.agentId)
  exact pairwise_map.mp (isChain_iff_pairwise.mp hchain)

theorem IsStream.agentId_root (h : IsStream stream) (he : entry ∈ stream.entries) :
    entry.agentId = stream.1.agentId := by
  rcases mem_cons.mp he with rfl | he
  · rfl
  · exact ((pairwise_cons.mp h.agentId).1 entry he).symm

/-- Every entry is imported into the memory of its stream. -/
theorem exists_planned (hs : stream ∈ streams) (he : entry ∈ stream.entries) :
    ∃ r ∈ (planned P input hash streams).revisions, r.revisionId = entry.id ∧ r.memoryId = stream.1.id := by
  have hid : entry.id ∈ (stream.drafts P hash).map (·.revisionId) := by
    rw [map_drafts]
    exact mem_append_left _ (mem_map_of_mem he)
  obtain ⟨d, hd, hid⟩ := mem_map.mp hid
  obtain ⟨m, hm⟩ := exists_mem_numbered (mem_flatMap.mpr ⟨stream, hs, hd⟩)
  exact ⟨_, hm, hid, (mem_drafts hd).2.1⟩

theorem mem_policies {p : PolicyRecord} (hp : p ∈ (planned P input hash streams).policies) :
    ∃ stream ∈ streams, ∃ entry ∈ changed none stream.entries, ∃ m, p = policyFrom P input hash
    (stream.1.id, entry) m := by
  obtain ⟨source, hsource, m, -, -, rfl⟩ := mem_numbered hp
  obtain ⟨stream, hs, hsource⟩ := mem_flatMap.mp hsource
  obtain ⟨entry, hentry, rfl⟩ := mem_map.mp hsource
  exact ⟨stream, hs, entry, hentry, m, rfl⟩

namespace Ready

variable (h : Ready P input hash streams)

include h

/-- The policies of a memory are those of its stream. -/
theorem memoryPolicies_planned (hs : stream ∈ streams) :
    ∃ m, Plico.stream (·.memoryId) h.plan.policies stream.1.id =
      numbered (policyFrom P input hash) m stream.changed :=
  stream_numbered_flatMap PolicyRecord.memoryId (fun stream : Stream => stream.1.id)
    (fun _ source hsource _ => by
      obtain ⟨entry, -, rfl⟩ := mem_map.mp hsource
      rfl) h.roots_nodup hs 0

theorem length_entries : (streams.flatMap Stream.entries).length = input.preflight.entries.length :=
  h.split.partition.length_eq

theorem policyIds_nodup : (h.plan.policies.map (·.policyId)).Nodup := by
  have hlength := length_policies_le streams
  rw [h.length_entries] at hlength
  refine nodup_map_numbered fun a ha b hb i j _ hi _ hj he => ?_
  obtain ⟨s, hs, ha⟩ := mem_flatMap.mp ha
  obtain ⟨t, ht, hb⟩ := mem_flatMap.mp hb
  obtain ⟨a, -, rfl⟩ := mem_map.mp ha
  obtain ⟨b, -, rfl⟩ := mem_map.mp hb
  exact h.fresh.policies _ (h.mem_entries hs mem_cons_self) _ (h.mem_entries ht mem_cons_self) i j
    (by omega) (by omega) he

theorem policies_grown :
    Grown (PolicyAdmits P.toPlatform h.plan.revisions)
      h.plan.policies := by
  have hsequence : Grown (fun pre r => r.sequence = pre.length + 1) h.plan.policies :=
    grown_numbered fun pre d _ => by simp
  intro pre p hp
  have hmem : p ∈ h.plan.policies := hp.subset (by simp)
  obtain ⟨stream, hs, entry, he, m, rfl⟩ := mem_policies hmem
  have hentry := (changed_sublist _ _).subset he
  have hplannable := h.plannable _ (h.mem_entries hs hentry)
  refine ⟨rfl, hsequence pre _ hp, grown_of_nodup_map h.policyIds_nodup pre _ hp, exists_planned hs hentry, rfl,
    fun hmode => ?_, hplannable.reads (mem_originRoles.mpr (.inr rfl))⟩
  cases hscope : entry.scope with
  | private_ => simp [readersOf, hscope]
  | shared | group => simp [hscope, LegacyMemoryScope.mode, ManifestTargetMode.policyMode] at hmode

theorem policies_valid : ∀ p ∈ h.plan.policies, PolicyValid P.toPlatform p := by
  intro p hp
  obtain ⟨stream, hs, entry, he, m, rfl⟩ := mem_policies hp
  have hplannable := h.plannable _ (h.mem_entries hs ((changed_sublist _ _).subset he))
  have hreaders := hplannable.readers
  simp only [strictRoles, isSortedUnique, Bool.and_eq_true, decide_eq_true_eq] at hreaders
  refine ⟨h.derived _, hplannable.roleOf_eq.2, ?_, hreaders.2, hplannable.reads⟩
  rw [policyFrom_committedByRole, h.actor]
  exact owner_not_blank

/-- The sequence of the revision with some id. -/
theorem sequence_lookup (hr : r ∈ h.plan.revisions) :
    (sequenceByRevision h.plan.revisions).lookup r.revisionId = some r.sequence := by
  rw [sequenceByRevision, lookup_index, stream_eq_singleton _ h.revisionIds_nodup hr]
  rfl

/-- Along a stream the revisions come later and later in the log. -/
theorem sequences_increase (hs : stream ∈ streams) : stream.entries.Pairwise fun a b =>
    ((sequenceByRevision h.plan.revisions).lookup a.id).getD 0 ≤
      ((sequenceByRevision h.plan.revisions).lookup b.id).getD 0 := by
  obtain ⟨m, hm⟩ := h.memoryRevisions_planned hs
  have hsorted : h.plan.revisions.Pairwise fun q r => q.sequence < r.sequence := by
    have hrange := sequences_of_grown h.planned_grown
    exact pairwise_map.mp (hrange ▸ pairwise_lt_range')
  have hids : h.plan.revisions.Pairwise fun q r =>
      ((sequenceByRevision h.plan.revisions).lookup q.revisionId).getD 0 ≤
        ((sequenceByRevision h.plan.revisions).lookup r.revisionId).getD 0 := by
    refine hsorted.imp_of_mem fun {q r} hq hr hlt => ?_
    rw [h.sequence_lookup hq, h.sequence_lookup hr]
    exact hlt.le
  have hblock := hids.sublist (filter_sublist (p := fun r => r.memoryId = stream.1.id))
  rw [show List.filter _ h.plan.revisions = _ from hm, ← pairwise_map
    (R := fun a b =>
      ((sequenceByRevision h.plan.revisions).lookup a).getD 0 ≤
        ((sequenceByRevision h.plan.revisions).lookup b).getD 0),
    revisionIds_numbered, map_drafts, pairwise_append, pairwise_map] at hblock
  exact hblock.1

theorem root_lookup (hs : stream ∈ streams) :
    (rootByMemory h.plan.revisions).lookup stream.1.id = some stream.1.id := by
  have hroot : (⟨stream.1, stream.1.id, stream.1.id, none, false⟩) ∈ stream.drafts P hash := by
    simp [drafts, entries, chainDrafts]
  obtain ⟨m, hm⟩ := exists_mem_numbered (f := record P input) (mem_flatMap.mpr ⟨stream, hs, hroot⟩)
  obtain ⟨id, hid⟩ : ∃ id, (rootByMemory h.plan.revisions).lookup stream.1.id = some id := by
    have hmem := mem_filter (p := fun r => r.parentRevisionId.isNone).mpr ⟨hm, rfl⟩
    exact Option.isSome_iff_exists.mp (AList.lookup_isSome.mpr ((mem_index _).mpr ⟨_, hmem, rfl⟩))
  -- a revision without parent has the id of its memory
  have hlast := hid
  rw [rootByMemory, lookup_index] at hlast
  obtain ⟨r, hr, rfl⟩ := Option.map_eq_some_iff.mp hlast
  obtain ⟨hr, hmemory⟩ := (mem_stream _).mp (mem_of_getLast? hr)
  obtain ⟨hr, hparent⟩ := mem_filter.mp hr
  rw [hid, (starts_of_grown h.planned_grown hr (by simpa using hparent)).revisionId, hmemory]

theorem continues_policies (hs : stream ∈ streams) :
    Grown (fun pre p => PolicyContinues h.plan.revisions pre.getLast? p)
      (numbered (policyFrom P input hash) m stream.changed) := by
  refine grown_of_isChain (fun p hp => ?_) (isChain_numbered ?_ m)
  · obtain rfl : policyFrom P input hash (stream.1.id, stream.1) (m + 1) = p := by
      simpa [Stream.changed, Stream.entries, changed] using hp
    exact h.root_lookup hs
  · have hpairs := ((h.split.isStream stream hs).agentId.and (h.sequences_increase hs)).sublist
      (changed_sublist none stream.entries)
    refine (isChain_map _).mpr (hpairs.isChain.imp fun a b hab m => ⟨?_, hab.2, ?_⟩)
    · exact congrArg (roleOf input.preflight) hab.1.symm
    · rw [policyFrom_committedByRole, h.actor]
      exact mem_originRoles.mpr (.inr rfl)

theorem validatePolicies_planned :
    validatePolicies P.toPlatform h.plan.policies h.plan.revisions =
      .ok () := by
  have hcontinues := grown_of_streams PolicyRecord.memoryId fun p hp => by
    obtain ⟨stream, hs, entry, -, n, rfl⟩ := mem_policies hp
    obtain ⟨m, hm⟩ := h.memoryPolicies_planned hs
    rw [policyFrom_memoryId, hm]
    exact h.continues_policies hs
  refine validatePolicies_of_grown h.revisionIds_nodup h.policies_grown h.policies_valid hcontinues fun r hr _ => ?_
  obtain ⟨stream, hs, d, hd, m, rfl⟩ := mem_planned hr
  have hroot : (stream.1.id, stream.1) ∈ streams.flatMap Stream.changed :=
    mem_flatMap.mpr ⟨stream, hs, by simp [Stream.changed, Stream.entries, changed]⟩
  obtain ⟨n, hn⟩ := exists_mem_numbered hroot
  exact ⟨_, hn, (mem_drafts hd).2.1.symm⟩

/-- The ledger's validators accept the records. -/
theorem validateMigrationRecordSets_planned :
    validateMigrationRecordSets P.toLedgerPlatform h.plan.revisions
      h.plan.policies = .ok () := by
  unfold validateMigrationRecordSets
  rw [validateRevisions_of_grown h.planned_grown]
  exact h.validatePolicies_planned

end Ready

end Plico.Migrate
