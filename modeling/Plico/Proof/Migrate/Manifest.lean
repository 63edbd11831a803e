import Plico.Proof.Migrate.Records

/-!
# The manifest of a plan covers its records

The target manifest of the planned records has a valid shape, the records agree with the preflight entry by entry, and
`validateTargetRecords` finds a bijection between the mapped streams and the records.
-/

namespace Plico.Migrate

open LegacyMemoryScope MigrationPlanInput Migrate.Stream List Plico.Ledger

variable {P : MigratePlatform} {input : MigrationPlanInput} {hash : String} {streams : List Stream} {stream : Stream}
  {entry : LegacyMemoryEntry} {pre : List Stream} {i : Nat}

/-- The target manifest of the planned records. -/
def manifestOf (P : MigratePlatform) (input : MigrationPlanInput) (hash : String) (streams : List Stream) :
    MigrationManifest where
  schema := targetManifestSchema
  sourceManifestHash := hash
  streamMappings := (planned P input hash streams).streamMappings
  dispositions := (planned P input hash streams).dispositions
  targetRevisionCount := (planned P input hash streams).revisions.length
  targetPolicyCount := (planned P input hash streams).policies.length
  targetRelationCount := 0
  importedAt := input.importedAt
  importedByRole := input.importedByRole

/-! ## The revision of each entry -/

theorem getElem?_chainDrafts (memoryId : String) (parent : Option String) (entries : List LegacyMemoryEntry) (i : Nat) :
    (chainDrafts memoryId parent entries)[i]? = entries[i]?.map fun entry =>
      ⟨entry, memoryId, entry.id, if i = 0 then parent else (entries.map (·.id))[i - 1]?, false⟩ := by
  induction entries generalizing parent i with
  | nil => rfl
  | cons entry entries ih =>
    cases i with
    | zero => rfl
    | succ i =>
      simp only [chainDrafts, getElem?_cons_succ, ih]
      cases i with
      | zero => rfl
      | succ i => simp

/-- Position by position, an entry is imported after the one before it. -/
theorem exists_planned_at (hs : stream ∈ streams) (he : stream.entries[i]? = some entry) :
    ∃ m, Draft.record P input ⟨entry, stream.1.id, entry.id,
      if i = 0 then none else (stream.entries.map (·.id))[i - 1]?, false⟩ m ∈
        (planned P input hash streams).revisions := by
  have hdraft := getElem?_chainDrafts stream.1.id none stream.entries i
  rw [he] at hdraft
  exact exists_mem_numbered (mem_flatMap.mpr ⟨stream, hs, mem_append_left _ (mem_of_getElem? hdraft)⟩)

/-- The tombstone of a deleted head is in the log. -/
theorem exists_tombstone (hs : stream ∈ streams) {tombstone : String}
    (ht : (stream.mapping P input hash).tombstoneRevisionId = some tombstone) :
    ∃ m, Draft.record P input ⟨stream.head, stream.1.id, tombstone, some stream.head.id, true⟩ m ∈
      (planned P input hash streams).revisions := by
  unfold mapping at ht
  split at ht
  · rename_i hdeleted
    cases ht
    refine exists_mem_numbered (mem_flatMap.mpr ⟨stream, hs, mem_append_right _ ?_⟩)
    rw [tombstone, if_pos hdeleted]
    exact mem_singleton_self _
  · cases ht

/-- The last draft is the head that the mapping names. -/
theorem getLast?_drafts : ∃ d, (stream.drafts P hash).getLast? = some d ∧
    d.revisionId = (stream.mapping P input hash).targetHeadRevisionId ∧ d.memoryId = stream.1.id ∧
    d.tombstone = (stream.mapping P input hash).tombstoneRevisionId.isSome := by
  cases hdeleted : stream.head.deletedAt with
  | some deletedAt =>
    refine ⟨⟨stream.head, stream.1.id, tombstoneId P hash stream.head, some stream.head.id, true⟩, ?_, ?_⟩
    · simp [drafts, tombstone, hdeleted]
    · simp [mapping, hdeleted]
  | none =>
    obtain ⟨d, hd⟩ : ∃ d, (chainDrafts stream.1.id none stream.entries).getLast? = some d :=
      ⟨_, getLast?_eq_some_getLast (by simp [chainDrafts, entries])⟩
    obtain ⟨hentry, hid, hlive⟩ := getLast?_chainDrafts hd
    obtain ⟨-, hmemory, -⟩ := mem_chainDrafts (mem_of_getLast? hd)
    rw [getLast?_entries] at hentry
    refine ⟨d, ?_, ?_, hmemory, ?_⟩
    · rw [drafts, tombstone, hdeleted]
      simpa using hd
    · rw [hid, ← Option.some.inj hentry]
      simp [mapping, hdeleted]
    · rw [hlive]
      simp [mapping, hdeleted]

theorem maxBySequence_eq {l : List CanonicalRevision} (h : l.Pairwise fun q r => q.sequence < r.sequence) :
    maxBySequence l = l.getLast? := by
  induction l using List.reverseRecOn with
  | nil => rfl
  | append_singleton l r ih =>
    obtain ⟨hl, -, hr⟩ := pairwise_append.mp h
    have hbest : (l.getLast?.all fun b => decide (b.sequence ≤ r.sequence)) = true := by
      cases hlast : l.getLast? with
      | none => rfl
      | some b => simpa using (hr b (mem_of_getLast? hlast) r (by simp)).le
    unfold maxBySequence at ih ⊢
    rw [foldl_append, ih hl, foldl_cons, hbest]
    simp

/-! ## Against the preflight -/

theorem scopeChanges_eq {previous : Option LegacyMemoryScope} {entries : List LegacyMemoryEntry} :
    scopeChanges previous entries = (changed previous entries).length := by
  induction entries generalizing previous with
  | nil => rfl
  | cons entry entries ih =>
    rw [scopeChanges, changed_cons, length_append, ih]
    by_cases hscope : previous = some entry.scope <;> simp [changed, hscope]

namespace Ready

variable (h : Ready P input hash streams)

include h

variable {entry : LegacyMemoryEntry}

theorem found (hs : stream ∈ streams) (he : entry ∈ stream.entries) : input.preflight.entry entry.id = some entry :=
  (h.plannable _ (h.mem_entries hs he)).found

theorem checkPlannedRevision_planned (hs : stream ∈ streams) (he : stream.entries[i]? = some entry) :
    checkPlannedRevision P input.preflight h.plan.revisions input.importedAt stream.report
      entry.id i = .ok () := by
  have hmem := mem_of_getElem? he
  obtain ⟨m, hm⟩ := exists_planned_at hs he
  have hfind := find?_of_nodup_map h.revisionIds_nodup hm
  obtain ⟨contentHash, hhash⟩ := (h.plannable _ (h.mem_entries hs hmem)).hashed
  obtain ⟨bytes, hbytes⟩ := Option.isSome_iff_exists.mp (h.encoded _ (h.mem_entries hs hmem))
  simp only [checkPlannedRevision, seq_eq_ok, required_eq_ok, convertContent_eq, mapError_ok_iff]
  refine ⟨entry, h.found hs hmem, _, hfind, contentHash, hhash, bytes, hbytes, bytes, hbytes, refuse_neg ?_⟩
  simp [report, contentHashOf_eq hhash]

theorem checkPlannedStream_planned (hs : stream ∈ streams) :
    checkPlannedStream P input.preflight h.plan.revisions
      h.plan.policies input.importedAt stream.report = .ok () := by
  have hentries : (stream.entries.map (·.id)).filterMap input.preflight.entry = stream.entries := by
    rw [filterMap_map]
    exact (filterMap_congr fun _ => h.found hs).trans filterMap_some
  obtain ⟨m, hm⟩ := h.memoryPolicies_planned hs
  have hcount : (h.plan.policies.filter fun policy => policy.memoryId = stream.1.id).length =
      (changed none stream.entries).length := by
    rw [show List.filter _ h.plan.policies = _ from hm, length_numbered, Stream.changed,
      length_map]
  refine seq_eq_ok.mpr ⟨(), checkAll_eq_ok.mpr ?_, refuse_neg ?_⟩
  · rintro ⟨id, i⟩ hi
    have hid : (stream.entries.map (·.id))[i]? = some id := mk_mem_zipIdx_iff_getElem?.mp hi
    rw [getElem?_map] at hid
    obtain ⟨entry, he, rfl⟩ := Option.map_eq_some_iff.mp hid
    exact h.checkPlannedRevision_planned hs he
  · rw [show stream.report.revisionIds = stream.entries.map (·.id) from rfl, hentries, scopeChanges_eq]
    exact not_not.mpr hcount

theorem validatePlanAgainstPreflight_planned :
    validatePlanAgainstPreflight P input.preflight h.plan.revisions
      h.plan.policies input.importedAt = .ok () := by
  refine checkAll_eq_ok.mpr fun reported hreported => ?_
  rw [h.reported] at hreported
  obtain ⟨stream, hs, rfl⟩ := mem_map.mp hreported
  exact h.checkPlannedStream_planned hs

/-! ## The shape -/

theorem mapping_shape (hs : stream ∈ streams) : ¬ (stream.mapping P input hash).shapeInvalid P.toPlatform := by
  have hhead := h.head_mem hs
  have hroot := h.mem_entries hs (mem_cons_self)
  have hunique : uniqueNonempty (stream.entries.map (·.id)) = true := by
    obtain ⟨hself, -⟩ := nodup_flatMap.mp h.entry_ids_nodup
    simp only [uniqueNonempty, Bool.and_eq_true, decide_eq_true_eq]
    refine ⟨all_eq_true.mpr fun id hid => ?_, hself stream hs⟩
    obtain ⟨entry, he, rfl⟩ := mem_map.mp hid
    simp [(h.named _ (h.mem_entries hs he)).1]
  simp only [StreamMapping.shapeInvalid, mapping, not_or, not_exists, not_and, Bool.not_eq_true,
    Bool.not_eq_false, Option.isNone_eq_false_iff]
  refine ⟨(h.named _ hhead).2, h.uuids _ hroot, by simp [entries], hunique, ?_, ?_, ?_, ?_⟩
  · split
    · exact h.derived _
    · exact h.uuids _ hhead
  · split
    · exact Option.isNone_eq_false_iff.mpr (h.derived _)
    · rfl
  · simp [entries, changed]
  · intro mapping hmapping
    obtain ⟨entry, he, rfl⟩ := mem_map.mp hmapping
    have hentry := h.mem_entries hs ((changed_sublist _ _).subset he)
    exact ⟨h.uuids _ hentry, (h.plannable _ hentry).readers⟩

theorem validateShape_planned : (manifestOf P input hash streams).validateShape P.toPlatform = .ok () := by
  simp only [MigrationManifest.validateShape, refuse_eq_ok, not_or, not_exists, not_and, not_not, Bool.not_eq_false]
  refine ⟨rfl, h.digest, h.actor, h.time, rfl, fun mapping hmapping => ?_, ?_⟩
  · obtain ⟨stream, hs, rfl⟩ := mem_map.mp hmapping
    exact h.mapping_shape hs
  · simp only [manifestOf, planned, map_map]
    exact h.roots_nodup

/-! ## The audience of a scope -/

theorem origin_found (hs : stream ∈ streams) :
    ∃ origin, (input.preflight.roleMappings.find? fun role => role.legacyAgentId = stream.head.agentId) = some origin ∧
      origin.targetRoleId = roleOf input.preflight stream.head.agentId := by
  obtain ⟨role, hrole, -⟩ := (h.plannable _ (h.head_mem hs)).role
  obtain ⟨origin, hmem, hagent, rfl⟩ := (lookup_index_of_nodup _ h.roles).mp hrole
  exact ⟨origin, hagent ▸ find?_of_nodup_map h.roles hmem, by rw [roleOf, hrole]; rfl⟩

theorem expectedReaders_eq (he : entry ∈ input.preflight.entries) :
    expectedReaders input.sourceManifest (originRoles (roleOf input.preflight entry.agentId)) entry.scope.manifest =
      .ok (readersOf input.preflight entry) := by
  cases hscope : entry.scope with
  | private_ => simp [readersOf, hscope, manifest, expectedReaders]
  | shared =>
    simp [readersOf, hscope, manifest, expectedReaders, sourceManifest]
  | group groupId =>
    obtain ⟨roles, hroles⟩ := (h.plannable _ he).group groupId hscope
    obtain ⟨group, hmem, rfl, rfl⟩ := (lookup_index_of_nodup _ h.groups).mp hroles
    unfold manifest expectedReaders
    dsimp only [sourceManifest]
    rw [find?_of_nodup_map h.groups hmem, readersOf, hscope]
    dsimp only
    rw [hroles]
    -- both are the sorted list of the group's roles, the origin and the owner
    refine congrArg Except.ok (eq_of_isChain_lt isChain_sortDedup isChain_sortDedup fun role => ?_)
    rw [mem_sortDedup, mem_sortDedup, mem_append, mem_originRoles]
    simp

/-! ## The bijection -/

theorem effective_nodup : (h.plan.policies.map (·.effectiveFromRevisionId)).Nodup := by
  have hids : h.plan.policies.map (·.effectiveFromRevisionId) =
      streams.flatMap fun stream => (changed none stream.entries).map (·.id) := by
    rw [plan, planned, map_numbered (policyFrom_effectiveFromRevisionId P input hash), map_flatMap]
    simp [Stream.changed, Function.comp_def]
  rw [hids]
  obtain ⟨hself, hother⟩ := nodup_flatMap.mp h.entry_ids_nodup
  refine nodup_flatMap.mpr ⟨fun stream hs => ((changed_sublist _ _).map _).nodup (hself stream hs), ?_⟩
  exact hother.imp fun {s t} hdisjoint id hids hidt =>
    hdisjoint (((changed_sublist _ _).map _).subset hids) (((changed_sublist _ _).map _).subset hidt)

end Ready

/-- Every covered policy takes effect at one of the entries that were mapped. -/
structure Covers (policies : List PolicyRecord) (sources : List (String × LegacyMemoryEntry)) (covered : List String) :
    Prop where
  length : covered.length = sources.length
  source : ∀ id ∈ covered, ∃ p ∈ policies, p.policyId = id ∧ p.effectiveFromRevisionId ∈ sources.map (·.2.id)

namespace Ready

variable (h : Ready P input hash streams)

include h

variable {sources : List (String × LegacyMemoryEntry)} {covered : List String}

theorem validatePolicyMapping_planned (hs : stream ∈ streams) (he : entry ∈ changed none stream.entries)
    (hcovered : Covers h.plan.policies sources covered) (hnew : entry.id ∉ sources.map (·.2.id)) :
    ∃ covered', validatePolicyMapping (manifestOf P input hash streams) input.sourceManifest
        h.plan.policies (stream.mapping P input hash)
        (roleOf input.preflight stream.head.agentId) covered (mappingOf input.preflight entry) = .ok covered' ∧
      Covers h.plan.policies (sources ++ [(stream.1.id, entry)]) covered' := by
  have hentry := (changed_sublist _ _).subset he
  have hsource : (stream.1.id, entry) ∈ streams.flatMap Stream.changed :=
    mem_flatMap.mpr ⟨stream, hs, mem_map_of_mem he⟩
  obtain ⟨m, hm⟩ := exists_mem_numbered hsource
  set policy := policyFrom P input hash (stream.1.id, entry) m with hpolicy
  -- no other policy takes effect at this entry
  have hfind : (h.plan.policies.find? fun p => p.memoryId = stream.1.id ∧
      p.effectiveFromRevisionId = entry.id) = some policy := by
    obtain ⟨p, hp⟩ : ∃ p, (h.plan.policies.find? fun p => p.memoryId = stream.1.id ∧
        p.effectiveFromRevisionId = entry.id) = some p :=
      Option.isSome_iff_exists.mp (find?_isSome.mpr ⟨policy, hm, by simp [hpolicy]⟩)
    have hkeys : p.memoryId = stream.1.id ∧ p.effectiveFromRevisionId = entry.id := by simpa using find?_some hp
    rwa [inj_on_of_nodup_map h.effective_nodup (mem_of_find?_eq_some hp) hm hkeys.2] at hp
  have hfresh : policy.policyId ∉ covered := by
    intro hmem
    obtain ⟨p, hp, hid, heffective⟩ := hcovered.source _ hmem
    rw [inj_on_of_nodup_map h.policyIds_nodup hp hm hid] at heffective
    exact hnew heffective
  have hagent := ((h.split.isStream stream hs).agentId_root (Migrate.head_mem stream)).trans
      ((h.split.isStream stream hs).agentId_root hentry).symm
  have hreaders := h.expectedReaders_eq (h.mem_entries hs hentry)
  have hscope : scopeModeMatches entry.scope.manifest entry.scope.mode = true := by cases entry.scope <;> rfl
  refine ⟨policy.policyId :: covered, ?_, ⟨by simp [hcovered.length], fun id hid => ?_⟩⟩
  · simp only [validatePolicyMapping, seq_eq_ok, required_eq_ok, refuse_eq_ok, exists_const]
    exact ⟨policy, hfind, hfresh, _, hreaders, by simp [mappingOf, hscope, hpolicy, hagent, originRoles],
      by simp [manifestOf, hpolicy], rfl⟩
  · rcases mem_cons.mp hid with rfl | hid
    · exact ⟨policy, hm, rfl, by simp [hpolicy]⟩
    · obtain ⟨p, hp, hid, heffective⟩ := hcovered.source _ hid
      exact ⟨p, hp, hid, by simpa using .inl (by simpa using heffective)⟩

theorem validatePolicyMappings_planned (hs : stream ∈ streams) (hcovered : Covers h.plan.policies sources covered)
    (hnew : ∀ entry ∈ stream.entries, entry.id ∉ sources.map (·.2.id)) :
    ∃ covered', (stream.mapping P input hash).policyMappings.foldlM
        (validatePolicyMapping (manifestOf P input hash streams) input.sourceManifest
          h.plan.policies (stream.mapping P input hash)
          (roleOf input.preflight stream.head.agentId)) covered = .ok covered' ∧
      Covers h.plan.policies (sources ++ stream.changed) covered' := by
  obtain ⟨hself, -⟩ := nodup_flatMap.mp h.entry_ids_nodup
  have hids := ((changed_sublist none stream.entries).map (·.id)).nodup (hself stream hs)
  have hstart : Covers h.plan.policies
      (sources ++ ([]).map (stream.1.id, ·)) covered := by simpa using hcovered
  unfold mapping changed
  rw [foldlM_map]
  refine scan_total (A := fun pre => Covers h.plan.policies
    (sources ++ pre.map (stream.1.id, ·))) hstart fun {pre entry covered} hpre hcovered => ?_
  have hmem : entry ∈ changed none stream.entries := hpre.subset (by simp)
  rw [map_append, ← append_assoc]
  refine h.validatePolicyMapping_planned hs hmem hcovered fun hid => ?_
  rw [map_append, mem_append, map_map] at hid
  rcases hid with hid | hid
  · exact hnew entry ((changed_sublist _ _).subset hmem) hid
  · obtain ⟨other, hother, heq⟩ := mem_map.mp hid
    exact grown_of_nodup_map hids pre entry hpre other hother heq

/-! ## The streams -/

theorem lookup_planned {r : CanonicalRevision} (hr : r ∈ h.plan.revisions) :
    (index (·.revisionId) id h.plan.revisions).lookup r.revisionId = some r := by
  rw [lookup_index, stream_eq_singleton _ h.revisionIds_nodup hr]
  rfl

theorem validateLegacyRevision_planned (hs : stream ∈ streams) (he : stream.entries[i]? = some entry) :
    validateLegacyRevision (manifestOf P input hash streams)
      (index (·.revisionId) id h.plan.revisions) (stream.mapping P input hash) i entry.id =
        .ok () := by
  obtain ⟨m, hm⟩ := exists_planned_at hs he
  refine seq_eq_ok.mpr ⟨_, required_eq_ok.mpr (h.lookup_planned hm), refuse_neg ?_⟩
  simp [mapping, manifestOf]

end Ready

/-- What the loop over the mapped streams holds after some of them. -/
structure Scanned (P : MigratePlatform) (input : MigrationPlanInput) (hash : String) (streams pre : List Stream)
    (s : TargetScan) : Prop where
  revisions : s.coveredRevisions.Perm ((pre.flatMap (drafts P hash)).map (·.revisionId))
  legacy : s.legacyRevisionIds.Perm ((pre.flatMap entries).map (·.id))
  policies : Covers (planned P input hash streams).policies (pre.flatMap Stream.changed) s.coveredPolicies
  deleted : s.deletedStreams = ((pre.map head).filter fun head => head.deletedAt.isSome).length

/-- The next block of a log without repetitions repeats nothing of the blocks before it. -/
theorem nodup_block {α β γ : Type} {f : α → List β} {g : β → γ} {l pre : List α} {a : α}
    (hn : ((l.flatMap f).map g).Nodup) (hpre : pre ++ [a] <+: l) {keys : List γ}
    (hkeys : keys.Perm ((pre.flatMap f).map g)) : ((f a).map g ++ keys).Nodup := by
  obtain ⟨post, rfl⟩ := hpre
  rw [flatMap_append, flatMap_append, flatMap_singleton, map_append, map_append] at hn
  exact ((hkeys.append_left _).trans perm_append_comm).nodup_iff.mpr hn.of_append_left

theorem length_tombstone :
    (stream.mapping P input hash).tombstoneRevisionId.toList.length = (stream.tombstone P hash).length := by
  unfold mapping tombstone
  split <;> rfl

theorem Stream.mapping_targetHead {id : String} (hid : (stream.mapping P input hash).tombstoneRevisionId = some id) :
    (stream.mapping P input hash).targetHeadRevisionId = id := by
  unfold mapping at hid ⊢
  split at hid
  · rw [if_pos ‹_›]
    exact Option.some.inj hid
  · cases hid

theorem deleted_concat :
    (((pre ++ [stream]).map head).filter fun head => head.deletedAt.isSome).length =
      ((pre.map head).filter fun head => head.deletedAt.isSome).length +
        (stream.mapping P input hash).tombstoneRevisionId.toList.length := by
  unfold mapping
  cases hdeleted : stream.head.deletedAt <;> simp [hdeleted]

namespace Ready

variable (h : Ready P input hash streams)

include h

/-- The head that the mapping names is the last revision of the memory. -/
theorem head_planned (hs : stream ∈ streams) : ∃ head,
    (index (·.revisionId) id h.plan.revisions).lookup
        (stream.mapping P input hash).targetHeadRevisionId = some head ∧
      maxBySequence (Plico.stream (·.memoryId) h.plan.revisions stream.1.id) = some head ∧
      head.memoryId = stream.1.id ∧ head.revisionId = (stream.mapping P input hash).targetHeadRevisionId ∧
      head.deletedAt.isSome = (stream.mapping P input hash).tombstoneRevisionId.isSome := by
  obtain ⟨m, hm⟩ := h.memoryRevisions_planned hs
  obtain ⟨d, hd, hid, hmemory, htombstone⟩ := getLast?_drafts
  have hsorted : (Plico.stream (·.memoryId) h.plan.revisions stream.1.id).Pairwise
      fun q r => q.sequence < r.sequence := by
    have hrange := sequences_of_grown h.planned_grown
    exact (pairwise_map.mp (hrange ▸ pairwise_lt_range')).sublist filter_sublist
  obtain ⟨pre, hpre⟩ := getLast?_eq_some_iff.mp hd
  have hlast : (Plico.stream (·.memoryId) h.plan.revisions stream.1.id).getLast? =
      some (d.record P input (m + pre.length + 1)) := by
    rw [show Plico.stream _ _ _ = _ from hm, hpre, numbered_append]
    simp
  have hmem := ((mem_stream _).mp (mem_of_getLast? hlast)).1
  refine ⟨_, hid ▸ h.lookup_planned hmem, (maxBySequence_eq hsorted).trans hlast, hmemory, hid, ?_⟩
  rw [← htombstone]
  cases htomb : d.tombstone <;> simp [htomb]

theorem validateStreamMapping_planned (hpre : pre ++ [stream] <+: streams) {s : TargetScan}
    (hscan : Scanned P input hash streams pre s) :
    ∃ s', validateStreamMapping (manifestOf P input hash streams) input.sourceManifest
        h.plan.revisions h.plan.policies s
        (stream.mapping P input hash) = .ok s' ∧ Scanned P input hash streams (pre ++ [stream]) s' := by
  have hs : stream ∈ streams := hpre.subset (by simp)
  have hagent := h.snapshots _ (h.head_mem hs)
  obtain ⟨origin, horigin, hrole⟩ := h.origin_found hs
  have hlegacy := nodup_block (ids_nodup h.unique h.split) hpre hscan.legacy
  have hdrafts := nodup_block h.draft_ids_nodup hpre hscan.revisions
  obtain ⟨m, hm⟩ := h.memoryRevisions_planned hs
  have hids : (Plico.stream (·.memoryId) h.plan.revisions stream.1.id).map (·.revisionId) =
      (stream.drafts P hash).map (·.revisionId) := by
    rw [show Plico.stream _ _ _ = _ from hm, revisionIds_numbered]
  have hlength : (Plico.stream (·.memoryId) h.plan.revisions stream.1.id).length =
      stream.entries.length + (stream.mapping P input hash).tombstoneRevisionId.toList.length := by
    rw [show Plico.stream _ _ _ = _ from hm, length_numbered, Stream.drafts, length_append, length_chainDrafts,
      length_tombstone]
  obtain ⟨legacy, hlegacyRevisions⟩ := exists_mapM (l := (stream.entries.map (·.id)).zipIdx)
    fun x hx => by
      have hid := mk_mem_zipIdx_iff_getElem?.mp hx
      rw [getElem?_map] at hid
      obtain ⟨entry, he, hid⟩ := Option.map_eq_some_iff.mp hid
      exact ⟨(), hid ▸ h.validateLegacyRevision_planned hs he⟩
  obtain ⟨head, hhead, hactual, hmemory, hheadId, hdeleted⟩ := h.head_planned hs
  obtain ⟨k, hk⟩ := h.memoryPolicies_planned hs
  have hpolicies : (h.plan.policies.filter fun p => p.memoryId = stream.1.id).length =
      (stream.mapping P input hash).policyMappings.length := by
    rw [show List.filter _ h.plan.policies = _ from hk]
    simp [Stream.changed, Stream.mapping]
  obtain ⟨covered, hcovered, hcovers⟩ := h.validatePolicyMappings_planned hs hscan.policies fun entry he hid => by
    obtain ⟨source, hsource, hid⟩ := mem_map.mp hid
    obtain ⟨t, ht, hsource⟩ := mem_flatMap.mp hsource
    obtain ⟨other, hother, rfl⟩ := mem_map.mp hsource
    have hmem : entry.id ∈ s.legacyRevisionIds := hscan.legacy.mem_iff.mpr (mem_map.mpr
      ⟨other, mem_flatMap.mpr ⟨t, ht, (changed_sublist _ _).subset hother⟩, hid⟩)
    exact (nodup_append.mp hlegacy).2.2 _ (mem_map_of_mem he) _ hmem rfl
  refine ⟨⟨(stream.drafts P hash).map (·.revisionId) ++ s.coveredRevisions, covered,
    stream.entries.map (·.id) ++ s.legacyRevisionIds,
    s.deletedStreams + (stream.mapping P input hash).tombstoneRevisionId.toList.length⟩, ?_, ?_⟩
  · simp only [validateStreamMapping, seq_eq_ok, required_eq_ok, refuse_eq_ok, exists_const, not_or, not_not]
    refine ⟨hagent, origin, horigin, hlegacy, ⟨hlength.trans (by simp [Stream.mapping]), hids.symm ▸ hdrafts⟩, legacy,
      hlegacyRevisions, _, (exists_mapM fun tombstone ht => ?tombstone).choose_spec, head, hhead, head, hactual,
      hmemory, ⟨rfl, hdeleted.symm, ?_, by simp [Stream.mapping]⟩, hpolicies, covered, hrole ▸ hcovered,
      congrArg (fun ids => Except.ok (TargetScan.mk (ids ++ s.coveredRevisions) covered _ _)) hids⟩
    case tombstone =>
      obtain ⟨m, hm⟩ := exists_tombstone hs (Option.mem_toList.mp ht)
      refine ⟨(), seq_eq_ok.mpr ⟨_, required_eq_ok.mpr (h.lookup_planned hm), refuse_neg ?_⟩⟩
      simp [mapping, manifestOf, getLast?_entries]
    simp only [Option.any_eq_true, not_exists, not_and]
    intro id hid
    simp [hheadId, Stream.mapping_targetHead hid]
  · refine ⟨by simpa using (hscan.revisions.append_left _).trans perm_append_comm,
      by simpa using (hscan.legacy.append_left _).trans perm_append_comm,
      by simpa using hcovers, ?_⟩
    rw [deleted_concat]
    exact congrArg (· + _) hscan.deleted

end Ready

theorem length_drafts (P : MigratePlatform) (hash : String) (streams : List Stream) :
    (streams.flatMap (drafts P hash)).length = (streams.flatMap entries).length +
      ((streams.map head).filter fun head => head.deletedAt.isSome).length := by
  induction streams with
  | nil => rfl
  | cons stream streams ih =>
    rw [flatMap_cons, length_append, drafts, length_append, length_chainDrafts, ih,
      tombstone]
    cases hdeleted : stream.head.deletedAt <;> simp [hdeleted] <;> omega

theorem memories_planned (P : MigratePlatform) (input : MigrationPlanInput) (hash : String) (streams : List Stream) :
    (planned P input hash streams).revisions.map (·.memoryId) ⊆
        (manifestOf P input hash streams).streamMappings.map (·.memoryId) ∧
      (manifestOf P input hash streams).streamMappings.map (·.memoryId) ⊆
        (planned P input hash streams).revisions.map (·.memoryId) := by
  constructor
  · intro memoryId hmemory
    obtain ⟨r, hr, rfl⟩ := mem_map.mp hmemory
    obtain ⟨stream, hs, d, hd, m, rfl⟩ := mem_planned hr
    exact mem_map.mpr ⟨stream.mapping P input hash, mem_map_of_mem hs, (mem_drafts hd).2.1.symm⟩
  · intro memoryId hmemory
    obtain ⟨mapping, hmapping, rfl⟩ := mem_map.mp hmemory
    obtain ⟨stream, hs, rfl⟩ := mem_map.mp hmapping
    obtain ⟨r, hr, -, hmemory⟩ := exists_planned hs mem_cons_self
    exact mem_map.mpr ⟨r, hr, hmemory⟩

namespace Ready

variable (h : Ready P input hash streams)

include h

/-- The counters of the plan are those of the source. -/
theorem dispositions_planned : h.plan.dispositions = dispositionsOf input.preflight.entries (streams.map head) := by
  have hperm := h.split.partition
  unfold plan planned dispositionsOf
  simp only [hperm.length_eq, (hperm.map _).sum_nat, (hperm.filter _).length_eq]

/-- The manifest's loader accepts the records against the source manifest. -/
theorem validateTargetRecords_planned :
    (manifestOf P input hash streams).validateTargetRecords input.sourceManifest
      h.plan.revisions h.plan.policies 0 = .ok () := by
  have hstart : Scanned P input hash streams [] ⟨[], [], [], 0⟩ := ⟨.nil, .nil, ⟨rfl, by simp⟩, rfl⟩
  obtain ⟨s, hfold, hscan⟩ := scan_total hstart fun {_ _ _} hpre hscan =>
    h.validateStreamMapping_planned hpre hscan
  have hsize := h.size
  have hbound := length_drafts_le P hash streams
  have hdrafts := length_drafts P hash streams
  rw [h.length_entries] at hbound hdrafts
  have hrevisions := hscan.revisions.length_eq
  have hlegacy := hscan.legacy.length_eq
  have hpolicies := hscan.policies.length
  have hheads := length_eq_length_filter_add (l := streams.map Stream.head) fun head => head.deletedAt.isSome
  rw [length_map] at hrevisions hlegacy hheads
  rw [h.length_entries] at hlegacy
  have hmappings : (streams.flatMap Stream.changed).length =
      (((streams.map (Stream.mapping P input hash)).map (·.policyMappings.length))).sum := by
    simp [Stream.changed, Stream.mapping, Function.comp_def]
  refine seq_eq_ok.mpr ⟨(), refuse_neg ?_, ?_⟩
  · simp [manifestOf, planned, sourceManifest, h.streamCount]
  refine seq_eq_ok.mpr ⟨s, ?_, refuse_neg ?_⟩
  · rw [show (manifestOf P input hash streams).streamMappings = streams.map (Stream.mapping P input hash) from rfl,
      foldlM_map]
    exact hfold
  · have hmemories := memories_planned P input hash streams
    have hdispositions := h.dispositions_planned
    have hdeleted := hscan.deleted
    simp only [manifestOf, sourceManifest, LegacyPreflightReport.ttlFieldCount,
      LegacyPreflightReport.embeddedVectorCount, saturatingAdd, saturatingMul, h.entryCount,
      h.streamCount] at hmemories ⊢
    rw [hdispositions]
    simp only [dispositionsOf, planned, length_numbered] at hmemories ⊢
    simp only [not_or, Decidable.not_not]
    refine ⟨by omega, by omega, by omega, trivial, by omega, trivial, by omega, by omega, trivial, trivial, by omega,
      by omega, hmemories⟩

end Ready

end Plico.Migrate
