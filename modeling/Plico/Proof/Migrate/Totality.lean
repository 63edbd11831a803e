import Plico.Proof.Migrate.Faithful

/-!
# Which accepted sources can be planned

The preflight, the source manifest and the planner each have rules of their own for what they take. On a report of the
preflight (`Accepted`) the later rules hold with two exceptions, both in the source manifest: it wants an entry of every
agent that has a snapshot, and a namespace that is not blank. `Accepted.ready` gives the planner what it needs, and
`Accepted.sourceManifest_validate` says when the manifest is made.
-/

namespace Plico.Migrate

open List Plico.Ledger

/-- What the planner takes from the libraries: the digests are hexadecimal, the canonicalizer encodes what has passed
the checks of its numbers, and an id that was printed can be parsed. -/
structure Dependable (P : MigratePlatform) : Prop where
  sha256 : ∀ bytes, isLowerHash (P.sha256 bytes)
  value : ∀ v, ensureJcsSafeNumbers v = .ok () → (P.value.toVec v).isSome
  content : ∀ c, validateCanonicalizableContent c = .ok () → (P.content.toVec c).isSome
  sourceManifest : ∀ m, (P.sourceManifest.toVec m).isSome
  migrationManifest : ∀ m, (P.migrationManifest.toVec m).isSome
  hyphenated : ∀ id, (P.parseUuid (P.hyphenated id)).isSome
  blank : ∀ s, isBlank s → P.parseUuid s = none

/-- A snapshot that was read from the old store. -/
def Decoded (P : MigratePlatform) (snapshot : LegacySnapshot) : Prop :=
  ∃ encodedObject, LegacySnapshot.decode P snapshot.indexAgentId snapshot.indexTier snapshot.cid
    snapshot.declaredEntryCount encodedObject = .ok snapshot

/-- The input of a plan for the report of a preflight. -/
structure ValidInput (report : LegacyPreflightReport) (input : MigrationPlanInput) : Prop where
  preflight : input.preflight = report
  sourceIndexHash : isLowerHash input.sourceIndexHash
  credentialRoleCutoffHash : isLowerHash input.credentialRoleCutoffHash
  importedAt : input.importedAt ≠ 0
  importedByRole : input.importedByRole = personalOwnerRoleId
  owner : personalOwnerRoleId ∈ report.authorizedRoleIds

variable {P : MigratePlatform} {index : LegacyPersistenceIndex} {snapshots : List LegacySnapshot}
  {authorization : LegacyAccessAuthorization} {report : LegacyPreflightReport} {input : MigrationPlanInput}
  {entries : List LegacyMemoryEntry}

/-! ## Contents -/

theorem canonicalContentHash_of_canonicalizable (hP : Dependable P) {content : MemoryContent}
    (h : validateCanonicalizableContent content = .ok ()) :
    ∃ hash, content.canonicalContentHash P.toPlatform = .ok hash := by
  have hinput : ∃ bytes, content.hashInput P.toPlatform = .ok bytes := by
    cases content with
    | text | objectRef | procedure => exact ⟨_, rfl⟩
    | structured value =>
      have hsafe : ensureJcsSafeNumbers value = .ok () := mapError_ok_iff.mp h
      obtain ⟨bytes, hbytes⟩ := Option.isSome_iff_exists.mp (hP.value value hsafe)
      exact ⟨_, seq_eq_ok.mpr ⟨(), hsafe, seq_eq_ok.mpr ⟨bytes, by rw [hbytes, required_some], rfl⟩⟩⟩
    | knowledge piece =>
      exact ⟨_, seq_eq_ok.mpr ⟨(), refuse_neg (refuse_eq_ok.mp h), rfl⟩⟩
  obtain ⟨bytes, hbytes⟩ := hinput
  exact ⟨_, seq_eq_ok.mpr ⟨bytes, hbytes, rfl⟩⟩

/-! ## The authorization -/

/-- What an accepted authorization says. -/
structure Authorized (authorization : LegacyAccessAuthorization) (entries : List LegacyMemoryEntry) : Prop where
  strict : strictRoles authorization.authorizedRoleIds
  agentsSorted : (authorization.roleMappings.map (·.legacyAgentId)).IsChain (· < ·)
  roles : ∀ mapping ∈ authorization.roleMappings, isBlank mapping.legacyAgentId = false ∧
    isBlank mapping.targetRoleId = false ∧ mapping.targetRoleId ∈ authorization.authorizedRoleIds
  agents : ∀ agentId, agentId ∈ authorization.roleMappings.map (·.legacyAgentId) ↔ agentId ∈ entries.map (·.agentId)
  groupsSorted : (authorization.groupMappings.map (·.legacyGroupId)).IsChain (· < ·)
  groups : ∀ mapping ∈ authorization.groupMappings, isBlank mapping.legacyGroupId = false ∧
    strictRoles mapping.targetRoleIds ∧ ∀ role ∈ mapping.targetRoleIds, role ∈ authorization.authorizedRoleIds
  scopes : ∀ groupId, groupId ∈ authorization.groupMappings.map (·.legacyGroupId) ↔
    groupId ∈ entries.filterMap (·.scope.groupId)

theorem mapAgent_eq_ok {mapped mapped' : List String} {mapping : LegacyRoleMapping}
    (h : mapAgent authorization mapped mapping = .ok mapped') :
    (isBlank mapping.legacyAgentId = false ∧ isBlank mapping.targetRoleId = false ∧
      mapping.targetRoleId ∈ authorization.authorizedRoleIds) ∧
      mapping.legacyAgentId ∉ mapped ∧ mapped' = mapping.legacyAgentId :: mapped := by
  obtain ⟨⟨⟩, hvalid, h⟩ := of_seq h
  simp only [refuse_eq_ok, not_or, Bool.not_eq_true, not_not] at hvalid
  exact ⟨⟨hvalid.1, hvalid.2.1, hvalid.2.2.1⟩, hvalid.2.2.2, (pure_ok_inj.mp h).symm⟩

theorem mapGroup_eq_ok {mapped mapped' : List String} {mapping : LegacyGroupMapping}
    (h : mapGroup authorization mapped mapping = .ok mapped') :
    (isBlank mapping.legacyGroupId = false ∧ strictRoles mapping.targetRoleIds ∧
      ∀ role ∈ mapping.targetRoleIds, role ∈ authorization.authorizedRoleIds) ∧
      mapping.legacyGroupId ∉ mapped ∧ mapped' = mapping.legacyGroupId :: mapped := by
  obtain ⟨⟨⟩, hvalid, h⟩ := of_seq h
  simp only [refuse_eq_ok, not_or, Bool.not_eq_true, Bool.not_eq_false, not_exists, not_and, not_not] at hvalid
  exact ⟨⟨hvalid.1, hvalid.2.1, hvalid.2.2.1⟩, hvalid.2.2.2, (pure_ok_inj.mp h).symm⟩

theorem validateAccessAuthorization_eq_ok
    (h : validateAccessAuthorization authorization entries = .ok ()) : Authorized authorization entries := by
  obtain ⟨⟨⟩, hstrict, ⟨⟩, hagents, mappedAgents, hmapped, h⟩ := of_seq₃ h
  obtain ⟨⟨⟩, hall, ⟨⟩, -, ⟨⟩, hgroups, h⟩ := of_seq₃ h
  obtain ⟨mappedGroups, hmappedGroups, h⟩ := of_seq h
  obtain ⟨hroles, rfl, -⟩ := collected_of_foldlM (f := mapAgent authorization) mapAgent_eq_ok hmapped nodup_nil
  obtain ⟨haudiences, rfl, -⟩ :=
    collected_of_foldlM (f := mapGroup authorization) mapGroup_eq_ok hmappedGroups nodup_nil
  have hall := not_not.mp (refuse_eq_ok.mp hall)
  have h := not_not.mp (refuse_eq_ok.mp h)
  refine ⟨by simpa using refuse_eq_ok.mp hstrict, not_not.mp (refuse_eq_ok.mp hagents), hroles, fun agentId => ?_,
    not_not.mp (refuse_eq_ok.mp hgroups), haudiences, fun groupId => ?_⟩
  · exact ⟨fun hmem => hall.1 (by simpa using hmem), fun hmem => by simpa using hall.2 hmem⟩
  · exact ⟨fun hmem => h.1 (by simpa using hmem), fun hmem => by simpa using h.2 hmem⟩

/-! ## The snapshots -/

variable {snapshot : LegacySnapshot} {agentId : String}

theorem observeSnapshot_eq_ok {expected : List ((String × String) × LegacyPersistedTier)}
    {observed observed' : List (String × String)} (h : observeSnapshot expected observed snapshot = .ok observed') :
    True ∧ (snapshot.indexAgentId, snapshot.indexTier) ∉ observed ∧
      observed' = (snapshot.indexAgentId, snapshot.indexTier) :: observed := by
  obtain ⟨persisted, -, ⟨⟩, -, ⟨⟩, hnew, h⟩ := of_seq₃ h
  exact ⟨trivial, refuse_eq_ok.mp hnew, (pure_ok_inj.mp h).symm⟩

/-- No two snapshots are of one tier of one agent. -/
theorem validateIndex_nodup (h : validateIndex index snapshots = .ok ()) :
    (snapshots.map fun snapshot => (snapshot.indexAgentId, snapshot.indexTier)).Nodup := by
  obtain ⟨expected, -, h⟩ := of_seq h
  obtain ⟨observed, hobserved, -⟩ := of_seq h
  obtain ⟨-, rfl, hn⟩ := collected_of_foldlM (f := observeSnapshot expected) observeSnapshot_eq_ok hobserved
    nodup_nil
  simpa using hn

/-- What the envelope of a snapshot says. -/
structure Enveloped (P : MigratePlatform) (snapshot : LegacySnapshot) : Prop where
  agent : isBlank snapshot.indexAgentId = false
  count : snapshot.declaredEntryCount = snapshot.entries.length
  cid : isLowerHash snapshot.cid
  tier : snapshot.indexTier ∈ legacyTierNames
  entries : ∀ entry ∈ snapshot.entries, entry.agentId = snapshot.indexAgentId

theorem validateSnapshotEnvelope_eq_ok (hP : Dependable P)
    (h : validateSnapshotEnvelope P.toPlatform snapshot = .ok ()) : Enveloped P snapshot := by
  obtain ⟨⟨⟩, hblank, ⟨⟩, hcount, ⟨⟩, hcid, h⟩ := of_seq₃ h
  obtain ⟨⟨⟩, htier, h⟩ := of_seq h
  have hblank := refuse_eq_ok.mp hblank
  have hcid := not_not.mp (refuse_eq_ok.mp hcid)
  refine ⟨by simpa using fun hagent => hblank (.inl hagent), not_not.mp (refuse_eq_ok.mp hcount),
    hcid ▸ hP.sha256 _, not_not.mp (refuse_eq_ok.mp htier), fun entry hentry => ?_⟩
  by_contra hagent
  exact refuse_eq_ok.mp h ⟨entry, hentry, .inl hagent⟩

theorem Decoded.objectEnvelopeHash (hP : Dependable P) (h : Decoded P snapshot) :
    isLowerHash snapshot.objectEnvelopeHash := by
  obtain ⟨encodedObject, h⟩ := h
  obtain ⟨object, -, ⟨⟩, -, entries, -, h⟩ := of_seq₃ h
  rw [← pure_ok_inj.mp h]
  exact hP.sha256 _

/-- Sorted by keys that differ, the snapshots are strictly increasing. -/
theorem sourceSnapshots_sorted (h : validateIndex index snapshots = .ok ()) :
    (((snapshots.map (·.source)).insertionSort fun left right => left.key ≤ right.key).map (·.key)).IsChain
    (· < ·) := by
  have hsorted := pairwise_insertionSort (fun left right => left.key ≤ right.key) (snapshots.map (·.source))
  have hkeys : ((snapshots.map (·.source)).map (·.key)).Nodup := by
    -- the key of a snapshot determines its agent and its tier
    have hindex := validateIndex_nodup h
    rw [map_map]
    unfold List.Nodup at hindex ⊢
    rw [pairwise_map] at hindex ⊢
    refine hindex.imp fun hab heq => hab ?_
    simp only [Function.comp_apply, SourceSnapshot.key, List.cons.injEq] at heq
    exact Prod.ext heq.1 heq.2.1
  refine ((pairwise_map.mpr hsorted).and ?_).imp (fun hab => lt_of_le_of_ne hab.1 hab.2) |>.isChain
  exact ((perm_insertionSort _ _).map _).nodup_iff.mpr hkeys

/-! ## What the planner needs -/

namespace Accepted

variable (h : Accepted P.toPlatform index snapshots authorization report)

include h

theorem authorizes : Authorized ⟨report.authorizedRoleIds, report.roleMappings, report.groupMappings⟩ report.entries :=
  validateAccessAuthorization_eq_ok (h.authorization ▸ h.authorized)

variable {entry : LegacyMemoryEntry}

theorem enveloped (hP : Dependable P) (hsnapshot : snapshot ∈ snapshots) : Enveloped P snapshot :=
  validateSnapshotEnvelope_eq_ok hP (h.envelopes snapshot hsnapshot)

theorem snapshot_of_entry (hP : Dependable P) (hentry : entry ∈ report.entries) :
    ∃ snapshot ∈ snapshots, snapshot.indexAgentId = entry.agentId := by
  rw [h.entries] at hentry
  obtain ⟨snapshot, hsnapshot, hentry⟩ := mem_flatMap.mp hentry
  exact ⟨snapshot, hsnapshot, ((h.enveloped hP hsnapshot).entries entry hentry).symm⟩

theorem mem_agents :
    agentId ∈ report.sourceSnapshots.map (·.legacyAgentId) ↔ agentId ∈ snapshots.map (·.indexAgentId) := by
  rw [h.sourceSnapshots, ((perm_insertionSort _ _).map _).mem_iff, map_map]
  rfl

theorem role_of_entry (hentry : entry ∈ report.entries) :
    (roleByAgent report).lookup entry.agentId = some (roleOf report entry.agentId) ∧
      ⟨entry.agentId, roleOf report entry.agentId⟩ ∈ report.roleMappings := by
  obtain ⟨mapping, hmapping, hagent⟩ := mem_map.mp ((h.authorizes.agents _).mpr (mem_map_of_mem hentry))
  have hrole : (roleByAgent report).lookup entry.agentId = some mapping.targetRoleId :=
    (lookup_index_of_nodup _ h.authorizes.agentsSorted.pairwise.nodup).mpr ⟨mapping, hmapping, hagent, rfl⟩
  rw [roleOf, hrole]
  exact ⟨rfl, hagent ▸ hmapping⟩

theorem group_of_entry (hentry : entry ∈ report.entries) {groupId : String} (hscope : entry.scope = .group groupId) :
    ∃ roles, (groupRoles report).lookup groupId = some roles ∧ ⟨groupId, roles⟩ ∈ report.groupMappings := by
  have hrequired : groupId ∈ report.entries.filterMap (·.scope.groupId) :=
    mem_filterMap.mpr ⟨entry, hentry, by rw [hscope]; rfl⟩
  obtain ⟨mapping, hmapping, hgroup⟩ := mem_map.mp ((h.authorizes.scopes _).mpr hrequired)
  exact ⟨_, (lookup_index_of_nodup _ h.authorizes.groupsSorted.pairwise.nodup).mpr ⟨mapping, hmapping, hgroup, rfl⟩,
    hgroup ▸ hmapping⟩

/-- The readers of an accepted entry: the role of its agent and the owner among them, none blank. -/
theorem readers_of_entry (howner : personalOwnerRoleId ∈ report.authorizedRoleIds) (hentry : entry ∈ report.entries) :
    strictRoles (readersOf report entry) ∧ originRoles (roleOf report entry.agentId) ⊆ readersOf report entry := by
  have hmapped := h.authorizes.roles _ (h.role_of_entry hentry).2
  have hsorted roles : isSortedUnique (sortDedup roles) = true := decide_eq_true isChain_sortDedup
  cases hscope : entry.scope with
  | private_ =>
    simp only [readersOf, hscope, strictRoles, Bool.and_eq_true, Bool.not_eq_true', all_eq_true,
      isEmpty_eq_false_iff]
    refine ⟨⟨⟨ne_nil_of_mem (mem_originRoles.mpr (.inr rfl)), fun role hrole => ?_⟩, hsorted _⟩, fun _ => id⟩
    rcases mem_originRoles.mp hrole with rfl | rfl
    · exact hmapped.2.1
    · exact owner_not_blank
  | shared =>
    simp only [readersOf, hscope]
    refine ⟨h.authorizes.strict, fun role hrole => ?_⟩
    rcases mem_originRoles.mp hrole with rfl | rfl
    · exact hmapped.2.2
    · exact howner
  | group groupId =>
    obtain ⟨roles, hroles, hgroup⟩ := h.group_of_entry hentry hscope
    have hgroup := (h.authorizes.groups _ hgroup).2.1
    simp only [strictRoles, Bool.and_eq_true, Bool.not_eq_true', all_eq_true] at hgroup
    simp only [readersOf, hscope, hroles, strictRoles, Bool.and_eq_true, Bool.not_eq_true',
      all_eq_true, isEmpty_eq_false_iff]
    refine ⟨⟨⟨ne_nil_of_mem (a := personalOwnerRoleId) (by simp [mem_sortDedup]), fun role hrole => ?_⟩,
      hsorted _⟩, fun role hrole => ?_⟩
    · rcases mem_append.mp (mem_sortDedup.mp hrole) with hrole | hrole
      · exact hgroup.1.2 role hrole
      · rcases mem_pair.mp hrole with rfl | rfl
        · exact hmapped.2.1
        · exact owner_not_blank
    · rw [mem_sortDedup, mem_append, mem_pair]
      exact .inr (mem_originRoles.mp hrole)

theorem plannable (hP : Dependable P)
    (howner : personalOwnerRoleId ∈ report.authorizedRoleIds) (hentry : entry ∈ report.entries) :
    Plannable P report entry where
  found := findEntry_of_mem h.collected.unique hentry
  role := ⟨_, (h.role_of_entry hentry).1, (h.authorizes.roles _ (h.role_of_entry hentry).2).2.1⟩
  hashed := canonicalContentHash_of_canonicalizable hP (h.fields entry hentry).content
  group := fun _ hscope => (h.group_of_entry hentry hscope).imp fun _ hroles => hroles.1
  readers := (h.readers_of_entry howner hentry).1
  reads := (h.readers_of_entry howner hentry).2

/-- A report of the preflight is ready for the planner. -/
theorem ready (hP : Dependable P)
    (hinput : ValidInput report input) (hsize : 2 * report.entries.length ≤ u64Max) {hash : String}
    (hdigest : isLowerHash hash) (hfresh : FreshIds P hash report.entries) : ∃ streams, Ready P input hash streams := by
  obtain ⟨streams, hstreams, hreported⟩ := validateStreams_sound h.collected.unique h.linked
  obtain rfl := hinput.preflight
  refine ⟨streams,
    { split := hstreams
      reported := hreported
      entryCount := h.entryCount
      streamCount := ?_
      unique := h.collected.unique
      plannable := fun _ => h.plannable hP hinput.owner
      named := fun entry hentry => ⟨?_, (h.fields entry hentry).agentId⟩
      uuids := fun entry hentry => (h.fields entry hentry).id
      derived := hP.hyphenated
      encoded := fun entry hentry => hP.content _ (h.fields entry hentry).content
      snapshots := fun entry hentry => ?_
      roles := (isChain_iff_pairwise.mp h.authorizes.agentsSorted).imp ne_of_lt
      groups := (isChain_iff_pairwise.mp h.authorizes.groupsSorted).imp ne_of_lt
      actor := hinput.importedByRole
      time := hinput.importedAt
      digest := hdigest
      size := hsize
      fresh := hfresh }⟩
  · rw [h.streamCount, ← (roots_perm h.collected.unique hstreams).length_eq, length_map]
  · have hid := (h.fields entry hentry).id
    cases hblank : isBlank entry.id with
    | false => rfl
    | true => simp [hP.blank _ hblank] at hid
  · obtain ⟨snapshot, hsnapshot, hagent⟩ := h.snapshot_of_entry hP hentry
    exact h.mem_agents.mpr (hagent ▸ mem_map_of_mem hsnapshot)

end Accepted

/-! ## The source manifest -/

/-- Every agent that has a snapshot has an entry. -/
def Represented (snapshots : List LegacySnapshot) : Prop :=
  ∀ snapshot ∈ snapshots, ∃ other ∈ snapshots, other.indexAgentId = snapshot.indexAgentId ∧ other.entries ≠ []

/-- The entries are not in a blank namespace. -/
def Named (snapshots : List LegacySnapshot) : Prop :=
  ∀ snapshot ∈ snapshots, ∀ entry ∈ snapshot.entries, entry.tenantId.any isBlank = false

theorem validatePlanInput_eq_ok (hinput : ValidInput report input) : validatePlanInput input = .ok () := by
  obtain ⟨rfl, hindexHash, -, htime, hrole, howner⟩ := hinput
  refine seq_eq_ok.mpr ⟨(), refuse_neg (by simp [hindexHash]), ?_⟩
  refine seq_eq_ok.mpr ⟨(), refuse_neg (by simp [htime, hrole]), refuse_neg (not_not.mpr howner)⟩

theorem ttlFieldCount_le :
    (entries.map fun entry => entry.ttlMs.isSome.toNat + entry.originalTtlMs.isSome.toNat).sum ≤ entries.length * 2 :=
    by
  induction entries with
  | nil => rfl
  | cons entry entries ih =>
    have hfirst := Bool.toNat_le entry.ttlMs.isSome
    have hsecond := Bool.toNat_le entry.originalTtlMs.isSome
    rw [map_cons, sum_cons, length_cons]
    omega

namespace Accepted

variable (h : Accepted P.toPlatform index snapshots authorization report)

include h

theorem legacyNamespace_eq (hinput : input.preflight = report) :
    input.sourceManifest.legacyNamespace.any isBlank = false ↔ Named snapshots := by
  have hnamespace : input.sourceManifest.legacyNamespace = (report.entries.getLast?.map (·.tenantId)).join := by
    rw [MigrationPlanInput.sourceManifest, hinput, h.namespace_]
    cases (report.entries.getLast?.map (·.tenantId)).join <;> rfl
  have hnamed : Named snapshots ↔ ∀ entry ∈ report.entries, entry.tenantId.any isBlank = false := by
    rw [h.entries, forall_mem_flatMap]
    rfl
  rw [hnamespace, hnamed]
  cases hlast : report.entries.getLast? with
  | none => simp [getLast?_eq_none_iff.mp hlast]
  | some last =>
    have hmem := mem_of_getLast? hlast
    refine ⟨fun hblank entry hentry => ?_, fun hn => hn last hmem⟩
    rw [h.collected.oneNamespace entry hentry last hmem]
    exact hblank

theorem agents_iff (hP : Dependable P) :
    (report.sourceSnapshots.map (·.legacyAgentId) ⊆ report.roleMappings.map (·.legacyAgentId) ∧
      report.roleMappings.map (·.legacyAgentId) ⊆ report.sourceSnapshots.map (·.legacyAgentId)) ↔
        Represented snapshots := by
  constructor
  · rintro ⟨hsubset, -⟩ snapshot hsnapshot
    have hmapped := hsubset (h.mem_agents.mpr (mem_map_of_mem hsnapshot))
    obtain ⟨entry, hentry, hagent⟩ := mem_map.mp ((h.authorizes.agents _).mp hmapped)
    rw [h.entries] at hentry
    obtain ⟨other, hother, hentry⟩ := mem_flatMap.mp hentry
    exact ⟨other, hother, ((h.enveloped hP hother).entries entry hentry).symm.trans hagent, ne_nil_of_mem hentry⟩
  · intro hrepresented
    refine ⟨fun agentId hagent => ?_, fun agentId hagent => ?_⟩
    · obtain ⟨snapshot, hsnapshot, rfl⟩ := mem_map.mp (h.mem_agents.mp hagent)
      obtain ⟨other, hother, hagent, hne⟩ := hrepresented snapshot hsnapshot
      obtain ⟨entry, hentry⟩ := exists_mem_of_ne_nil _ hne
      refine (h.authorizes.agents _).mpr (mem_map.mpr ⟨entry, ?_, ?_⟩)
      · rw [h.entries]
        exact mem_flatMap.mpr ⟨other, hother, hentry⟩
      · rw [(h.enveloped hP hother).entries entry hentry, hagent]
    · obtain ⟨entry, hentry, rfl⟩ := mem_map.mp ((h.authorizes.agents _).mp hagent)
      obtain ⟨snapshot, hsnapshot, hagent⟩ := h.snapshot_of_entry hP hentry
      exact h.mem_agents.mpr (hagent ▸ mem_map_of_mem hsnapshot)

/-- The counts of the report agree. -/
theorem counts (hP : Dependable P) :
    (report.sourceSnapshots.map (·.entryCount)).sum = report.entryCount ∧ report.streamCount ≤ report.entryCount ∧
      (report.streamCount = 0 ↔ report.entryCount = 0) := by
  obtain ⟨streams, hstreams, -⟩ := validateStreams_sound h.collected.unique h.linked
  have hlength : report.streamCount = streams.length := by
    rw [h.streamCount, ← (roots_perm h.collected.unique hstreams).length_eq, length_map]
  refine ⟨?_, ?_, ?_⟩
  · rw [h.sourceSnapshots, ((perm_insertionSort _ _).map _).sum_nat, h.entryCount, h.entries, length_flatMap,
      map_map]
    refine congrArg List.sum (map_congr_left fun snapshot hsnapshot => ?_)
    exact (h.enveloped hP hsnapshot).count
  · rw [h.streamCount, h.entryCount, rootsOf, (perm_insertionSort _ _).length_eq]
    exact length_filter_le _ _
  · rw [hlength, h.entryCount, ← hstreams.partition.length_eq, length_eq_zero_iff, length_eq_zero_iff,
      eq_nil_iff_forall_not_mem]
    simp [Stream.entries]

/-- The source manifest of an accepted source is made unless an agent has snapshots but no entry, or the namespace is
blank. -/
theorem sourceManifest_validate (hP : Dependable P)
    (hdecoded : ∀ snapshot ∈ snapshots, Decoded P snapshot) (hinput : ValidInput report input)
    (hsize : 2 * report.entries.length ≤ u64Max) :
    input.sourceManifest.validate = .ok () ↔ Represented snapshots ∧ Named snapshots := by
  have hnamed := h.legacyNamespace_eq hinput.preflight
  have hagents := h.agents_iff hP
  have hauthorized := h.authorizes
  have hcounts := h.counts hP
  have hsorted := sourceSnapshots_sorted h.indexed
  have hsnapshots : ∀ snapshot ∈ report.sourceSnapshots, isBlank snapshot.legacyAgentId = false ∧
      snapshot.legacyTier ∈ ["ephemeral", "working", "long_term", "procedural"] ∧
      isLowerHash snapshot.cid = true ∧ isLowerHash snapshot.objectEnvelopeHash = true := by
    intro source hsource
    rw [h.sourceSnapshots, (perm_insertionSort _ _).mem_iff] at hsource
    obtain ⟨snapshot, hsnapshot, rfl⟩ := mem_map.mp hsource
    have henvelope := h.enveloped hP hsnapshot
    exact ⟨henvelope.agent, mem_cons_of_mem _ henvelope.tier, henvelope.cid,
      (hdecoded snapshot hsnapshot).objectEnvelopeHash hP⟩
  have httl : report.entries.length * 2 ≤ saturatingMul report.entryCount 2 := by
    rw [h.entryCount]
    exact Nat.le_min.mpr ⟨le_rfl, by omega⟩
  have hembedded := length_filter_le (fun entry => entry.embedding.isSome) report.entries
  have hsum : (report.sourceSnapshots.map (·.entryCount)).sum % 2 ^ 64 = report.entryCount := by
    rw [hcounts.1, Nat.mod_eq_of_lt]
    rw [h.entryCount]
    unfold u64Max at hsize
    omega
  rw [← h.sourceSnapshots] at hsorted
  obtain ⟨rfl, hindexHash, hcutoffHash, -, -, howner⟩ := hinput
  simp only [SourceManifest.validate, refuse_eq_ok, not_or, not_exists, not_and, Classical.not_imp, not_not,
    Bool.not_eq_true, Bool.not_eq_false, Nat.not_lt]
  constructor
  · rintro ⟨-, -, -, -, -, hnamespace, -, -, -, -, -, -, -, -, -, -, -, hsubset⟩
    exact ⟨hagents.mp hsubset, hnamed.mp hnamespace⟩
  · rintro ⟨hrepresented, hnames⟩
    refine ⟨rfl, hindexHash, hcutoffHash, hauthorized.strict, howner, hnamed.mpr hnames, hsnapshots, hsorted,
      hauthorized.agentsSorted, hauthorized.roles, hauthorized.groupsSorted, hauthorized.groups, hsum, hcounts.2.1,
      hcounts.2.2, ttlFieldCount_le.trans httl, hembedded.trans_eq h.entryCount.symm, hagents.mpr hrepresented⟩

/-- An accepted source is planned when its source manifest is made, and the plan holds the records of its streams. -/
theorem buildMigrationRecordPlan_eq_ok (hP : Dependable P) (hinput : ValidInput report input)
    (hsize : 2 * report.entries.length ≤ u64Max) (hvalid : input.sourceManifest.validate = .ok ())
    (hfresh : ∀ bytes hash, input.sourceManifest.canonicalBytesAndHash P.toLedgerPlatform = .ok (bytes, hash) →
      FreshIds P hash report.entries) :
    ∃ hash streams, Ready P input hash streams ∧ buildMigrationRecordPlan P input = .ok
      ⟨input.sourceManifest, manifestOf P input hash streams, (planned P input hash streams).revisions,
        (planned P input hash streams).policies⟩ := by
  obtain ⟨bytes, hbytes⟩ := Option.isSome_iff_exists.mp (hP.sourceManifest input.sourceManifest)
  have hhash : input.sourceManifest.canonicalBytesAndHash P.toLedgerPlatform =
      .ok (bytes, domainHash P.toLedgerPlatform sourceManifestDomain bytes) :=
    seq_eq_ok.mpr ⟨(), hvalid, seq_eq_ok.mpr ⟨bytes, jcs_eq_ok.mpr hbytes, rfl⟩⟩
  obtain ⟨streams, hready⟩ := h.ready hP hinput hsize (hP.sha256 _) (hfresh _ _ hhash)
  refine ⟨_, streams, hready, ?_⟩
  set hash := domainHash P.toLedgerPlatform sourceManifestDomain bytes
  obtain ⟨target, htarget⟩ := Option.isSome_iff_exists.mp (hP.migrationManifest (manifestOf P input hash streams))
  have hshape := hready.validateShape_planned
  refine seq_eq_ok.mpr ⟨(), validatePlanInput_eq_ok hinput, ?_⟩
  refine seq_eq_ok.mpr ⟨input.sourceManifest, mapError_ok_iff.mpr (seq_eq_ok.mpr ⟨(), hvalid, rfl⟩), ?_⟩
  refine seq_eq_ok.mpr ⟨_, mapError_ok_iff.mpr hhash, ?_⟩
  refine seq_eq_ok.mpr ⟨planned P input hash streams, ?_, ?_⟩
  · rw [hready.reported]
    refine planStreams_eq (fun stream hs entry he => hready.plannable _ (hready.mem_entries hs he)) hready.actor ?_
    rw [hready.length_entries]
    exact hready.size
  refine seq_eq_ok.mpr ⟨(), mapError_ok_iff.mpr hready.validateMigrationRecordSets_planned, ?_⟩
  refine seq_eq_ok.mpr ⟨manifestOf P input hash streams, mapError_ok_iff.mpr (seq_eq_ok.mpr ⟨(), hshape, rfl⟩), ?_⟩
  refine seq_eq_ok.mpr ⟨_, mapError_ok_iff.mpr
    (seq_eq_ok.mpr ⟨(), hshape, seq_eq_ok.mpr ⟨target, jcs_eq_ok.mpr htarget, rfl⟩⟩), ?_⟩
  exact seq_eq_ok.mpr ⟨(), hready.validatePlanAgainstPreflight_planned, rfl⟩

end Accepted

/-! ## Totality -/

theorem sourceManifest_of_plan {plan : MigrationRecordPlan} (h : buildMigrationRecordPlan P input = .ok plan) :
    input.sourceManifest.validate = .ok () := by
  obtain ⟨⟨⟩, -, manifest, hmanifest, -⟩ := of_seq₃ h
  exact (check_eq_ok.mp (mapError_ok_iff.mp hmanifest)).1

/-- Planning an accepted source with a valid input succeeds, passes the target's validation and is faithful, exactly
when every agent that has a snapshot has an entry and no entry is in a blank namespace. The digest of the source
manifest seeds the derived ids, which are taken to be new (`FreshIds`). -/
theorem buildMigrationRecordPlan_total (P : MigratePlatform) (hP : Dependable P) (index : LegacyPersistenceIndex)
    (snapshots : List LegacySnapshot) (authorization : LegacyAccessAuthorization) (report : LegacyPreflightReport)
    (hpreflight : preflight P.toPlatform index snapshots authorization = .ok report)
    (hdecoded : ∀ snapshot ∈ snapshots, Decoded P snapshot) (input : MigrationPlanInput)
    (hinput : ValidInput report input) (hsize : 2 * report.entries.length ≤ u64Max)
    (hfresh : ∀ bytes hash, input.sourceManifest.canonicalBytesAndHash P.toLedgerPlatform = .ok (bytes, hash) →
      FreshIds P hash report.entries) :
    (∃ plan, buildMigrationRecordPlan P input = .ok plan ∧
      plan.migrationManifest.validateTargetRecords plan.sourceManifest plan.revisions plan.policies 0 = .ok () ∧
      Faithful report input.importedAt plan) ↔ Represented snapshots ∧ Named snapshots := by
  have haccepted := preflight_eq_ok hpreflight
  have hmanifest := haccepted.sourceManifest_validate hP hdecoded hinput hsize
  constructor
  · rintro ⟨plan, hplan, -, -⟩
    exact hmanifest.mp (sourceManifest_of_plan hplan)
  · intro hsource
    obtain ⟨hash, streams, hready, hplan⟩ :=
      haccepted.buildMigrationRecordPlan_eq_ok hP hinput hsize (hmanifest.mpr hsource) hfresh
    exact ⟨_, hplan, hready.validateTargetRecords_planned, hinput.preflight ▸ hready.faithful_planned⟩

/-! ## Two stores -/

/-- A platform with one digest and a short codec for each type; its ids are made of the bytes they are named by. -/
def plannerPlatform : MigratePlatform where
  sha256 := samplePlatform.sha256
  parseUuid := fun s => if isBlank s then none else some 0
  hyphenated := fun id => "u" ++ toString id.toNat
  newV5 := fun _ bytes => bytes.foldl (fun id byte => id * 257 + BitVec.ofNat 128 byte.toNat) 0
  value := { emptySerde _ with toVec := fun _ => some [1] }
  content := { emptySerde _ with toVec := fun _ => some [1] }
  revisionSegment := ⟨fun _ => none, fun _ => none, rfl⟩
  policySegment := ⟨fun _ => none, fun _ => none, rfl⟩
  relationSegment := ⟨fun _ => none, fun _ => none, rfl⟩
  root := ⟨fun _ => none, fun _ => none, rfl⟩
  view := ⟨fun _ => none, fun _ => none, rfl⟩
  pointer := ⟨fun _ => none, fun _ => none, rfl⟩
  sourceManifest := ⟨fun _ => some [1], fun _ => none, rfl⟩
  migrationManifest := ⟨fun _ => some [1], fun _ => none, rfl⟩
  legacyObject := ⟨fun _ => none, fun bytes => if bytes = [] then none else some ⟨samplePlatform.sha256 [], bytes⟩, rfl⟩
  legacyEntries := ⟨fun _ => none, fun bytes =>
    if bytes = [1] then some linkedEntries else if bytes = [2] then some [] else none, rfl⟩

theorem sample_isLowerHash : isLowerHash (samplePlatform.sha256 []) := by decide +kernel

theorem plannerPlatform_dependable : Dependable plannerPlatform where
  sha256 := fun _ => sample_isLowerHash
  value := fun _ _ => rfl
  content := fun _ _ => rfl
  sourceManifest := fun _ => rfl
  migrationManifest := fun _ => rfl
  hyphenated := by
    intro id
    have hblank : isBlank ("u" ++ toString id.toNat) = false := by
      rw [isBlank, String.toList_append]
      rfl
    rw [show plannerPlatform.parseUuid (plannerPlatform.hyphenated id) = some 0 from
      if_neg (Bool.eq_false_iff.mp hblank)]
    rfl
  blank := fun s hs => if_pos hs

/-- A snapshot of an agent's working tier, as it was decoded. -/
def decodedSnapshot (agentId : String) (encodedEntries : Bytes) (entries : List LegacyMemoryEntry) : LegacySnapshot :=
  ⟨agentId, "working", samplePlatform.sha256 [], samplePlatform.sha256 [], entries.length, encodedEntries, entries⟩

theorem linked_decoded : Decoded plannerPlatform (decodedSnapshot agentId [1] linkedEntries) :=
  ⟨[1], rfl⟩

theorem empty_decoded : Decoded plannerPlatform (decodedSnapshot agentId [2] []) :=
  ⟨[2], rfl⟩

def planAuthorization : LegacyAccessAuthorization := ⟨[personalOwnerRoleId], [⟨"role", personalOwnerRoleId⟩], []⟩

def planInput (report : LegacyPreflightReport) : MigrationPlanInput where
  preflight := report
  lockCreated := false
  sourceIndexHash := samplePlatform.sha256 []
  credentialRoleCutoffHash := samplePlatform.sha256 []
  importedAt := 1
  importedByRole := personalOwnerRoleId

/-- The report of one agent with two linked entries. -/
def linkedReport (sourceSnapshots : List SourceSnapshot) : LegacyPreflightReport where
  namespace_ := .preNamespace
  entryCount := 2
  streamCount := 1
  streams := [⟨"a", ["a", "b"]⟩]
  entries := linkedEntries
  sourceSnapshots
  authorizedRoleIds := [personalOwnerRoleId]
  roleMappings := [⟨"role", personalOwnerRoleId⟩]
  groupMappings := []

theorem planInput_valid {sourceSnapshots : List SourceSnapshot} :
    ValidInput (linkedReport sourceSnapshots) (planInput (linkedReport sourceSnapshots)) :=
  ⟨rfl, sample_isLowerHash, sample_isLowerHash, Nat.one_ne_zero, rfl, mem_singleton_self _⟩

theorem linked_fresh : FreshIds plannerPlatform (samplePlatform.sha256 []) linkedEntries := by
  refine ⟨by decide +kernel, by decide +kernel, fun a ha b hb i j hi hj he => ?_⟩
  have hbounded : ∀ a ∈ linkedEntries, ∀ b ∈ linkedEntries, ∀ i < 3, ∀ j < 3,
      deterministicMigrationPolicyId plannerPlatform.toLedgerPlatform (samplePlatform.sha256 []) a.id i =
        deterministicMigrationPolicyId plannerPlatform.toLedgerPlatform (samplePlatform.sha256 []) b.id j → i = j := by
    decide +kernel
  exact hbounded a ha b hb i (Nat.lt_succ_of_le hi) j (Nat.lt_succ_of_le hj) he

/-- Two linked entries of one agent are planned. -/
theorem buildMigrationRecordPlan_linked : ∃ plan, buildMigrationRecordPlan plannerPlatform
      (planInput (linkedReport [(decodedSnapshot "role" [1] linkedEntries).source])) = .ok plan ∧
    plan.migrationManifest.validateTargetRecords plan.sourceManifest plan.revisions plan.policies 0 = .ok () ∧
    Faithful (linkedReport [(decodedSnapshot "role" [1] linkedEntries).source]) 1 plan := by
  refine (buildMigrationRecordPlan_total plannerPlatform plannerPlatform_dependable (sampleIndex 2)
    [decodedSnapshot "role" [1] linkedEntries] planAuthorization _ rfl ?_ _ planInput_valid (by decide) ?_).mpr ?_
  · intro snapshot hsnapshot
    rw [mem_singleton.mp hsnapshot]
    exact linked_decoded
  · intro bytes hash hhash
    cases hhash
    exact linked_fresh
  · constructor
    · intro snapshot hsnapshot
      exact ⟨snapshot, hsnapshot, rfl, by rw [mem_singleton.mp hsnapshot]; simp [decodedSnapshot, linkedEntries]⟩
    · intro snapshot hsnapshot entry hentry
      rw [mem_singleton.mp hsnapshot] at hentry
      revert entry
      decide

/-- An index with an agent whose only snapshot is empty. -/
def idleIndex : LegacyPersistenceIndex :=
  ⟨(sampleIndex 2).agents.insert "idle" [⟨"working", samplePlatform.sha256 [], 0⟩]⟩

def idleSnapshots : List LegacySnapshot := [decodedSnapshot "idle" [2] [], decodedSnapshot "role" [1] linkedEntries]

/-- The preflight accepts a source in which an agent has an empty snapshot and no entry, with the mappings it asks for
and a valid input, and the planner refuses it. -/
theorem idle_agent_refused :
    preflight plannerPlatform.toPlatform idleIndex idleSnapshots planAuthorization =
        .ok (linkedReport (idleSnapshots.map (·.source))) ∧
      (∀ snapshot ∈ idleSnapshots, Decoded plannerPlatform snapshot) ∧
      ValidInput (linkedReport (idleSnapshots.map (·.source)))
      (planInput (linkedReport (idleSnapshots.map (·.source)))) ∧
      buildMigrationRecordPlan plannerPlatform (planInput (linkedReport (idleSnapshots.map (·.source)))) =
        .error (.ledger (.invalid "invalid_source_manifest")) := by
  refine ⟨rfl, ?_, planInput_valid, by decide +kernel⟩
  intro snapshot hsnapshot
  rcases mem_pair.mp hsnapshot with rfl | rfl
  · exact empty_decoded
  · exact linked_decoded

end Plico.Migrate
