import Plico.Model.Migrate.Plan
import Plico.Proof.Ledger.Policies
import Plico.Proof.Ledger.Revisions
import Plico.Proof.Migrate.Legacy

/-!
# What the planner writes

The records of a migration are given by the streams of the preflight alone: each stream has its drafts, root first
and a tombstone at the end when the head is deleted, and a policy wherever the scope changes (`planned`).
`planStreams_eq` shows that the loops of the planner write exactly these, in this order, if every entry can be
planned (`Plannable`).
-/

namespace Plico.Migrate

open Migrate.Stream List Plico.Ledger PolicyRecord

@[simp] theorem convertTier_eq {tier : LegacyMemoryTier} : convertTier tier = tier := by
  cases tier <;> rfl

@[simp] theorem convertType_eq {memoryType : LegacyMemoryType} : convertType memoryType = memoryType := by
  cases memoryType <;> rfl

@[simp] theorem convertContent_eq {content : LegacyMemoryContent} : convertContent content = content := by
  cases content <;> simp [convertContent]

variable (P : MigratePlatform) (input : MigrationPlanInput) (hash : String)

/-! ## Revisions -/

/-- A revision to be written, without its place in the log. -/
structure Draft where
  entry : LegacyMemoryEntry
  memoryId : String
  revisionId : String
  parentRevisionId : Option String
  tombstone : Bool

def contentHashOf (content : MemoryContent) : String :=
  (content.canonicalContentHash P.toPlatform).toOption.getD ""

@[simps]
def Draft.record (d : Draft) (sequence : Nat) : CanonicalRevision where
  schema := revisionSchema
  sequence := sequence
  memoryId := d.memoryId
  revisionId := d.revisionId
  parentRevisionId := d.parentRevisionId
  content := d.entry.content
  contentHash := contentHashOf P d.entry.content
  tags := d.entry.tags
  memoryType := d.entry.memoryType
  cognitiveTier := d.entry.tier
  deletedAt := if d.tombstone then some input.importedAt else none
  committedAt := input.importedAt
  committedByRole := input.importedByRole

/-- Drafts of entries that follow one another, the first one after `parent`. -/
def chainDrafts (memoryId : String) (parent : Option String) : List LegacyMemoryEntry → List Draft
  | [] => []
  | entry :: entries => ⟨entry, memoryId, entry.id, parent, false⟩ :: chainDrafts memoryId (some entry.id) entries

def Stream.head (stream : Stream) : LegacyMemoryEntry :=
  stream.entries.getLast (by simp [entries])

def tombstoneId (head : LegacyMemoryEntry) : String :=
  deterministicMigrationRevisionId P.toLedgerPlatform hash head.id "legacy-deleted-head-tombstone"

/-- The tombstone of a stream whose head is deleted. -/
def Stream.tombstone (stream : Stream) : List Draft :=
  if stream.head.deletedAt.isSome then
    [⟨stream.head, stream.1.id, tombstoneId P hash stream.head, some stream.head.id, true⟩]
  else []

def Stream.drafts (stream : Stream) : List Draft :=
  chainDrafts stream.1.id none stream.entries ++ stream.tombstone P hash

/-! ## Policies -/

/-- The role that an agent's memories are imported for. -/
def roleOf (report : LegacyPreflightReport) (agentId : String) : String :=
  ((roleByAgent report).lookup agentId).getD ""

/-- The readers of an entry's scope. -/
def readersOf (report : LegacyPreflightReport) (entry : LegacyMemoryEntry) : List String :=
  match entry.scope with
  | .private_ => originRoles (roleOf report entry.agentId)
  | .shared => report.authorizedRoleIds
  | .group groupId =>
    sortDedup (((groupRoles report).lookup groupId).getD [] ++ [roleOf report entry.agentId, personalOwnerRoleId])

def LegacyMemoryScope.manifest : LegacyMemoryScope → ManifestSourceScope
  | .private_ => .private_
  | .shared => .shared
  | .group groupId => .group groupId

def LegacyMemoryScope.mode : LegacyMemoryScope → ManifestTargetMode
  | .private_ => .private_
  | .shared | .group _ => .explicitRoleSet

def mappingOf (report : LegacyPreflightReport) (entry : LegacyMemoryEntry) : PolicyMapping :=
  ⟨entry.id, entry.scope.manifest, entry.scope.mode, readersOf report entry⟩

/-- The policy that takes effect at an entry of a memory. -/
@[simps]
def policyFrom (source : String × LegacyMemoryEntry) (sequence : Nat) : PolicyRecord where
  schema := policySchema
  sequence := sequence
  policyId := deterministicMigrationPolicyId P.toLedgerPlatform hash source.1 sequence
  memoryId := source.1
  effectiveFromRevisionId := source.2.id
  originRoleId := roleOf input.preflight source.2.agentId
  mode := source.2.scope.mode.policyMode
  readerRoles := readersOf input.preflight source.2
  writerRoles := originRoles (roleOf input.preflight source.2.agentId)
  committedAt := input.importedAt
  committedByRole := input.importedByRole

/-- The entries at which the scope changes. -/
def changed (previous : Option LegacyMemoryScope) : List LegacyMemoryEntry → List LegacyMemoryEntry
  | [] => []
  | entry :: entries =>
    if previous = some entry.scope then changed previous entries
    else entry :: changed (some entry.scope) entries

def Stream.changed (stream : Stream) : List (String × LegacyMemoryEntry) :=
  (Migrate.changed none stream.entries).map (stream.1.id, ·)

/-! ## All records -/

def Stream.mapping (stream : Stream) : StreamMapping where
  legacyAgentId := stream.head.agentId
  memoryId := stream.1.id
  legacyRevisionIds := stream.entries.map (·.id)
  legacyCreatedAtByRevision := stream.entries.map fun entry => ⟨entry.id, entry.createdAt.toNat⟩
  targetHeadRevisionId := if stream.head.deletedAt.isSome then tombstoneId P hash stream.head else stream.head.id
  tombstoneRevisionId := if stream.head.deletedAt.isSome then some (tombstoneId P hash stream.head) else none
  legacyDeletedAt := stream.head.deletedAt.map (·.toNat)
  policyMappings := (Migrate.changed none stream.entries).map (mappingOf input.preflight)

/-- The counters after some entries and some heads. -/
def dispositionsOf (entries heads : List LegacyMemoryEntry) : MigrationDispositionCounters where
  importanceValuesDiscarded := entries.length
  accessStatisticFieldsDiscarded := 2 * entries.length
  ttlFieldsDiscarded := (entries.map fun entry => entry.ttlMs.isSome.toNat + entry.originalTtlMs.isSome.toNat).sum
  embeddedVectorsDiscarded := (entries.filter fun entry => entry.embedding.isSome).length
  projectionRebuildsRequired := (heads.filter fun head => !head.deletedAt.isSome).length
  legacyCreatedAtFieldsDiscarded := entries.length
  deletedHeadsConvertedToTombstones := (heads.filter fun head => head.deletedAt.isSome).length

/-- What the streams are migrated to. -/
def planned (streams : List Stream) : Planned where
  revisions := numbered (Draft.record P input) 0 (streams.flatMap (drafts P hash))
  policies := numbered (policyFrom P input hash) 0 (streams.flatMap Stream.changed)
  streamMappings := streams.map (mapping P input hash)
  dispositions := dispositionsOf (streams.flatMap entries) (streams.map head)

/-! ## Single records -/

/-- What the planner needs of an entry. -/
structure Plannable (report : LegacyPreflightReport) (entry : LegacyMemoryEntry) : Prop where
  found : report.entry entry.id = some entry
  role : ∃ role, (roleByAgent report).lookup entry.agentId = some role ∧ isBlank role = false
  hashed : ∃ hash, entry.content.canonicalContentHash P.toPlatform = .ok hash
  group : ∀ groupId, entry.scope = .group groupId → ∃ roles, (groupRoles report).lookup groupId = some roles
  readers : strictRoles (readersOf report entry)
  reads : originRoles (roleOf report entry.agentId) ⊆ readersOf report entry

variable {P input hash} {report : LegacyPreflightReport} {entry : LegacyMemoryEntry}
  {entries heads : List LegacyMemoryEntry} {s : PlannedStream} {memoryId : String} {n : Nat}

theorem contentHashOf_eq {content : MemoryContent} {h : String}
    (hh : content.canonicalContentHash P.toPlatform = .ok h) : contentHashOf P content = h := by
  rw [contentHashOf, hh]
  rfl

theorem canonicalRevision_eq (input : MigrationPlanInput) (d : Draft) (sequence : Nat)
    (h : ∃ hash, d.entry.content.canonicalContentHash P.toPlatform = .ok hash) :
    canonicalRevision P ⟨d.entry, d.memoryId, d.revisionId, d.parentRevisionId, sequence, input.importedAt,
      input.importedByRole, d.tombstone⟩ = .ok (d.record P input sequence) := by
  obtain ⟨hash, hh⟩ := h
  unfold canonicalRevision CanonicalRevision.migrationImport
  rw [convertContent_eq, contentHash_eq_ok.mpr hh, convertType_eq, convertTier_eq, ← contentHashOf_eq hh]
  rfl

theorem Plannable.roleOf_eq (h : Plannable P report entry) :
    (roleByAgent report).lookup entry.agentId = some (roleOf report entry.agentId) ∧
      isBlank (roleOf report entry.agentId) = false := by
  obtain ⟨role, hrole, hblank⟩ := h.role
  rw [roleOf, hrole]
  exact ⟨rfl, hblank⟩

theorem owner_not_blank : isBlank personalOwnerRoleId = false := by decide +kernel

theorem migrationExplicitRoleSet_eq {i : MigrationPolicyInput} {readers : List String}
    (hrole : isBlank i.sourceRole = false) (hactor : i.actor = personalOwnerRoleId) (hreaders : strictRoles readers)
    (hreads : originRoles i.sourceRole ⊆ readers) :
    migrationExplicitRoleSet i readers = .ok (i.policy .explicitRoleSet readers) := by
  have hsource : i.sourceRole ∈ readers := hreads (mem_originRoles.mpr (.inl rfl))
  have howner : personalOwnerRoleId ∈ readers := hreads (mem_originRoles.mpr (.inr rfl))
  have hstrict : strictSortedRoles readers = true := by
    simp only [strictRoles, Bool.and_eq_true] at hreaders
    simp only [strictSortedRoles, Bool.and_eq_true]
    exact ⟨hreaders.1.2, hreaders.2⟩
  simp only [migrationExplicitRoleSet, validateRole, check_eq_ok]
  exact ⟨by simp [hrole], by simp [hactor, owner_not_blank], by simp [ne_nil_of_mem hsource, hstrict, hsource, howner],
    rfl⟩

/-- The input from which the policy of an entry is planned. -/
def policyInput (input : MigrationPlanInput) (hash memoryId : String) (sequence : Nat) (entry : LegacyMemoryEntry) :
    PolicyPlanInput where
  entry := entry
  memoryId := memoryId
  sourceRole := roleOf input.preflight entry.agentId
  groupRoles := (groupRoles input.preflight).lookup (entryGroupId entry)
  sharedRoles := input.preflight.authorizedRoleIds
  sourceManifestHash := hash
  sequence := sequence
  importedAt := input.importedAt
  actor := input.importedByRole

theorem migrationPolicy_eq {sequence : Nat} (h : Plannable P input.preflight entry)
    (hactor : input.importedByRole = personalOwnerRoleId) :
    migrationPolicy P (policyInput input hash memoryId sequence entry) =
      .ok (policyFrom P input hash (memoryId, entry) sequence, mappingOf input.preflight entry) := by
  have hexplicit : migrationExplicitRoleSet ((policyInput input hash memoryId sequence entry).migration P)
      (readersOf input.preflight entry) = .ok (((policyInput input hash memoryId sequence entry).migration P).policy
        .explicitRoleSet (readersOf input.preflight entry)) :=
    migrationExplicitRoleSet_eq h.roleOf_eq.2 hactor h.readers h.reads
  unfold migrationPolicy
  rw [show (policyInput input hash memoryId sequence entry).entry = entry from rfl]
  cases hscope : entry.scope with
  | private_ =>
    have hreaders : readersOf input.preflight entry = originRoles (roleOf input.preflight entry.agentId) := by
      rw [readersOf, hscope]
    simp only [seq_eq_ok, mapError_ok_iff, migrationPrivate, validateRole, refuse_eq_ok, exists_const]
    refine ⟨_, ⟨?_, ?_, rfl⟩, ?_⟩
    · simpa [PolicyPlanInput.migration, policyInput] using h.roleOf_eq.2
    · simpa [PolicyPlanInput.migration, policyInput, hactor] using owner_not_blank
    · rw [policyFrom, mappingOf, hreaders, hscope]
      rfl
  | shared =>
    have hreaders : readersOf input.preflight entry = input.preflight.authorizedRoleIds := by rw [readersOf, hscope]
    refine seq_eq_ok.mpr ⟨_, mapError_ok_iff.mpr (hreaders ▸ hexplicit), ?_⟩
    rw [policyFrom, mappingOf, hreaders, hscope]
    rfl
  | group groupId =>
    obtain ⟨roles, hroles⟩ := h.group groupId hscope
    have hlookup : (policyInput input hash memoryId sequence entry).groupRoles = some roles := by
      rw [policyInput, entryGroupId, hscope, hroles]
    have hreaders : readersOf input.preflight entry = sortDedup (roles ++
        [(policyInput input hash memoryId sequence entry).sourceRole, personalOwnerRoleId]) := by
      simp only [readersOf, hscope, hroles]
      rfl
    refine seq_eq_ok.mpr ⟨_, required_eq_ok.mpr hlookup, ?_⟩
    refine seq_eq_ok.mpr ⟨_, mapError_ok_iff.mpr (hreaders ▸ hexplicit), ?_⟩
    rw [policyFrom, mappingOf, hreaders, hscope]
    rfl

/-! ## The loops -/

theorem nextSequence_eq (h : n < u64Max) : nextSequence n = .ok (n + 1) := by
  unfold nextSequence
  rw [refuse_neg (by omega)]
  rfl

theorem changed_cons (previous : Option LegacyMemoryScope) (entry : LegacyMemoryEntry)
    (entries : List LegacyMemoryEntry) :
    changed previous (entry :: entries) = changed previous [entry] ++ changed (some entry.scope) entries := by
  by_cases h : previous = some entry.scope
  · simp [changed, h]
  · simp [changed, h]

theorem changed_sublist (previous : Option LegacyMemoryScope) (entries : List LegacyMemoryEntry) :
    (changed previous entries).Sublist entries := by
  induction entries generalizing previous with
  | nil => exact .slnil
  | cons entry entries ih =>
    unfold changed
    split
    · exact (ih previous).cons _
    · exact (ih _).cons_cons _

theorem countDispositions_eq :
    countDispositions entry (dispositionsOf entries heads) = dispositionsOf (entries ++ [entry]) heads := by
  cases hembedding : entry.embedding <;>
    simp [countDispositions, dispositionsOf, Nat.mul_add, hembedding]

/-- What the inner loop has built after some more entries. -/
def PlannedStream.after (P : MigratePlatform) (input : MigrationPlanInput) (hash memoryId : String) (s : PlannedStream)
    (entries : List LegacyMemoryEntry) : PlannedStream where
  revisions := s.revisions ++
    numbered (Draft.record P input) s.revisions.length (chainDrafts memoryId s.parentRevisionId entries)
  policies := s.policies ++
    numbered (policyFrom P input hash) s.policies.length ((changed s.previousScope entries).map (memoryId, ·))
  parentRevisionId := (entries.getLast?.map (·.id)).or s.parentRevisionId
  previousScope := (entries.getLast?.map (·.scope)).or s.previousScope
  policyMappings := s.policyMappings ++ (changed s.previousScope entries).map (mappingOf input.preflight)
  dispositions := entries.foldl (fun d entry => countDispositions entry d) s.dispositions

theorem PlannedStream.after_cons :
    (s.after P input hash memoryId [entry]).after P input hash memoryId entries =
      s.after P input hash memoryId (entry :: entries) := by
  unfold PlannedStream.after
  rw [changed_cons s.previousScope entry entries]
  simp [numbered_append, chainDrafts, getLast?_cons]

theorem planRevision_eq {stream : LegacyStream} (h : Plannable P input.preflight entry)
    (hactor : input.importedByRole = personalOwnerRoleId) (hrevisions : s.revisions.length < u64Max)
    (hpolicies : s.policies.length < u64Max) :
    planRevision P input hash stream s entry.id = .ok (s.after P input hash stream.memoryId [entry]) := by
  have hpolicy : migrationPolicy P (policyInput input hash stream.memoryId (s.policies.length + 1) entry) = _ :=
    migrationPolicy_eq h hactor
  unfold policyInput at hpolicy
  unfold planRevision
  rw [h.found, required_some, seq_ok, h.roleOf_eq.1, required_some, seq_ok, nextSequence_eq hrevisions, seq_ok,
    canonicalRevision_eq input ⟨entry, stream.memoryId, entry.id, s.parentRevisionId, false⟩ _ h.hashed, seq_ok]
  unfold planPolicy PlannedStream.after
  by_cases hscope : s.previousScope = some entry.scope
  · simp [changed, hscope, chainDrafts]
  · rw [nextSequence_eq hpolicies, seq_ok, hpolicy]
    simp [changed, hscope, chainDrafts]

variable {entries : List LegacyMemoryEntry} {stream : Stream}

theorem planRevisions_eq (hash : String) (stream : LegacyStream)
    (h : ∀ entry ∈ entries, Plannable P input.preflight entry) (hactor : input.importedByRole = personalOwnerRoleId)
    (s : PlannedStream) (hrevisions : s.revisions.length + entries.length ≤ u64Max)
    (hpolicies : s.policies.length + entries.length ≤ u64Max) :
    (entries.map (·.id)).foldlM (planRevision P input hash stream) s =
      .ok (s.after P input hash stream.memoryId entries) := by
  induction entries generalizing s with
  | nil => simp [PlannedStream.after, changed, chainDrafts]
  | cons entry entries ih =>
    simp only [length_cons] at hrevisions hpolicies
    have hone := (changed_sublist s.previousScope [entry]).length_le
    simp only [length_singleton] at hone
    rw [map_cons, foldlM_cons, planRevision_eq (h entry (by simp)) hactor (by omega) (by omega), seq_ok,
      ih (fun e he => h e (by simp [he])), PlannedStream.after_cons]
    · simp only [PlannedStream.after, length_append, length_numbered, chainDrafts, length_singleton]
      omega
    · simp only [PlannedStream.after, length_append, length_numbered, length_map]
      omega

theorem planHead_eq (h : Plannable P input.preflight stream.head) (hrevisions : s.revisions.length < u64Max)
    (hd : s.dispositions = dispositionsOf entries heads) :
    planHead P input hash stream.report stream.head s = .ok
      (s.revisions ++ numbered (Draft.record P input) s.revisions.length (stream.tombstone P hash),
        dispositionsOf entries (heads ++ [stream.head]), (stream.mapping P input hash).tombstoneRevisionId) := by
  unfold planHead tombstone mapping
  cases hdeleted : stream.head.deletedAt with
  | some deletedAt =>
    rw [nextSequence_eq hrevisions, seq_ok]
    dsimp only [report]
    rw [← tombstoneId, canonicalRevision_eq input
      ⟨stream.head, stream.1.id, tombstoneId P hash stream.head, some stream.head.id, true⟩ _ h.hashed, hd]
    simp [dispositionsOf, hdeleted]
  | none =>
    rw [hd]
    simp [dispositionsOf, hdeleted]

theorem createdAtMappings_eq (h : ∀ entry ∈ entries, Plannable P input.preflight entry) :
    (entries.map (·.id)).mapM (createdAtMapping input.preflight) =
      .ok (entries.map fun entry => ⟨entry.id, entry.createdAt.toNat⟩) := by
  induction entries with
  | nil => rfl
  | cons entry entries ih =>
    refine mapM_cons_eq_ok.mpr ⟨_, _, ?_, ih fun e he => h e (by simp [he]), rfl⟩
    unfold createdAtMapping
    rw [(h entry (by simp)).found]
    rfl

theorem foldl_countDispositions (more entries heads : List LegacyMemoryEntry) :
    more.foldl (fun d entry => countDispositions entry d) (dispositionsOf entries heads) =
      dispositionsOf (entries ++ more) heads := by
  induction more generalizing entries with
  | nil => simp
  | cons entry more ih => rw [foldl_cons, countDispositions_eq, ih, append_assoc, singleton_append]

theorem length_chainDrafts {parent : Option String} :
    (chainDrafts memoryId parent entries).length = entries.length := by
  induction entries generalizing parent with
  | nil => rfl
  | cons entry entries ih => simp [chainDrafts, ih]

theorem head_mem (stream : Stream) : stream.head ∈ stream.entries :=
  getLast_mem _

theorem getLast?_entries : stream.entries.getLast? = some stream.head :=
  getLast?_eq_some_getLast _

theorem length_tombstone_le (P : MigratePlatform) (hash : String) (stream : Stream) :
    (stream.tombstone P hash).length ≤ 1 := by
  unfold tombstone
  split <;> simp

theorem length_flatMap_le {α β γ : Type} {f : α → List β} {g : α → List γ}
    (h : ∀ a, (f a).length ≤ n * (g a).length) (l : List α) : (l.flatMap f).length ≤ n * (l.flatMap g).length := by
  induction l with
  | nil => simp
  | cons a l ih =>
    rw [flatMap_cons, flatMap_cons, length_append, length_append, Nat.mul_add]
    exact Nat.add_le_add (h a) ih

theorem length_drafts_le (P : MigratePlatform) (hash : String) (streams : List Stream) :
    (streams.flatMap (Stream.drafts P hash)).length ≤ 2 * (streams.flatMap Stream.entries).length := by
  refine length_flatMap_le (fun stream => ?_) streams
  have htombstone := length_tombstone_le P hash stream
  have hnonempty : 0 < stream.entries.length := by simp [entries]
  rw [drafts, length_append, length_chainDrafts]
  omega

theorem length_policies_le (streams : List Stream) :
    (streams.flatMap Stream.changed).length ≤ (streams.flatMap Stream.entries).length := by
  have h := length_flatMap_le (f := Stream.changed) (g := Stream.entries) (n := 1) (fun stream => ?_) streams
  · omega
  · rw [Stream.changed, length_map, Nat.one_mul]
    exact (changed_sublist _ _).length_le

/-- One pass of the outer loop adds the records of its stream. -/
theorem planStream_eq {pre : List Stream} (h : ∀ entry ∈ stream.entries, Plannable P input.preflight entry)
    (hactor : input.importedByRole = personalOwnerRoleId)
    (hlength : 2 * ((pre ++ [stream]).flatMap Stream.entries).length ≤ u64Max) :
    planStream P input hash (planned P input hash pre) stream.report = .ok
    (planned P input hash (pre ++ [stream])) := by
  have hrevisions := length_drafts_le P hash pre
  have hpolicies := length_policies_le pre
  have hnonempty : 0 < stream.entries.length := by simp [Stream.entries]
  simp only [flatMap_append, flatMap_singleton, length_append] at hlength
  have hloop := planRevisions_eq hash stream.report h hactor
    ⟨(planned P input hash pre).revisions, (planned P input hash pre).policies, none, none, [],
      (planned P input hash pre).dispositions⟩
    (by simp only [planned, length_numbered]; omega) (by simp only [planned, length_numbered]; omega)
  have hhead := h stream.head (head_mem stream)
  unfold planStream
  rw [show stream.report.revisionIds = stream.entries.map (·.id) from rfl, hloop, seq_ok, getLast?_map,
    getLast?_entries, Option.map_some, required_some, seq_ok, hhead.found, required_some, seq_ok,
    planHead_eq hhead (by
      simp only [planned, PlannedStream.after, length_append, length_numbered, length_chainDrafts]; omega)
      (foldl_countDispositions _ _ _)]
  dsimp only
  rw [createdAtMappings_eq h, seq_ok]
  have hmapping : (stream.mapping P input hash).targetHeadRevisionId =
      (stream.mapping P input hash).tombstoneRevisionId.getD stream.head.id := by
    unfold Stream.mapping
    cases stream.head.deletedAt <;> rfl
  rw [← hmapping]
  simp [planned, PlannedStream.after, numbered_append, Stream.drafts, Stream.changed, Stream.report, Stream.mapping]

/-- The planner's loops write the records of the streams. -/
theorem planStreams_eq {streams : List Stream}
    (h : ∀ stream ∈ streams, ∀ entry ∈ stream.entries, Plannable P input.preflight entry)
    (hactor : input.importedByRole = personalOwnerRoleId)
    (hlength : 2 * (streams.flatMap Stream.entries).length ≤ u64Max) :
    (streams.map Stream.report).foldlM (planStream P input hash) ⟨[], [], [], ⟨0, 0, 0, 0, 0, 0, 0⟩⟩ =
      .ok (planned P input hash streams) := by
  induction streams using List.reverseRecOn with
  | nil => rfl
  | append_singleton pre stream ih =>
    have hpre : 2 * (pre.flatMap Stream.entries).length ≤ u64Max := by
      rw [flatMap_append, length_append] at hlength
      omega
    rw [map_append, foldlM_append, ih (fun s hs => h s (by simp [hs])) hpre, seq_ok, map_singleton,
      foldlM_cons, planStream_eq (h stream (by simp)) hactor hlength]
    rfl

end Plico.Migrate
