import Plico.Proof.Migrate.Manifest

/-!
# A plan is faithful to its source

What a migration is for: every stream of the old store is a memory of the new one with a revision per entry, in order
(`Imports`), a tombstone if it was deleted (`Buries`), and at each of its entries a policy in effect whose readers are
the audience of the entry's scope (`Audience`). The planned records have this (`Ready.faithful_planned`).
-/

namespace Plico.Migrate

open Migrate.Stream List Plico.Ledger

variable {entry : LegacyMemoryEntry}

/-- Who may read an entry of the old store: by the mappings of the report, its agent and the owner, every role
authorized at the cutoff, or its group with both of them. -/
def Audience (report : LegacyPreflightReport) (entry : LegacyMemoryEntry) (role : String) : Prop :=
  match entry.scope with
  | .private_ => role = personalOwnerRoleId ∨ ⟨entry.agentId, role⟩ ∈ report.roleMappings
  | .shared => role ∈ report.authorizedRoleIds
  | .group groupId => role = personalOwnerRoleId ∨ ⟨entry.agentId, role⟩ ∈ report.roleMappings ∨
      ∃ mapping ∈ report.groupMappings, mapping.legacyGroupId = groupId ∧ role ∈ mapping.targetRoleIds

/-- A revision with what an entry holds. -/
structure Holds (entry : LegacyMemoryEntry) (r : CanonicalRevision) : Prop where
  content : r.content = entry.content
  tags : r.tags = entry.tags
  tier : r.cognitiveTier = entry.tier
  memoryType : r.memoryType = entry.memoryType

/-- The revision that an entry is imported as. -/
structure Imports (entry : LegacyMemoryEntry) (r : CanonicalRevision) : Prop extends Holds entry r where
  revisionId : r.revisionId = entry.id
  live : r.deletedAt = none

/-- The tombstone that a deleted head is given. -/
structure Buries (importedAt : Nat) (head : LegacyMemoryEntry) (r : CanonicalRevision) : Prop extends Holds head r where
  deletedAt : r.deletedAt = some importedAt

/-- The policies of a memory that are effective from one of these revisions. -/
def effectiveFrom (policies : List PolicyRecord) (memoryId : String) (revisionIds : List String) : List PolicyRecord :=
  policies.filter fun p => p.memoryId = memoryId ∧ p.effectiveFromRevisionId ∈ revisionIds

/-- One stream of the source, with its entries in order, in the plan. -/
structure FaithfulStream (report : LegacyPreflightReport) (plan : MigrationRecordPlan) (importedAt : Nat)
    (stream : LegacyStream) (entries : List LegacyMemoryEntry) : Prop where
  found : stream.revisionIds.map report.entry = entries.map some
  revisions : ∃ imports tombstones, memoryRevisions plan.revisions stream.memoryId = imports ++ tombstones ∧
    List.Forall₂ Imports entries imports ∧ ∀ head ∈ entries.getLast?,
      List.Forall₂ (Buries importedAt) (if head.deletedAt.isSome then [head] else []) tombstones
  root : ∀ first ∈ (memoryRevisions plan.revisions stream.memoryId).head?, first.parentRevisionId = none
  parents : (memoryRevisions plan.revisions stream.memoryId).IsChain fun a b => b.parentRevisionId = some a.revisionId
  -- the policy in effect at an entry is the last one effective from it or from an entry before it
  audience : ∀ i entry, entries[i]? = some entry →
    ∃ p, (effectiveFrom plan.policies stream.memoryId (stream.revisionIds.take (i + 1))).getLast? = some p ∧
      ∀ role, role ∈ p.readerRoles ↔ Audience report entry role

/-- The streams are all there is, each of them faithful. -/
structure Faithful (report : LegacyPreflightReport) (importedAt : Nat) (plan : MigrationRecordPlan) : Prop where
  memories : (report.streams.map (·.memoryId)).Nodup
  partition : (report.streams.flatMap (·.revisionIds)).Perm (report.entries.map (·.id))
  revisions : ∀ r ∈ plan.revisions, r.memoryId ∈ report.streams.map (·.memoryId)
  policies : ∀ p ∈ plan.policies, p.memoryId ∈ report.streams.map (·.memoryId)
  streams : ∀ stream ∈ report.streams, ∃ entries, FaithfulStream report plan importedAt stream entries

variable {P : MigratePlatform} {input : MigrationPlanInput} {hash : String} {streams : List Stream} {stream : Stream}
  {l : List LegacyMemoryEntry}

/-! ## The policy in effect -/

/-- The last scope of some entries, or the one before them. -/
def lastScope (previous : Option LegacyMemoryScope) (entries : List LegacyMemoryEntry) : Option LegacyMemoryScope :=
  (entries.getLast?.map (·.scope)).or previous

theorem changed_append (previous : Option LegacyMemoryScope) (l l' : List LegacyMemoryEntry) :
    changed previous (l ++ l') = changed previous l ++ changed (lastScope previous l) l' := by
  induction l generalizing previous with
  | nil => simp [changed, lastScope]
  | cons entry l ih =>
    have hlast p : lastScope (some entry.scope) l = lastScope p (entry :: l) := by
      cases h : l.getLast? <;> simp [lastScope, getLast?_cons]
    rw [cons_append, changed_cons previous entry (l ++ l'), changed_cons previous entry l, ih, ← hlast previous,
      append_assoc]

/-- The last change before a point has the scope of that point. -/
theorem scope_of_changed (h : l.getLast? = some entry) :
    ∃ source, (changed none l).getLast? = some source ∧ source.scope = entry.scope := by
  induction l using List.reverseRecOn generalizing entry with
  | nil => cases h
  | append_singleton l last ih =>
    obtain rfl : last = entry := by simpa using h
    rw [changed_append]
    by_cases hsame : lastScope none l = some last.scope
    · cases hlast : l.getLast? with
      | none => simp [lastScope, hlast] at hsame
      | some before =>
        obtain ⟨source, hsource, hscope⟩ := ih hlast
        have hbefore : before.scope = last.scope := by simpa [lastScope, hlast] using hsame
        refine ⟨source, ?_, hscope.trans hbefore⟩
        simp [changed, hsame, hsource]
    · exact ⟨last, by simp [changed, hsame], rfl⟩

/-- Among entries with distinct ids, the changes up to a point are those whose ids are up to that point. -/
theorem changed_take (hn : (l.map (·.id)).Nodup) (n : Nat) :
    (changed none l).filter (fun source => source.id ∈ (l.map (·.id)).take n) = changed none (l.take n) := by
  have hsplit := changed_append none (l.take n) (l.drop n)
  rw [take_append_drop] at hsplit
  rw [← map_take, hsplit, filter_append, filter_eq_self.mpr, filter_eq_nil_iff.mpr, append_nil]
  · intro source hsource
    rw [← take_append_drop n l, map_append] at hn
    have hlater : source.id ∈ (l.drop n).map (·.id) := mem_map_of_mem ((changed_sublist _ _).subset hsource)
    simpa only [decide_eq_true_eq] using fun hearlier => disjoint_of_nodup_append hn hearlier hlater
  · intro source hsource
    exact decide_eq_true (mem_map_of_mem ((changed_sublist _ _).subset hsource))

/-! ## The planned records -/

theorem imports_chainDrafts (memoryId : String) (parent : Option String) (n : Nat) (entries : List LegacyMemoryEntry) :
    List.Forall₂ Imports entries (numbered (Draft.record P input) n (chainDrafts memoryId parent entries)) := by
  induction entries generalizing parent n with
  | nil => exact .nil
  | cons entry entries ih => exact .cons ⟨⟨rfl, rfl, rfl, rfl⟩, rfl, rfl⟩ (ih _ _)

namespace Ready

variable (h : Ready P input hash streams)

include h

theorem mem_readersOf (hentry : entry ∈ input.preflight.entries) {role : String} :
    role ∈ readersOf input.preflight entry ↔ Audience input.preflight entry role := by
  have hlookup := (h.plannable _ hentry).roleOf_eq.1
  have hrole : role = roleOf input.preflight entry.agentId ↔ ⟨entry.agentId, role⟩ ∈ input.preflight.roleMappings := by
    constructor
    · rintro rfl
      obtain ⟨mapping, hmapping, hagent, hrole⟩ := (lookup_index_of_nodup _ h.roles).mp hlookup
      rwa [← hrole, ← hagent]
    · intro hmapping
      have hfound : (roleByAgent input.preflight).lookup entry.agentId = some role :=
        (lookup_index_of_nodup _ h.roles).mpr ⟨_, hmapping, rfl, rfl⟩
      exact Option.some.inj (hfound.symm.trans hlookup)
  unfold readersOf Audience
  cases hscope : entry.scope with
  | private_ => rw [mem_originRoles, hrole, or_comm]
  | shared => rfl
  | group groupId =>
    obtain ⟨roles, hroles⟩ := (h.plannable _ hentry).group groupId hscope
    have hgroup : role ∈ roles ↔ ∃ mapping ∈ input.preflight.groupMappings, mapping.legacyGroupId = groupId ∧
        role ∈ mapping.targetRoleIds := by
      constructor
      · intro hmem
        obtain ⟨mapping, hmapping, hid, rfl⟩ := (lookup_index_of_nodup _ h.groups).mp hroles
        exact ⟨mapping, hmapping, hid, hmem⟩
      · rintro ⟨mapping, hmapping, hid, hmem⟩
        have hfound : (groupRoles input.preflight).lookup groupId = some mapping.targetRoleIds :=
          (lookup_index_of_nodup _ h.groups).mpr ⟨mapping, hmapping, hid, rfl⟩
        rwa [← Option.some.inj (hfound.symm.trans hroles)]
    dsimp only
    rw [hroles, Option.getD_some, mem_sortDedup, mem_append, mem_pair, hgroup, hrole,
      or_rotate, or_left_comm]

/-- The policy in effect at an entry of a planned stream. -/
theorem policy_in_effect (hs : stream ∈ streams) {i : Nat} (he : stream.entries[i]? = some entry) :
    ∃ p, (effectiveFrom h.plan.policies stream.1.id
        ((stream.entries.map (·.id)).take (i + 1))).getLast? = some p ∧
      p.readerRoles = readersOf input.preflight entry := by
  obtain ⟨m, hpolicies⟩ := h.memoryPolicies_planned hs
  have hstream := h.split.isStream stream hs
  have hids : (stream.entries.map (·.id)).Nodup := by
    have hall := h.entry_ids_nodup
    exact (nodup_flatMap.mp hall).1 stream hs
  -- the changes up to the entry, and the last of them
  have hlast : (stream.entries.take (i + 1)).getLast? = some entry := by
    rw [take_add_one, he]
    simp
  obtain ⟨source, hsource, hscope⟩ := scope_of_changed hlast
  have hreaders : (effectiveFrom h.plan.policies stream.1.id
      ((stream.entries.map (·.id)).take (i + 1))).map (·.readerRoles) =
        (changed none (stream.entries.take (i + 1))).map (readersOf input.preflight) := by
    have hfilter : effectiveFrom h.plan.policies stream.1.id
        ((stream.entries.map (·.id)).take (i + 1)) =
          (numbered (policyFrom P input hash) m stream.changed).filter fun p =>
            p.effectiveFromRevisionId ∈ (stream.entries.map (·.id)).take (i + 1) := by
      rw [← hpolicies, Plico.stream, filter_filter]
      refine filter_congr fun p _ => ?_
      rw [Bool.decide_and, Bool.and_comm]
    rw [hfilter, map_filter_numbered (q := fun source =>
      source.2.id ∈ (stream.entries.map (·.id)).take (i + 1)) (fun _ _ => rfl) (policyFrom_readerRoles P input hash),
      Stream.changed, filter_map, map_map, ← changed_take hids]
    rfl
  have hlastReaders := congrArg List.getLast? hreaders
  rw [getLast?_map, getLast?_map, hsource] at hlastReaders
  obtain ⟨p, hp, hroles⟩ := Option.map_eq_some_iff.mp hlastReaders
  refine ⟨p, hp, hroles.trans ?_⟩
  -- the readers depend on the scope and the agent, which the two entries have in common
  have hentry := mem_of_getElem? he
  have hsourceMem := mem_of_mem_take ((changed_sublist _ _).subset (mem_of_getLast? hsource))
  have hagent : source.agentId = entry.agentId :=
    (hstream.agentId_root hsourceMem).trans (hstream.agentId_root hentry).symm
  rw [readersOf, readersOf, hscope, hagent]

theorem revisions_of_stream (hs : stream ∈ streams) : ∃ imports tombstones,
    memoryRevisions h.plan.revisions stream.1.id = imports ++ tombstones ∧
      List.Forall₂ Imports stream.entries imports ∧
      List.Forall₂ (Buries input.importedAt)
      (if stream.head.deletedAt.isSome then [stream.head] else []) tombstones := by
  obtain ⟨m, hrevisions⟩ := h.memoryRevisions_planned hs
  rw [drafts, numbered_append] at hrevisions
  refine ⟨_, _, hrevisions, ?_, ?_⟩
  · exact imports_chainDrafts _ _ _ _
  · unfold tombstone
    split
    · exact .cons ⟨⟨rfl, rfl, rfl, rfl⟩, rfl⟩ .nil
    · exact .nil

theorem faithful_stream (hs : stream ∈ streams) : FaithfulStream input.preflight
    ⟨input.sourceManifest, manifestOf P input hash streams, h.plan.revisions,
      h.plan.policies⟩ input.importedAt stream.report stream.entries where
  found := by
    rw [report, map_map]
    exact map_congr_left fun _ => h.found hs
  revisions := by
    obtain ⟨imports, tombstones, hrevisions, himports, htombstones⟩ := h.revisions_of_stream hs
    refine ⟨imports, tombstones, hrevisions, himports, fun head hhead => ?_⟩
    obtain rfl : stream.head = head := by simpa [getLast?_entries] using hhead
    exact htombstones
  root := by
    obtain ⟨m, hrevisions⟩ := h.memoryRevisions_planned hs
    intro first hfirst
    have hhead : first = Draft.record P input ⟨stream.1, stream.1.id, stream.1.id, none, false⟩ (m + 1) := by
      rw [show stream.report.memoryId = stream.1.id from rfl, hrevisions] at hfirst
      simpa [drafts, entries, chainDrafts, eq_comm] using hfirst
    rw [hhead]
    rfl
  parents := by
    obtain ⟨m, hrevisions⟩ := h.memoryRevisions_planned hs
    rw [show stream.report.memoryId = stream.1.id from rfl, hrevisions]
    exact isChain_numbered ((isChain_drafts (h.split.isStream stream hs)).imp fun _ _ hab _ => hab.link) m
  audience := by
    intro i entry he
    obtain ⟨p, hp, hreaders⟩ := h.policy_in_effect hs he
    refine ⟨p, hp, fun role => ?_⟩
    rw [hreaders]
    exact h.mem_readersOf (h.mem_entries hs (mem_of_getElem? he))

/-- The plan of a ready source is faithful to it. -/
theorem faithful_planned : Faithful input.preflight input.importedAt
    ⟨input.sourceManifest, manifestOf P input hash streams, h.plan.revisions,
      h.plan.policies⟩ where
  memories := by
    rw [h.reported, map_map]
    exact h.roots_nodup
  partition := by
    rw [h.reported, flatMap_map]
    have hids : (streams.flatMap fun stream => stream.report.revisionIds) = (streams.flatMap entries).map (·.id) :=
      (map_flatMap ..).symm
    rw [hids]
    exact h.split.partition.map _
  revisions := by
    intro r hr
    obtain ⟨stream, hs, d, hd, m, rfl⟩ := mem_planned hr
    rw [h.reported, map_map]
    exact mem_map.mpr ⟨stream, hs, (mem_drafts hd).2.1.symm⟩
  policies := by
    intro p hp
    obtain ⟨stream, hs, entry, -, m, rfl⟩ := mem_policies hp
    rw [h.reported, map_map]
    exact mem_map_of_mem hs
  streams := by
    intro reported hreported
    rw [h.reported] at hreported
    obtain ⟨stream, hs, rfl⟩ := mem_map.mp hreported
    exact ⟨stream.entries, h.faithful_stream hs⟩

end Ready

end Plico.Migrate
