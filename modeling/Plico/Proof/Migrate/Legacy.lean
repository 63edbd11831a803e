import Mathlib.Data.List.Perm.Basic
import Plico.Model.Ledger.Json
import Plico.Model.Migrate.Legacy

/-!
# The preflight accepts exactly the well-formed histories

A well-formed history is a set of streams: a root followed by the entries that supersede one another, up to the head
(`IsStream`). From the checks of single links and the walks from the roots, `validateStreams_sound` recovers such
streams, and `validateStreams_complete` shows that the checks pass on any of them.
-/

namespace Plico.Migrate

open List Plico.Ledger

variable {P : Platform}

/-! ## Well-formed histories -/

/-- The second entry supersedes the first, which is not deleted and shares its role, namespace and tier. -/
structure Precedes (a b : LegacyMemoryEntry) : Prop where
  forward : a.supersededBy = some b.id
  backward : b.supersedes = some a.id
  agentId : a.agentId = b.agentId
  tenantId : a.tenantId = b.tenantId
  tier : a.tier = b.tier
  kept : a.deletedAt = none

/-- A stream: its root and the entries that follow it. -/
abbrev Stream := LegacyMemoryEntry × List LegacyMemoryEntry

def Stream.entries (stream : Stream) : List LegacyMemoryEntry := stream.1 :: stream.2

structure IsStream (stream : Stream) : Prop where
  root : stream.1.supersedes = none
  linked : stream.entries.IsChain Precedes
  head : ∀ head ∈ stream.entries.getLast?, head.supersededBy = none

/-- The streams have the entries between them, each once. -/
structure Streams (entries : List LegacyMemoryEntry) (streams : List Stream) : Prop where
  partition : (streams.flatMap Stream.entries).Perm entries
  isStream : ∀ stream ∈ streams, IsStream stream

/-- The report of a stream: the ids of its entries, root first. -/
def Stream.report (stream : Stream) : LegacyStream := ⟨stream.1.id, stream.entries.map (·.id)⟩

variable {entries : List LegacyMemoryEntry} {entry : LegacyMemoryEntry} {id : String}

/-! ## Finding entries -/

theorem findEntry_eq_some (h : findEntry entries id = some entry) : entry ∈ entries ∧ entry.id = id :=
  ⟨mem_of_find?_eq_some h, by simpa using find?_some h⟩

variable {a b : LegacyMemoryEntry}

theorem eq_of_id (hn : (entries.map (·.id)).Nodup) (ha : a ∈ entries) (hb : b ∈ entries) (h : a.id = b.id) : a = b :=
  inj_on_of_nodup_map hn ha hb h

theorem findEntry_of_mem (hn : (entries.map (·.id)).Nodup) (h : entry ∈ entries) :
    findEntry entries entry.id = some entry := by
  cases hfind : findEntry entries entry.id with
  | none => simpa using find?_eq_none.mp hfind entry h
  | some found =>
    obtain ⟨hmem, hid⟩ := findEntry_eq_some hfind
    rw [eq_of_id hn hmem h hid]

theorem indexEntry_eq_ok : indexEntry entries id = .ok entry ↔ findEntry entries id = some entry :=
  required_eq_ok

/-! ## Links -/

theorem validateLinkBoundary_eq_ok :
    validateLinkBoundary a b = .ok () ↔ a.agentId = b.agentId ∧ a.tenantId = b.tenantId ∧ a.tier = b.tier := by
  simp [validateLinkBoundary, check_eq_ok]

theorem validateLink_eq_ok {link back : LegacyMemoryEntry → Option String} :
    validateLink entries entry link back = .ok () ↔ ∀ targetId, link entry = some targetId →
      ∃ target, findEntry entries targetId = some target ∧ back target = some entry.id ∧
        validateLinkBoundary entry target = .ok () := by
  unfold validateLink
  cases link entry with
  | none => simp
  | some targetId => simp [seq_eq_ok]

theorem validateLinks_eq_ok : validateLinks entries entry = .ok () ↔
    (entry.supersedes ≠ some entry.id ∧ entry.supersededBy ≠ some entry.id) ∧
      validateLink entries entry (·.supersedes) (·.supersededBy) = .ok () ∧
      validateLink entries entry (·.supersededBy) (·.supersedes) = .ok () := by
  simp [validateLinks, check_eq_ok]

/-! ## Accepted histories are well formed -/

/-- The walk along the links of the entries. -/
abbrev Follows (entries : List LegacyMemoryEntry) (next : Option String) (chain : List (String × LegacyMemoryEntry)) :
    Prop :=
  Linked (indexEntry entries) (·.supersededBy) next chain

variable {next : Option String} {chain : List (String × LegacyMemoryEntry)}

theorem mem_of_follows (h : Follows entries next chain) {x : String × LegacyMemoryEntry} (hx : x ∈ chain) :
    x.2 ∈ entries ∧ x.2.id = x.1 :=
  findEntry_eq_some (indexEntry_eq_ok.mp (h.read_of_mem hx))

theorem ids_of_follows (h : Follows entries next chain) : (chain.map Prod.snd).map (·.id) = chain.map Prod.fst := by
  rw [map_map]
  exact map_congr_left fun x hx => (mem_of_follows h hx).2

/-- A link of an entry that passed its checks, as the pair it joins. -/
theorem precedes_of_link (hlinks : validateLinks entries a = .ok ()) (hb : findEntry entries b.id = some b)
    (hforward : a.supersededBy = some b.id) (hkept : a.deletedAt = none) : Precedes a b := by
  obtain ⟨target, htarget, hback, hboundary⟩ :=
    validateLink_eq_ok.mp (validateLinks_eq_ok.mp hlinks).2.2 b.id hforward
  cases htarget.symm.trans hb
  obtain ⟨hagent, htenant, htier⟩ := validateLinkBoundary_eq_ok.mp hboundary
  exact ⟨hforward, hback, hagent, htenant, htier, hkept⟩

/-- A walk whose entries passed the checks, none deleted but the last, goes from each entry to the one that supersedes
it and ends at one that nothing supersedes. -/
theorem chain_of_follows (hlinks : ∀ entry ∈ entries, validateLinks entries entry = .ok ())
    (h : Follows entries next chain) (hkept : ∀ x ∈ chain.dropLast, x.2.deletedAt = none) :
    (chain.map Prod.snd).IsChain Precedes ∧ ∀ head ∈ (chain.map Prod.snd).getLast?, head.supersededBy = none := by
  induction h with
  | nil => simp
  | @cons k a rest hread hrest ih =>
    have ha := mem_of_follows (.cons hread hrest) mem_cons_self
    cases hnext : a.supersededBy with
    | none =>
      rw [hnext] at hrest
      cases hrest
      simp [hnext]
    | some childId =>
      rw [hnext] at hrest
      cases hrest with
      | @cons _ b rest hreadb hrestb =>
        have hfind := indexEntry_eq_ok.mp hreadb
        obtain ⟨-, rfl⟩ := findEntry_eq_some hfind
        have hpre : Precedes a b := precedes_of_link (hlinks a ha.1) hfind hnext (hkept _ mem_cons_self)
        obtain ⟨hchain, hhead⟩ := ih fun x hx => hkept x (mem_cons_of_mem _ hx)
        refine ⟨isChain_cons_cons.mpr ⟨hpre, hchain⟩, ?_⟩
        simpa using hhead

variable {visited : List String} {roots : List LegacyMemoryEntry} {l : List LegacyMemoryEntry}
  {R : α → α → Prop}

/-- What the loop over the roots found, when it succeeded: a stream for each root, reported in order. -/
theorem buildStreams_sound (hn : (entries.map (·.id)).Nodup)
    (hlinks : ∀ entry ∈ entries, validateLinks entries entry = .ok ())
    (hroots : ∀ root ∈ roots, root ∈ entries ∧ root.supersedes = none) {visited' : List String}
    {streams streams' : List LegacyStream} (hvisited : visited.Nodup)
    (h : buildStreams entries visited streams roots = .ok (visited', streams')) :
    ∃ found : List Stream, streams' = streams ++ found.map Stream.report ∧ (∀ stream ∈ found, IsStream stream) ∧
      (∀ entry ∈ found.flatMap Stream.entries, entry ∈ entries) ∧ visited'.Nodup ∧
      visited'.Perm ((found.flatMap Stream.entries).map (·.id) ++ visited) := by
  induction roots generalizing visited streams with
  | nil =>
    cases h
    exact ⟨[], by simp, by simp, by simp, hvisited, by simp⟩
  | cons root roots ih =>
    obtain ⟨chain, hwalk, h⟩ := of_seq h
    obtain ⟨_, hdeleted, h⟩ := of_seq h
    have hkept : ∀ x ∈ chain.dropLast, x.2.deletedAt = none := by
      intro x hx
      have hnone := refuse_eq_ok.mp hdeleted
      push Not at hnone
      simpa using hnone x hx
    have hfollows : Follows entries (some root.id) chain := (walk_spec hwalk).1
    obtain ⟨hkeys, hfresh⟩ := (walk_spec hwalk).2
    have hnodup := nodup_append'.mpr ⟨hkeys, hvisited, hfresh⟩
    obtain ⟨hroot, hsupersedes⟩ := hroots root mem_cons_self
    obtain ⟨found, hstreams, hfound, hmem, hnodup', hperm⟩ :=
      ih (fun r hr => hroots r (mem_cons_of_mem _ hr)) hnodup h
    obtain ⟨hchain, hhead⟩ := chain_of_follows hlinks hfollows hkept
    have hids := ids_of_follows hfollows
    -- the walk starts at the root itself
    obtain ⟨rest, hrest⟩ : ∃ rest, chain.map Prod.snd = root :: rest := by
      cases hfollows with
      | @cons _ a rest hread hrest =>
        have hfind := (indexEntry_eq_ok.mp hread).symm.trans (findEntry_of_mem hn hroot)
        exact ⟨rest.map Prod.snd, by rw [map_cons, Option.some.inj hfind]⟩
    have hentries : Stream.entries (root, rest) = chain.map Prod.snd := hrest.symm
    refine ⟨(root, rest) :: found, ?_, ?_, ?_, hnodup', ?_⟩
    · rw [hstreams, map_cons, Stream.report, hentries, hids]
      simp
    · intro stream hstream
      rcases mem_cons.mp hstream with rfl | hstream
      · exact ⟨hsupersedes, hentries ▸ hchain, hentries ▸ hhead⟩
      · exact hfound stream hstream
    · intro entry hentry
      rw [flatMap_cons, hentries, mem_append] at hentry
      rcases hentry with hentry | hentry
      · obtain ⟨x, hx, rfl⟩ := mem_map.mp hentry
        exact (mem_of_follows hfollows hx).1
      · exact hmem entry hentry
    · rw [flatMap_cons, hentries, map_append, hids]
      refine hperm.trans ?_
      rw [append_assoc]
      exact perm_append_comm_assoc _ _ _

theorem mem_rootsOf : entry ∈ rootsOf entries ↔ entry ∈ entries ∧ entry.supersedes = none := by
  rw [rootsOf, (perm_insertionSort _ _).mem_iff, mem_filter, Option.isNone_iff_eq_none]

theorem validateStreams_sound (hn : (entries.map (·.id)).Nodup) {reported : List LegacyStream}
    (h : validateStreams entries = .ok reported) :
    ∃ streams, Streams entries streams ∧ reported = streams.map Stream.report := by
  obtain ⟨_, -, ⟨⟩, hlinks, ⟨visited, built⟩, hbuild, h⟩ := of_seq₃ h
  obtain ⟨_, hcount, h⟩ := of_seq h
  cases h
  have hlength : visited.length = entries.length := not_not.mp (refuse_eq_ok.mp hcount)
  obtain ⟨streams, hbuilt, hstreams, hmem, hnodup, hperm⟩ :=
    buildStreams_sound hn (checkAll_eq_ok.mp hlinks) (fun _ => mem_rootsOf.mp) .nil hbuild
  rw [append_nil] at hperm
  -- as many distinct entries as there are: all of them
  have hdistinct := (hperm.nodup_iff.mp hnodup).of_map
  have hall : (streams.flatMap Stream.entries).Perm entries := by
    refine (subperm_of_subset hdistinct hmem).perm_of_length_le ?_
    rw [← hlength, hperm.length_eq, length_map]
  exact ⟨streams, ⟨hall, hstreams⟩, by simpa using hbuilt⟩

/-! ## Well-formed histories are accepted -/

/-- An element of a chain is its first, or another precedes it. -/
theorem exists_before {first a : α} {rest : List α} (h : (first :: rest).IsChain R)
    (ha : a ∈ first :: rest) : a = first ∨ ∃ b ∈ first :: rest, R b a := by
  obtain ⟨i, hi, rfl⟩ := getElem_of_mem ha
  cases i with
  | zero => exact .inl rfl
  | succ i => exact .inr ⟨_, getElem_mem (Nat.lt_of_succ_lt hi), isChain_iff_getElem.mp h i hi⟩

/-- An element of a chain is its last, or another follows it. -/
theorem exists_after {a : α} {l : List α} (h : l.IsChain R) (ha : a ∈ l) : a ∈ l.getLast? ∨ ∃ b ∈ l, R a b := by
  obtain ⟨i, hi, rfl⟩ := getElem_of_mem ha
  by_cases hnext : i + 1 < l.length
  · exact .inr ⟨_, getElem_mem hnext, isChain_iff_getElem.mp h i hnext⟩
  · obtain rfl : i = l.length - 1 := by omega
    simp [getLast?_eq_getElem?]

section

variable {streams : List Stream} (hn : (entries.map (·.id)).Nodup) (h : Streams entries streams)

include h

theorem mem_entries_iff : entry ∈ entries ↔ ∃ stream ∈ streams, entry ∈ stream.entries := by
  rw [← h.partition.mem_iff, mem_flatMap]

include hn

theorem ids_nodup : ((streams.flatMap Stream.entries).map (·.id)).Nodup :=
  (h.partition.map _).nodup_iff.mpr hn

/-- Along a stream each entry precedes another entry, never itself. -/
theorem linked_distinct {stream : Stream} (hstream : stream ∈ streams) :
    stream.entries.IsChain fun a b => Precedes a b ∧ a ≠ b := by
  have hnodup : stream.entries.Nodup :=
    (nodup_flatMap.mp (ids_nodup hn h).of_map).1 stream hstream
  have hlinked := isChain_iff_getElem.mp (h.isStream stream hstream).linked
  have hdistinct := isChain_iff_getElem.mp hnodup.isChain
  exact isChain_iff_getElem.mpr fun i hi => ⟨hlinked i hi, hdistinct i hi⟩

theorem before_entry (hentry : entry ∈ entries) (hlink : entry.supersedes = some id) :
    ∃ parent ∈ entries, parent.id = id ∧ Precedes parent entry ∧ parent ≠ entry := by
  obtain ⟨stream, hstream, hmem⟩ := (mem_entries_iff h).mp hentry
  rcases exists_before (linked_distinct hn h hstream) hmem with rfl | ⟨parent, hparent, hpre⟩
  · simp [(h.isStream stream hstream).root] at hlink
  · exact ⟨parent, (mem_entries_iff h).mpr ⟨stream, hstream, hparent⟩,
      Option.some.inj (hpre.1.backward.symm.trans hlink), hpre⟩

theorem after_entry (hentry : entry ∈ entries) (hlink : entry.supersededBy = some id) :
    ∃ child ∈ entries, child.id = id ∧ Precedes entry child ∧ entry ≠ child := by
  obtain ⟨stream, hstream, hmem⟩ := (mem_entries_iff h).mp hentry
  rcases exists_after (linked_distinct hn h hstream) hmem with hlast | ⟨child, hchild, hpre⟩
  · simp [(h.isStream stream hstream).head entry hlast] at hlink
  · exact ⟨child, (mem_entries_iff h).mpr ⟨stream, hstream, hchild⟩,
      Option.some.inj (hpre.1.forward.symm.trans hlink), hpre⟩

theorem validateLinks_complete (hentry : entry ∈ entries) : validateLinks entries entry = .ok () := by
  refine validateLinks_eq_ok.mpr ⟨⟨fun hself => ?_, fun hself => ?_⟩, validateLink_eq_ok.mpr fun parentId hlink => ?_,
    validateLink_eq_ok.mpr fun childId hlink => ?_⟩
  · obtain ⟨parent, hparent, hid, -, hne⟩ := before_entry hn h hentry hself
    exact hne (eq_of_id hn hparent hentry hid)
  · obtain ⟨child, hchild, hid, -, hne⟩ := after_entry hn h hentry hself
    exact hne (eq_of_id hn hentry hchild hid.symm)
  · obtain ⟨parent, hparent, rfl, hpre, -⟩ := before_entry hn h hentry hlink
    exact ⟨parent, findEntry_of_mem hn hparent, hpre.forward,
      validateLinkBoundary_eq_ok.mpr ⟨hpre.agentId.symm, hpre.tenantId.symm, hpre.tier.symm⟩⟩
  · obtain ⟨child, hchild, rfl, hpre, -⟩ := after_entry hn h hentry hlink
    exact ⟨child, findEntry_of_mem hn hchild, hpre.backward,
      validateLinkBoundary_eq_ok.mpr ⟨hpre.agentId, hpre.tenantId, hpre.tier⟩⟩

/-- No entry is superseded by two. -/
theorem childCount_le_one {parentId : String} : childCount entries parentId ≤ 1 := by
  have hmem : ∀ a ∈ entries.filter fun entry => entry.supersedes == some parentId,
      a ∈ entries ∧ a.supersedes = some parentId := by
    simp
  unfold childCount
  cases hchildren : entries.filter fun entry => entry.supersedes == some parentId with
  | nil => simp
  | cons a rest =>
    have hnodup : (a :: rest).Nodup := hchildren ▸ hn.of_map.filter _
    rw [hchildren] at hmem
    obtain ⟨ha, hsa⟩ := hmem a mem_cons_self
    obtain ⟨parent, hparent, rfl, hpre, -⟩ := before_entry hn h ha hsa
    refine hnodup.length_le_of_subset (?_ : _ ⊆ [a])
    intro b hb
    obtain ⟨parent', hparent', hid, hpre', -⟩ := before_entry hn h (hmem b hb).1 (hmem b hb).2
    obtain rfl := eq_of_id hn hparent' hparent hid
    rw [mem_singleton]
    exact eq_of_id hn (hmem b hb).1 ha (Option.some.inj (hpre'.forward.symm.trans hpre.forward))

end

/-- The entries of a chain, read one from the other. -/
theorem follows_of_chain (hn : (entries.map (·.id)).Nodup) {first : LegacyMemoryEntry} {rest : List LegacyMemoryEntry}
    (hmem : ∀ entry ∈ first :: rest, entry ∈ entries) (hlinked : (first :: rest).IsChain Precedes)
    (hhead : ∀ head ∈ (first :: rest).getLast?, head.supersededBy = none) :
    Follows entries (some first.id) ((first :: rest).map fun entry => (entry.id, entry)) := by
  have hread := indexEntry_eq_ok.mpr (findEntry_of_mem hn (hmem first mem_cons_self))
  induction rest generalizing first with
  | nil =>
    have hnone : first.supersededBy = none := hhead first (by simp)
    refine .cons hread ?_
    rw [hnone]
    exact .nil
  | cons second rest ih =>
    obtain ⟨hpre, hrest⟩ := isChain_cons_cons.mp hlinked
    have hmem' : ∀ entry ∈ second :: rest, entry ∈ entries := fun entry hentry =>
      hmem entry (mem_cons_of_mem _ hentry)
    refine .cons hread ?_
    rw [hpre.forward]
    exact ih hmem' hrest (by simpa using hhead)
      (indexEntry_eq_ok.mpr (findEntry_of_mem hn (hmem' second mem_cons_self)))

theorem kept_of_chain (h : l.IsChain Precedes) : ∀ entry ∈ l.dropLast, entry.deletedAt = none := by
  intro entry hentry
  obtain ⟨i, hi, rfl⟩ := getElem_of_mem hentry
  rw [length_dropLast] at hi
  rw [getElem_dropLast]
  exact (isChain_iff_getElem.mp h i (by omega)).kept

variable {streams : List Stream} {snapshots : List LegacySnapshot} {scan : EntryScan}

/-- The loop finds the streams whose roots it is given. -/
theorem buildStreams_complete (hn : (entries.map (·.id)).Nodup) (hstreams : ∀ stream ∈ streams, IsStream stream)
    (hmem : ∀ entry ∈ streams.flatMap Stream.entries, entry ∈ entries) (reported : List LegacyStream)
    (hfresh : ((streams.flatMap Stream.entries).map (·.id) ++ visited).Nodup) :
    ∃ visited', buildStreams entries visited reported (streams.map Prod.fst) =
        .ok (visited', reported ++ streams.map Stream.report) ∧
      visited'.length = (streams.flatMap Stream.entries).length + visited.length := by
  induction streams generalizing visited reported with
  | nil => exact ⟨visited, by simp [buildStreams], by simp⟩
  | cons stream streams ih =>
    have hstream := hstreams stream mem_cons_self
    rw [flatMap_cons, map_append, append_assoc] at hfresh
    obtain ⟨hids, hrest, hdisjoint⟩ := nodup_append'.mp hfresh
    have hmem₁ : ∀ entry ∈ stream.entries, entry ∈ entries := fun entry hentry =>
      hmem entry (by rw [flatMap_cons]; exact mem_append_left _ hentry)
    have hfollows := follows_of_chain hn hmem₁ hstream.linked hstream.head
    have hkeys : (stream.entries.map fun entry => (entry.id, entry)).map Prod.fst = stream.entries.map (·.id) := by
      rw [map_map]
      rfl
    have hlength := hids.of_map.length_le_of_subset hmem₁
    have hwalk : walkStream entries visited stream.1 = .ok (stream.entries.map fun entry => (entry.id, entry)) := by
      refine walk_of_linked_from hfollows (hkeys ▸ hids) ?_ ?_
      · intro x hx hvisited
        obtain ⟨entry, hentry, rfl⟩ := mem_map.mp hx
        exact hdisjoint (mem_map_of_mem hentry) (mem_append_right _ hvisited)
      · rw [length_map]
        exact Nat.le_succ_of_le hlength
    have hkept : ¬ ∃ revision ∈ (stream.entries.map fun entry => (entry.id, entry)).dropLast,
        revision.2.deletedAt.isSome := by
      rintro ⟨revision, hrevision, hdeleted⟩
      rw [← map_dropLast] at hrevision
      obtain ⟨entry, hentry, rfl⟩ := mem_map.mp hrevision
      simp [kept_of_chain hstream.linked entry hentry] at hdeleted
    have hfresh' := (perm_append_comm_assoc _ _ _).nodup_iff.mp hfresh
    obtain ⟨visited', hbuild, hcount⟩ := ih
      (fun s hs => hstreams s (mem_cons_of_mem _ hs))
      (fun entry hentry => hmem entry (by rw [flatMap_cons]; exact mem_append_right _ hentry))
      (reported ++ [stream.report]) hfresh'
    refine ⟨visited', ?_, ?_⟩
    · rw [map_cons, buildStreams, hwalk, seq_ok, refuse_neg hkept, hkeys]
      rw [show reported ++ (stream :: streams).map Stream.report =
        reported ++ [stream.report] ++ streams.map Stream.report by simp]
      exact hbuild
    · rw [hcount, flatMap_cons, length_append, length_append, length_map]
      omega

theorem roots_sublist (streams : List Stream) : (streams.map Prod.fst).Sublist (streams.flatMap Stream.entries) := by
  induction streams with
  | nil => exact .slnil
  | cons stream streams ih =>
    exact (ih.trans (sublist_append_right _ _)).cons_cons _

/-- The roots of the streams are the entries that supersede nothing. -/
theorem roots_perm (hn : (entries.map (·.id)).Nodup) (h : Streams entries streams) :
    (streams.map Prod.fst).Perm (rootsOf entries) := by
  have hroots : (streams.map Prod.fst).Nodup := (roots_sublist streams).nodup (ids_nodup hn h).of_map
  have hsorted : (rootsOf entries).Nodup := (perm_insertionSort _ _).nodup_iff.mpr (hn.of_map.filter _)
  refine (perm_ext_iff_of_nodup hroots hsorted).mpr fun entry => ?_
  rw [mem_rootsOf]
  constructor
  · intro hentry
    obtain ⟨stream, hstream, rfl⟩ := mem_map.mp hentry
    exact ⟨(mem_entries_iff h).mpr ⟨stream, hstream, mem_cons_self⟩, (h.isStream stream hstream).root⟩
  · rintro ⟨hentry, hnone⟩
    obtain ⟨stream, hstream, hmem⟩ := (mem_entries_iff h).mp hentry
    rcases exists_before (h.isStream stream hstream).linked hmem with rfl | ⟨parent, -, hpre⟩
    · exact mem_map_of_mem hstream
    · simp [hpre.backward] at hnone

theorem validateStreams_complete (hn : (entries.map (·.id)).Nodup) (h : Streams entries streams) :
    ∃ reported, validateStreams entries = .ok reported := by
  -- the streams in the order of their roots
  obtain ⟨ordered, hroots, hperm⟩ :=
    (congrFun₂ (eq_map_comp_perm Prod.fst) (rootsOf entries) streams).mpr (roots_perm hn h).symm
  have hordered : Streams entries ordered :=
    ⟨(hperm.flatMap_right _).trans h.partition, fun stream hstream => h.isStream stream (hperm.mem_iff.mp hstream)⟩
  have hbranch : ¬ ∃ entry ∈ entries, entry.supersedes.any fun parentId => 1 < childCount entries parentId := by
    rintro ⟨entry, -, hany⟩
    obtain ⟨parentId, -, hcount⟩ := (Option.any_eq_true _ _).mp hany
    exact absurd (of_decide_eq_true hcount) (Nat.not_lt.mpr (childCount_le_one hn h))
  have hlinks : checkAll (validateLinks entries) entries = .ok () :=
    checkAll_eq_ok.mpr fun _ => validateLinks_complete hn h
  obtain ⟨visited, hbuild, hcount⟩ := buildStreams_complete hn hordered.isStream
    (fun _ => hordered.partition.mem_iff.mp) []
    (by rw [append_nil]; exact ids_nodup hn hordered)
  have hlength : visited.length = entries.length := by
    rw [hcount, hordered.partition.length_eq, length_nil, Nat.add_zero]
  refine ⟨ordered.map Stream.report, ?_⟩
  unfold validateStreams
  rw [refuse_neg hbranch, seq_ok, hlinks, seq_ok, hroots, hbuild, seq_ok]
  dsimp only
  rw [refuse_neg (not_not.mpr hlength)]
  rfl

/-! ## The walks end -/

/-- The loop over the roots without a bound on its steps: it ends with this result. -/
inductive Builds (entries : List LegacyMemoryEntry) : List String → List LegacyStream → List LegacyMemoryEntry →
    Except LegacyPreflightError (List String × List LegacyStream) → Prop
  | done {visited : List String} {streams : List LegacyStream} :
      Builds entries visited streams [] (.ok (visited, streams))
  | failed {visited : List String} {streams : List LegacyStream} {root : LegacyMemoryEntry}
      {roots : List LegacyMemoryEntry} {e : LegacyPreflightError} :
      Walks (indexEntry entries) (·.supersededBy) (.rejected "supersession_cycle") visited (some root.id) (.error e) →
      Builds entries visited streams (root :: roots) (.error e)
  | deleted {visited : List String} {streams : List LegacyStream} {root : LegacyMemoryEntry}
      {roots : List LegacyMemoryEntry} {chain : List (String × LegacyMemoryEntry)} :
      Walks (indexEntry entries) (·.supersededBy) (.rejected "supersession_cycle") visited (some root.id) (.ok chain) →
      (∃ revision ∈ chain.dropLast, revision.2.deletedAt.isSome) →
      Builds entries visited streams (root :: roots) (.error (.rejected "deleted_non_head_revision"))
  | step {visited : List String} {streams : List LegacyStream} {root : LegacyMemoryEntry}
      {roots : List LegacyMemoryEntry} {chain : List (String × LegacyMemoryEntry)}
      {result : Except LegacyPreflightError (List String × List LegacyStream)} :
      Walks (indexEntry entries) (·.supersededBy) (.rejected "supersession_cycle") visited (some root.id) (.ok chain) →
      (¬ ∃ revision ∈ chain.dropLast, revision.2.deletedAt.isSome) →
      Builds entries (chain.map Prod.fst ++ visited) (streams ++ [⟨root.id, chain.map Prod.fst⟩]) roots result →
      Builds entries visited streams (root :: roots) result

theorem builds_from {streams : List LegacyStream} (hn : visited.Nodup) (hs : visited ⊆ entries.map (·.id)) :
    Builds entries visited streams roots (buildStreams entries visited streams roots) := by
  induction roots generalizing visited streams with
  | nil => exact .done
  | cons root roots ih =>
    have hwalks : Walks (indexEntry entries) (·.supersededBy) (.rejected "supersession_cycle") visited (some root.id)
        (walkStream entries visited root) := by
      refine walks_walk_from (fun id entry hread => ?_) hn hs (by rw [length_map]; omega)
      obtain ⟨hmem, rfl⟩ := findEntry_eq_some (indexEntry_eq_ok.mp hread)
      exact mem_map_of_mem hmem
    rw [buildStreams]
    cases hwalk : walkStream entries visited root with
    | error e =>
      rw [hwalk] at hwalks
      exact .failed hwalks
    | ok chain =>
      rw [hwalk] at hwalks
      rw [seq_ok]
      by_cases hdeleted : ∃ revision ∈ chain.dropLast, revision.2.deletedAt.isSome
      · rw [refuse_pos hdeleted]
        exact .deleted hwalks hdeleted
      · rw [refuse_neg hdeleted]
        obtain ⟨hkeys, hfresh⟩ := (walk_spec hwalk).2
        refine .step hwalks hdeleted (ih (nodup_append'.mpr ⟨hkeys, hn, hfresh⟩) ?_)
        intro id hid
        rcases mem_append.mp hid with hid | hid
        · obtain ⟨x, hx, rfl⟩ := mem_map.mp hid
          obtain ⟨hmem, hx⟩ := mem_of_follows (walk_spec hwalk).1 hx
          exact hx ▸ mem_map_of_mem hmem
        · exact hs hid

/-! ## Collecting the entries -/

/-- What is checked of an entry by itself. -/
structure FieldsValid (P : Platform) (entry : LegacyMemoryEntry) : Prop where
  id : (P.parseUuid entry.id).isSome
  agentId : isBlank entry.agentId = false
  tenantId : entry.tenantId ≠ some ""
  causalParent : entry.causalParent = none
  content : validateCanonicalizableContent entry.content = .ok ()

/-- Distinct ids and one namespace. -/
structure Collected (entries : List LegacyMemoryEntry) : Prop where
  unique : (entries.map (·.id)).Nodup
  oneNamespace : ∀ a ∈ entries, ∀ b ∈ entries, a.tenantId = b.tenantId

section

variable (h : Collected entries)
include h

theorem Collected.sublist (hl : l.Sublist entries) : Collected l :=
  ⟨(hl.map _).nodup h.unique, fun a ha b hb => h.oneNamespace a (hl.subset ha) b (hl.subset hb)⟩

/-- The scan after some entries. -/
def scanOf (entries : List LegacyMemoryEntry) : EntryScan := ⟨entries, entries.getLast?.map (·.tenantId)⟩

theorem collected_concat : Collected (entries ++ [entry]) ↔
    (∀ last ∈ entries.getLast?, last.tenantId = entry.tenantId) ∧ entry.id ∉ entries.map (·.id) := by
  constructor
  · intro hc
    refine ⟨fun last hlast => ?_, ?_⟩
    · exact hc.oneNamespace last (mem_append_left _ (mem_of_mem_getLast? hlast)) entry (by simp)
    · have hnodup := hc.unique
      rw [map_append, nodup_append'] at hnodup
      exact fun hmem => hnodup.2.2 hmem (by simp)
  · rintro ⟨hlast, hfresh⟩
    have hall : ∀ x ∈ entries ++ [entry], x.tenantId = entry.tenantId := by
      intro x hx
      rcases mem_concat.mp hx with hx | rfl
      · have hmem := getLast?_eq_some_getLast (ne_nil_of_mem hx)
        exact (h.oneNamespace x hx _ (mem_of_mem_getLast? hmem)).trans (hlast _ hmem)
      · rfl
    refine ⟨?_, fun a ha b hb => (hall a ha).trans (hall b hb).symm⟩
    rw [map_append, nodup_append']
    exact ⟨h.unique, by simp, fun id hid hnew => hfresh ((mem_singleton.mp hnew : id = entry.id) ▸ hid)⟩

theorem scanEntry_eq_ok :
    scanEntry P (scanOf entries) entry = .ok scan ↔
      FieldsValid P entry ∧ Collected (entries ++ [entry]) ∧ scan = scanOf (entries ++ [entry]) := by
  have hnamespace : ((scanOf entries).namespace_.any fun current => current ≠ entry.tenantId) = true ↔
      ¬ ∀ last ∈ entries.getLast?, last.tenantId = entry.tenantId := by
    unfold scanOf
    cases entries.getLast? <;> simp
  rw [collected_concat h]
  simp only [scanEntry, check_eq_ok, refuse_eq_ok, pure_ok_inj, hnamespace, not_not]
  constructor
  · rintro ⟨hid, hagent, htenant, hsame, hcausal, hcontent, hfresh, rfl⟩
    refine ⟨⟨?_, by simpa using hagent, htenant, by simpa using hcausal, hcontent⟩, ⟨hsame, hfresh⟩, by simp [scanOf]⟩
    simpa [Option.isSome_iff_ne_none] using hid
  · rintro ⟨hfields, ⟨hsame, hfresh⟩, rfl⟩
    refine ⟨?_, by simp [hfields.agentId], hfields.tenantId, hsame, by simp [hfields.causalParent], hfields.content,
      hfresh, by simp [scanOf]⟩
    simpa [Option.isSome_iff_ne_none] using hfields.id

theorem scanEntries_eq_ok {more : List LegacyMemoryEntry} :
    more.foldlM (scanEntry P) (scanOf entries) = .ok scan ↔
      (∀ entry ∈ more, FieldsValid P entry) ∧ Collected (entries ++ more) ∧ scan = scanOf (entries ++ more) := by
  induction more generalizing entries with
  | nil =>
    rw [foldlM_nil, pure_ok_inj, append_nil]
    exact ⟨fun hscan => ⟨by simp, h, hscan.symm⟩, fun hscan => hscan.2.2.symm⟩
  | cons first more ih =>
    rw [foldlM_cons, seq_eq_ok, forall_mem_cons]
    constructor
    · rintro ⟨next, hnext, hrest⟩
      obtain ⟨hfields, hcollected, rfl⟩ := (scanEntry_eq_ok h).mp hnext
      obtain ⟨hmore, hall, hscan⟩ := (ih hcollected).mp hrest
      rw [append_assoc] at hall hscan
      exact ⟨⟨hfields, hmore⟩, hall, hscan⟩
    · rintro ⟨⟨hfields, hmore⟩, hall, hscan⟩
      rw [← singleton_append, ← append_assoc] at hall hscan
      have hcollected := hall.sublist (sublist_append_left _ _)
      exact ⟨_, (scanEntry_eq_ok h).mpr ⟨hfields, hcollected, rfl⟩, (ih hcollected).mpr ⟨hmore, hall, hscan⟩⟩

end

theorem collected_nil : Collected [] := ⟨by simp, by simp⟩

theorem scanSnapshots_eq_ok (h : Collected entries) :
    snapshots.foldlM (scanSnapshot P) (scanOf entries) = .ok scan ↔
      (∀ snapshot ∈ snapshots, validateSnapshotEnvelope P snapshot = .ok ()) ∧
      (∀ entry ∈ snapshots.flatMap (·.entries), FieldsValid P entry) ∧
      Collected (entries ++ snapshots.flatMap (·.entries)) ∧
      scan = scanOf (entries ++ snapshots.flatMap (·.entries)) := by
  induction snapshots generalizing entries with
  | nil =>
    rw [foldlM_nil, pure_ok_inj, flatMap_nil, append_nil]
    exact ⟨fun hscan => ⟨by simp, by simp, h, hscan.symm⟩, fun hscan => hscan.2.2.2.symm⟩
  | cons snapshot snapshots ih =>
    rw [foldlM_cons, seq_eq_ok, forall_mem_cons, flatMap_cons, forall_mem_append,
      ← append_assoc]
    constructor
    · rintro ⟨next, hnext, hrest⟩
      obtain ⟨⟨⟩, henvelope, hnext⟩ := of_seq hnext
      obtain ⟨hfields, hcollected, rfl⟩ := (scanEntries_eq_ok h).mp hnext
      obtain ⟨henvelopes, hmore, hall, hscan⟩ := (ih hcollected).mp hrest
      exact ⟨⟨henvelope, henvelopes⟩, ⟨hfields, hmore⟩, hall, hscan⟩
    · rintro ⟨⟨henvelope, henvelopes⟩, ⟨hfields, hmore⟩, hall, hscan⟩
      have hcollected := hall.sublist (sublist_append_left _ _)
      exact ⟨_, seq_eq_ok.mpr ⟨(), henvelope, (scanEntries_eq_ok h).mpr ⟨hfields, hcollected, rfl⟩⟩,
        (ih hcollected).mpr ⟨henvelopes, hmore, hall, hscan⟩⟩

/-! ## The preflight -/

/-- Distinct ids, and links that form streams. -/
structure WellFormed (entries : List LegacyMemoryEntry) : Prop where
  unique : (entries.map (·.id)).Nodup
  streams : ∃ streams, Streams entries streams

/-- The parts of a preflight that succeeded, and the report of it. -/
structure Accepted (P : Platform) (index : LegacyPersistenceIndex) (snapshots : List LegacySnapshot)
    (authorization : LegacyAccessAuthorization) (report : LegacyPreflightReport) : Prop where
  indexed : validateIndex index snapshots = .ok ()
  envelopes : ∀ snapshot ∈ snapshots, validateSnapshotEnvelope P snapshot = .ok ()
  fields : ∀ entry ∈ report.entries, FieldsValid P entry
  collected : Collected report.entries
  linked : validateStreams report.entries = .ok report.streams
  authorized : validateAccessAuthorization authorization report.entries = .ok ()
  entries : report.entries = snapshots.flatMap (·.entries)
  namespace_ : report.namespace_ = match (report.entries.getLast?.map (·.tenantId)).join with
    | some value => .named value
    | none => .preNamespace
  entryCount : report.entryCount = report.entries.length
  streamCount : report.streamCount = (rootsOf report.entries).length
  sourceSnapshots : report.sourceSnapshots =
    (snapshots.map (·.source)).insertionSort fun left right => left.key ≤ right.key
  authorization : (⟨report.authorizedRoleIds, report.roleMappings, report.groupMappings⟩ :
    LegacyAccessAuthorization) = authorization

theorem preflight_eq_ok {index : LegacyPersistenceIndex}
    {authorization : LegacyAccessAuthorization} {report : LegacyPreflightReport}
    (h : preflight P index snapshots authorization = .ok report) : Accepted P index snapshots authorization report := by
  obtain ⟨⟨⟩, hindex, scan, hscan, streams, hstreams, h⟩ := of_seq₃ h
  obtain ⟨⟨⟩, hauthorized, h⟩ := of_seq h
  cases h
  obtain ⟨henvelopes, hfields, hcollected, rfl⟩ := (scanSnapshots_eq_ok collected_nil).mp hscan
  exact ⟨hindex, henvelopes, hfields, hcollected, hstreams, hauthorized, rfl, rfl, rfl, rfl, rfl,
    rfl⟩

/-- Snapshots whose index, envelopes, mappings and single fields are valid are accepted exactly when their entries
are a well-formed history of one namespace; the report then lists its streams; and on any entries at all the walks
from the roots end. -/
theorem preflight_accepts_wellFormed (P : Platform) (index : LegacyPersistenceIndex) (snapshots : List LegacySnapshot)
    (authorization : LegacyAccessAuthorization) (hindex : validateIndex index snapshots = .ok ())
    (henvelopes : ∀ snapshot ∈ snapshots, validateSnapshotEnvelope P snapshot = .ok ())
    (hfields : ∀ entry ∈ snapshots.flatMap (·.entries), FieldsValid P entry)
    (hauthorization : validateAccessAuthorization authorization (snapshots.flatMap (·.entries)) = .ok ()) :
    ((∃ report, preflight P index snapshots authorization = .ok report) ↔
      WellFormed (snapshots.flatMap (·.entries)) ∧
        ∀ a ∈ snapshots.flatMap (·.entries), ∀ b ∈ snapshots.flatMap (·.entries), a.tenantId = b.tenantId) ∧
    (∀ report, preflight P index snapshots authorization = .ok report →
      ∃ streams, Streams (snapshots.flatMap (·.entries)) streams ∧ report.streams = streams.map Stream.report) ∧
    ∀ entries, Builds entries [] [] (rootsOf entries) (buildStreams entries [] [] (rootsOf entries)) := by
  refine ⟨⟨?_, ?_⟩, ?_, fun entries => builds_from .nil (nil_subset _)⟩
  · rintro ⟨report, h⟩
    obtain ⟨-, -, -, hcollected, hstreams, -, hentries, -⟩ := preflight_eq_ok h
    rw [← hentries]
    obtain ⟨streams, hfound, -⟩ := validateStreams_sound hcollected.unique hstreams
    exact ⟨⟨hcollected.unique, streams, hfound⟩, hcollected.oneNamespace⟩
  · rintro ⟨⟨hunique, streams, hstreams⟩, hnamespace⟩
    obtain ⟨reported, hreported⟩ := validateStreams_complete hunique hstreams
    have hscan : snapshots.foldlM (scanSnapshot P) ⟨[], none⟩ = .ok (scanOf (snapshots.flatMap (·.entries))) :=
      (scanSnapshots_eq_ok collected_nil).mpr
        ⟨henvelopes, hfields, ⟨hunique, hnamespace⟩, rfl⟩
    unfold preflight
    rw [hindex, seq_ok, hscan, seq_ok]
    dsimp only [scanOf]
    rw [hreported, hauthorization]
    exact ⟨_, rfl⟩
  · intro report h
    obtain ⟨-, -, -, hcollected, hstreams, -, hentries, -⟩ := preflight_eq_ok h
    rw [← hentries]
    exact validateStreams_sound hcollected.unique hstreams

/-! ## Two samples -/

/-- A platform that takes every id for a UUID and has one hash. -/
def samplePlatform : Platform where
  sha256 := fun _ => "aaaaaaaaaaaaaaaaaaaaaaaaaaaaaaaaaaaaaaaaaaaaaaaaaaaaaaaaaaaaaaaa"
  parseUuid := fun _ => some 0
  hyphenated := fun _ => ""
  newV5 := fun _ _ => 0
  value := emptySerde _
  content := emptySerde _

def sampleEntry (id : String) (tenantId supersedes supersededBy : Option String) : LegacyMemoryEntry where
  id
  agentId := "role"
  tenantId
  tier := .working
  content := .text ""
  importance := 0
  accessCount := 0
  lastAccessed := 0
  createdAt := 0
  tags := []
  embedding := none
  ttlMs := none
  originalTtlMs := none
  scope := .private_
  memoryType := .untyped
  causalParent := none
  supersedes
  supersededBy
  deletedAt := none

def sampleSnapshot (entries : List LegacyMemoryEntry) : LegacySnapshot where
  indexAgentId := "role"
  indexTier := "working"
  cid := samplePlatform.sha256 []
  objectEnvelopeHash := ""
  declaredEntryCount := entries.length
  encodedEntries := []
  entries

def sampleIndex (count : Nat) : LegacyPersistenceIndex :=
  ⟨AList.singleton "role" [⟨"working", samplePlatform.sha256 [], count⟩]⟩

def sampleAuthorization : LegacyAccessAuthorization := ⟨["owner"], [⟨"role", "owner"⟩], []⟩

theorem sample_fieldsValid {tenantId supersedes supersededBy : Option String} (h : tenantId ≠ some "") :
    FieldsValid samplePlatform (sampleEntry id tenantId supersedes supersededBy) :=
  ⟨rfl, show isBlank "role" = false by decide, h, rfl, rfl⟩

/-- An entry and the one that supersedes it. -/
def linkedEntries : List LegacyMemoryEntry :=
  [sampleEntry "b" none (some "a") none, sampleEntry "a" none none (some "b")]

/-- Two unrelated entries of two namespaces. -/
def namespacedEntries : List LegacyMemoryEntry :=
  [sampleEntry "a" (some "m") none none, sampleEntry "b" (some "n") none none]

/-- The linked entries are accepted, so their history is well formed. -/
theorem preflight_accepts_linked :
    (∃ report, preflight samplePlatform (sampleIndex 2) [sampleSnapshot linkedEntries] sampleAuthorization =
        .ok report ∧ report.streams = [⟨"a", ["a", "b"]⟩]) ∧
      WellFormed linkedEntries := by
  have haccepted : ∃ report, preflight samplePlatform (sampleIndex 2) [sampleSnapshot linkedEntries]
      sampleAuthorization = .ok report ∧ report.streams = [⟨"a", ["a", "b"]⟩] := ⟨_, rfl, rfl⟩
  refine ⟨haccepted, ?_⟩
  have hfields : ∀ entry ∈ [sampleSnapshot linkedEntries].flatMap (·.entries), FieldsValid samplePlatform entry := by
    intro entry hentry
    simp only [flatMap_cons, flatMap_nil, append_nil, sampleSnapshot, linkedEntries, mem_cons,
      not_mem_nil, or_false] at hentry
    rcases hentry with rfl | rfl <;> exact sample_fieldsValid (by simp)
  have hwell := ((preflight_accepts_wellFormed samplePlatform (sampleIndex 2) [sampleSnapshot linkedEntries]
    sampleAuthorization rfl (by intro s hs; rw [mem_singleton.mp hs]; rfl) hfields rfl).1.mp
    (haccepted.imp fun _ h => h.1)).1
  simpa [sampleSnapshot] using hwell

/-- Unrelated entries of two namespaces are a well-formed history whose index, mappings and fields are valid, and the
preflight rejects them. -/
theorem two_namespaces_rejected :
    WellFormed namespacedEntries ∧
      validateIndex (sampleIndex 2) [sampleSnapshot namespacedEntries] = .ok () ∧
      validateSnapshotEnvelope samplePlatform (sampleSnapshot namespacedEntries) = .ok () ∧
      (∀ entry ∈ namespacedEntries, FieldsValid samplePlatform entry) ∧
      validateAccessAuthorization sampleAuthorization namespacedEntries = .ok () ∧
      preflight samplePlatform (sampleIndex 2) [sampleSnapshot namespacedEntries] sampleAuthorization =
        .error (.rejected "multiple_legacy_namespaces") := by
  refine ⟨⟨by decide, namespacedEntries.map fun entry => (entry, []), ?_, ?_⟩, rfl, rfl, ?_, rfl, rfl⟩
  · exact List.Perm.refl _
  · intro stream hstream
    simp only [namespacedEntries, map_cons, map_nil, mem_cons, not_mem_nil, or_false] at hstream
    rcases hstream with rfl | rfl
    · exact ⟨rfl, by simp [Stream.entries], by simp [Stream.entries, sampleEntry]⟩
    · exact ⟨rfl, by simp [Stream.entries], by simp [Stream.entries, sampleEntry]⟩
  · intro entry hentry
    simp only [namespacedEntries, mem_cons, not_mem_nil, or_false] at hentry
    rcases hentry with rfl | rfl <;> exact sample_fieldsValid (by simp)

end Plico.Migrate
