import Plico.Model.Ledger.Validate

/-!
# Validated revision logs are bundles of chains

`Admits P log r` says when a revision may be appended to a log, in terms of the stream of its own
memory: it starts the memory (`Starts`) or follows its last revision (`Follows`).
`validateRevisions_grown` shows that the validator, which looks parents up in two hash maps, accepts
only logs grown that way, and `memoryChain_of_grown` reads the chain of each memory off it; by
`validateRevisions_of_grown` it accepts all of them.
-/

namespace Plico.Ledger

open Grown Option List

variable (P : Platform)

/-- The revisions of one memory, oldest first. -/
def memoryRevisions (log : List CanonicalRevision) (memoryId : MemoryId) : List CanonicalRevision :=
  stream (·.memoryId) log memoryId

/-! ## Admission -/

/-- A tombstone carries the payload of its parent: the same content, tags and type. Content is
compared by its canonical bytes, so it is the same value whenever decoding gives both values back. -/
structure Repeats (parent child : CanonicalRevision) : Prop where
  content : ∃ bytes, P.content.toVec child.content = some bytes ∧ P.content.toVec parent.content = some bytes
  content_eq : P.content.RoundTrips parent.content → P.content.RoundTrips child.content →
    child.content = parent.content
  contentHash : child.contentHash = parent.contentHash
  tags : child.tags = parent.tags
  memoryType : child.memoryType = parent.memoryType

/-- `child` may follow `parent`, the last revision of its memory. -/
structure Follows (parent child : CanonicalRevision) : Prop where
  link : child.parentRevisionId = some parent.revisionId
  tier : child.cognitiveTier = parent.cognitiveTier
  live : parent.deletedAt = none
  repeats : child.deletedAt.isSome → Repeats P parent child

/-- `root` may start a memory. -/
structure Starts (root : CanonicalRevision) : Prop where
  parentless : root.parentRevisionId = none
  revisionId : root.revisionId = root.memoryId
  live : root.deletedAt = none

/-- `r` may come after `last`, the last revision of its memory if there is one. -/
def Continues (last : Option CanonicalRevision) (r : CanonicalRevision) : Prop :=
  match last with
  | none => Starts r
  | some parent => Follows P parent r

/-- `r` may be appended to `log`. -/
structure Admits (log : List CanonicalRevision) (r : CanonicalRevision) : Prop where
  schema : r.schema = revisionSchema
  sequence : r.sequence = log.length + 1
  revisionUuid : (P.parseUuid r.revisionId).isSome
  memoryUuid : (P.parseUuid r.memoryId).isSome
  committer : isBlank r.committedByRole = false
  contentHash : r.content.canonicalContentHash P = .ok r.contentHash
  fresh : ∀ q ∈ log, q.revisionId ≠ r.revisionId
  continues : Continues P (memoryRevisions log r.memoryId).getLast? r

/-! ## The validator -/

variable {P} {bytes : Bytes} {α : Type} {codec : Serde α} {a : α}

theorem contentHash_eq_ok {content : MemoryContent} {hash : CanonicalContentHash} :
    contentHash P content = .ok hash ↔ content.canonicalContentHash P = .ok hash :=
  mapError_ok_iff

theorem jcs_eq_ok : jcs codec a = .ok bytes ↔ codec.toVec a = some bytes := by
  simp [jcs]

theorem eq_of_toVec_eq {b : α} (ha : codec.toVec a = some bytes)
    (hb : codec.toVec b = some bytes) (hra : codec.RoundTrips a) (hrb : codec.RoundTrips b) : a = b :=
  some.inj ((hra bytes ha).symm.trans (hrb bytes hb))

variable {parent : CanonicalRevision} {u : Unit}

theorem repeats_of_checkTombstone {record : CanonicalRevision} (h : checkTombstone P record parent = .ok u) :
    Repeats P parent record := by
  obtain ⟨bytes, hb, h⟩ := of_seq h
  obtain ⟨bytes', hb', h⟩ := of_seq h
  obtain ⟨_, hr, -⟩ := of_seq h
  simp only [refuse_eq_ok, not_or, not_not] at hr
  obtain ⟨rfl, hhash, htags, htype⟩ := hr
  have hc := jcs_eq_ok.mp hb
  have hp := jcs_eq_ok.mp hb'
  exact ⟨⟨bytes, hc, hp⟩, fun hrp hrc => eq_of_toVec_eq hc hp hrc hrp, hhash, htags, htype⟩

/-- What the validator's loop holds after the records of `log`. -/
def scanOf (log : List CanonicalRevision) : RevisionScan :=
  ⟨log.length, index (·.revisionId) id log, index (·.memoryId) (·.revisionId) log⟩

variable {log : List CanonicalRevision} {q : CanonicalRevision} {k : MemoryRevisionId}

theorem mem_of_lookup_byRevision
    (h : (index (·.revisionId) id log).lookup k = some q) : q ∈ log ∧ q.revisionId = k := by
  rw [lookup_index] at h
  obtain ⟨q', hq, rfl⟩ := map_eq_some_iff.mp h
  exact (mem_stream _).mp (mem_of_getLast? hq)

variable {r : CanonicalRevision}

theorem eq_of_revisionId_eq (hn : (log.map (·.revisionId)).Nodup) (hq : q ∈ log)
    (hr : r ∈ log) (he : q.revisionId = r.revisionId) : q = r :=
  inj_on_of_nodup_map hn hq hr he

theorem fresh_of_lookup (h : ¬ ((index (·.revisionId) id log).lookup r.revisionId).isSome) :
    ∀ q ∈ log, q.revisionId ≠ r.revisionId := by
  rw [AList.lookup_isSome, mem_index] at h
  exact fun q hq he => h ⟨q, hq, he⟩

section

variable (hn : (log.map (·.revisionId)).Nodup)
include hn

/-- The parent that the maps of the validator find is the last revision of the memory. -/
theorem follows_of_lookup (hfresh : ∀ q ∈ log, q.revisionId ≠ r.revisionId)
    (hp : (index (·.revisionId) id (log ++ [r])).lookup k = some parent)
    (hh : (index (·.memoryId) (·.revisionId) log).lookup r.memoryId = some k) :
    (memoryRevisions log r.memoryId).getLast? = some parent ∧ parent.revisionId = k := by
  rw [lookup_index] at hh
  obtain ⟨q, hq, hqk⟩ := map_eq_some_iff.mp hh
  have hqm : q ∈ log := ((mem_stream _).mp (mem_of_getLast? hq)).1
  obtain ⟨hpm, hpk⟩ := mem_of_lookup_byRevision hp
  have hpl : parent ∈ log := by
    rcases mem_concat.mp hpm with hm | rfl
    · exact hm
    · exact absurd (hqk.trans hpk.symm) (hfresh q hqm)
  obtain rfl : q = parent := eq_of_revisionId_eq hn hqm hpl (hqk.trans hpk.symm)
  exact ⟨hq, hpk⟩

theorem continues_of_checkLink (hfresh : ∀ q ∈ log, q.revisionId ≠ r.revisionId)
    (h : checkLink P (scanOf log) r = .ok u) : Continues P (memoryRevisions log r.memoryId).getLast? r := by
  unfold checkLink at h
  cases hpar : r.parentRevisionId with
  | none =>
    simp only [hpar] at h
    obtain ⟨_, hroot, hnew⟩ := of_seq h
    simp only [refuse_eq_ok, not_or, not_not, Bool.not_eq_true, isSome_eq_false_iff, isNone_iff_eq_none] at hroot hnew
    have hempty : (memoryRevisions log r.memoryId).getLast? = none := by
      have hl : (index (·.memoryId) (·.revisionId) log).lookup r.memoryId = none := hnew
      rw [lookup_index] at hl
      exact map_eq_none_iff.mp hl
    rw [hempty]
    exact ⟨hpar, hroot.1.symm, hroot.2⟩
  | some k =>
    simp only [hpar] at h
    obtain ⟨parent, hparent, h⟩ := of_seq h
    obtain ⟨_, hok, htomb⟩ := of_seq h
    simp only [refuse_eq_ok, required_eq_ok, not_or, not_not, Bool.not_eq_true, isSome_eq_false_iff,
      isNone_iff_eq_none] at hparent hok
    obtain ⟨-, htier, hlive, hhead⟩ := hok
    obtain ⟨hlast, hid⟩ := follows_of_lookup hn hfresh (by rwa [index_concat]) hhead
    rw [hlast]
    exact ⟨by rw [hpar, hid], htier.symm, hlive, fun hdel => repeats_of_checkTombstone (checkIf_eq_ok.mp htomb hdel)⟩

theorem validateRevision_ok {s : RevisionScan} (h : validateRevision P (scanOf log) r = .ok s) :
    Admits P log r ∧ s = scanOf (log ++ [r]) := by
  obtain ⟨_, hseq, _, hids, hash, hhash, h⟩ := of_seq₃ h
  obtain ⟨_, hmatch, _, hdup, _, hlink, h⟩ := of_seq₃ h
  simp only [refuse_eq_ok, not_or, not_not] at hseq hids hmatch hdup
  have hfresh := fresh_of_lookup hdup
  have hstep : s = scanOf (log ++ [r]) := by
    rw [← pure_ok_inj.mp h]
    simp [scanOf, index_concat]
  refine ⟨⟨hseq.1, hseq.2, ?_, ?_, by simpa using hids.2.2, ?_, hfresh, continues_of_checkLink hn hfresh hlink⟩,
    hstep⟩
  · simpa [isSome_iff_ne_none] using hids.1
  · simpa [isSome_iff_ne_none] using hids.2.1
  · rw [hmatch]
    exact contentHash_eq_ok.mp hhash

end

/-- The validator accepts only logs each of whose revisions was admitted over those before it. -/
theorem validateRevisions_grown (h : validateRevisions P log = .ok u) : Grown (Admits P) log := by
  obtain ⟨s, hs, -⟩ := of_seq h
  refine (grown_of_scan (A := fun log s => (log.map (·.revisionId)).Nodup ∧ s = scanOf log) ⟨by simp, rfl⟩
    (fun {pre s r s'} hpre hstep => ?_) hs).1
  obtain ⟨hn, rfl⟩ := hpre
  obtain ⟨hadm, rfl⟩ := validateRevision_ok hn hstep
  refine ⟨hadm, ?_, rfl⟩
  rw [map_append, nodup_append]
  refine ⟨hn, by simp, fun a ha b hb => ?_⟩
  obtain ⟨q, hq, rfl⟩ := mem_map.mp ha
  obtain rfl : b = r.revisionId := by simpa using hb
  exact hadm.fresh q hq

/-! ## What a grown log looks like -/

section

variable (h : Grown (Admits P) log)
include h

theorem sequences_of_grown : log.map (·.sequence) = List.range' 1 log.length :=
  sequences (h.imp fun _ _ _ hr => hr.sequence)

theorem last_sequence_of_grown : log.getLast?.elim 0 (·.sequence) = log.length :=
  last_sequence (h.imp fun _ _ _ hr => hr.sequence)

theorem nodup_of_grown : (log.map (·.revisionId)).Nodup :=
  nodup_map (h.imp fun _ _ _ hr => hr.fresh)

theorem continues_of_grown {memoryId : MemoryId} :
    Grown (fun pre r => Continues P pre.getLast? r) (memoryRevisions log memoryId) :=
  Grown.stream CanonicalRevision.memoryId (h.imp fun _ _ _ hr => hr.continues) memoryId

/-- A revision without parent starts its memory. -/
theorem starts_of_grown (hr : r ∈ log) (hp : r.parentRevisionId = none) : Starts r := by
  obtain ⟨pre, post, rfl⟩ := append_of_mem hr
  have hc := (h pre r ⟨post, by simp⟩).continues
  cases hl : (memoryRevisions pre r.memoryId).getLast? with
  | none => rwa [hl] at hc
  | some parent =>
    rw [hl] at hc
    exact absurd (hp.symm.trans hc.link) (by simp)

/-- The revisions of one memory form a chain from its root. -/
structure MemoryChain (P : Platform) (memoryId : MemoryId) (chain : List CanonicalRevision) : Prop where
  /-- The first revision is a root and gives the memory its id. -/
  root : ∀ r, chain.head? = some r → r.parentRevisionId = none ∧ r.revisionId = memoryId
  /-- Only the first revision has no parent. -/
  root_unique : ∀ r ∈ chain, r.parentRevisionId = none → chain.head? = some r
  /-- The parent of every later revision is the revision immediately before it. -/
  linked : chain.IsChain fun parent child => child.parentRevisionId = some parent.revisionId
  tier : ∀ r ∈ chain, ∀ q ∈ chain, r.cognitiveTier = q.cognitiveTier
  /-- A tombstone is the last revision. -/
  tombstone_last : ∀ r ∈ chain, r.deletedAt.isSome → chain.getLast? = some r
  /-- A tombstone repeats its parent, which it has. -/
  tombstone_repeats : ∀ r ∈ chain, r.deletedAt.isSome →
    ∃ parent ∈ chain, r.parentRevisionId = some parent.revisionId ∧ Repeats P parent r

theorem memoryChain_of_grown (memoryId : MemoryId) : MemoryChain P memoryId (memoryRevisions log memoryId) := by
  have hmem : ∀ r ∈ memoryRevisions log memoryId, r.memoryId = memoryId :=
    fun r hr => ((mem_stream _).mp hr).2
  revert hmem
  refine induction (I := fun c => (∀ r ∈ c, r.memoryId = memoryId) → MemoryChain P memoryId c)
    (fun _ => ⟨by simp, by simp, by simp, by simp, by simp, by simp⟩)
    (fun c r hg ih hr hmem => ?_) (continues_of_grown h)
  have ihc := ih fun q hq => hmem q (mem_append_left _ hq)
  cases hlast : c.getLast? with
  | none =>
    obtain rfl : c = [] := getLast?_eq_none_iff.mp hlast
    have hstart : Starts r := by simpa [Continues] using hr
    have hid : r.revisionId = memoryId := hstart.revisionId.trans (hmem r (by simp))
    have hlive := hstart.live
    refine ⟨by simpa using ⟨hstart.parentless, hid⟩, by simp, by simp, by simp, ?_, ?_⟩ <;> simp [hlive]
  | some parent =>
    have hne : c ≠ [] := by rintro rfl; simp at hlast
    have hfollows : Follows P parent r := by simpa [Continues, hlast] using hr
    have hparent : parent ∈ c := mem_of_getLast? hlast
    have hlive : ∀ q ∈ c, q.deletedAt = none := by
      intro q hq
      cases hdel : q.deletedAt with
      | none => rfl
      | some t =>
        have hq' := ihc.tombstone_last q hq (by simp [hdel])
        obtain rfl : parent = q := by simpa [hlast] using hq'
        rw [hfollows.live] at hdel
        cases hdel
    have hhead : (c ++ [r]).head? = c.head? := head?_append_of_ne_nil c hne
    refine ⟨fun q hq => ihc.root q (hhead ▸ hq), fun q hq hnone => ?_, ?_, ?_, fun q hq hdel => ?_,
      fun q hq hdel => ?_⟩
    · rcases mem_concat.mp hq with hq | rfl
      · exact hhead ▸ ihc.root_unique q hq hnone
      · rw [hfollows.link] at hnone
        cases hnone
    · refine isChain_append.mpr ⟨ihc.linked, by simp, fun q hq p hp => ?_⟩
      obtain rfl : r = p := by simpa using hp
      obtain rfl : q = parent := by simpa [hlast, eq_comm] using hq
      exact hfollows.link
    · have htier : ∀ q ∈ c ++ [r], q.cognitiveTier = parent.cognitiveTier := by
        intro q hq
        rcases mem_concat.mp hq with hq | rfl
        · exact ihc.tier q hq parent hparent
        · exact hfollows.tier
      exact fun q hq p hp => (htier q hq).trans (htier p hp).symm
    · rcases mem_concat.mp hq with hq | rfl
      · simp [hlive q hq] at hdel
      · simp
    · rcases mem_concat.mp hq with hq | rfl
      · simp [hlive q hq] at hdel
      · exact ⟨parent, mem_append_left _ hparent, hfollows.link, hfollows.repeats hdel⟩

end

/-! ## The validator accepts grown logs -/

theorem checkTombstone_of_repeats {child : CanonicalRevision} (h : Repeats P parent child)
    (hhash : child.content.canonicalContentHash P = .ok child.contentHash) :
    checkTombstone P child parent = .ok () := by
  obtain ⟨bytes, hc, hp⟩ := h.content
  unfold checkTombstone
  rw [jcs_eq_ok.mpr hc, seq_ok, jcs_eq_ok.mpr hp, seq_ok,
    refuse_neg (by simp [h.contentHash, h.tags, h.memoryType]), seq_ok, contentHash_eq_ok.mpr hhash, seq_ok,
    refuse_neg (by simp [h.contentHash])]

section

variable (hn : (log.map (·.revisionId)).Nodup)
include hn

/-- The last revision of a memory is what the validator's maps find under its id. -/
theorem lookup_of_last (hfresh : ∀ q ∈ log, q.revisionId ≠ r.revisionId)
    (hlast : (memoryRevisions log r.memoryId).getLast? = some parent) :
    (((scanOf log).byRevision.insert r.revisionId r).lookup parent.revisionId = some parent) ∧
      (scanOf log).heads.lookup r.memoryId = some parent.revisionId ∧ parent.memoryId = r.memoryId := by
  obtain ⟨hmem, hmemory⟩ := (mem_stream _).mp (mem_of_getLast? hlast)
  refine ⟨?_, ?_, hmemory⟩
  · rw [AList.lookup_insert_ne (hfresh parent hmem)]
    dsimp only [scanOf]
    rw [lookup_index, stream_eq_singleton _ hn hmem]
    rfl
  · dsimp only [scanOf]
    rw [lookup_index]
    exact congrArg _ hlast

theorem checkLink_of_admits (h : Admits P log r) : checkLink P (scanOf log) r = .ok () := by
  have hcont := h.continues
  unfold checkLink
  cases hlast : (memoryRevisions log r.memoryId).getLast? with
  | none =>
    rw [hlast] at hcont
    obtain ⟨hparent, hid, hlive⟩ := hcont
    have hnew : (scanOf log).heads.lookup r.memoryId = none := by
      dsimp only [scanOf]
      rw [lookup_index]
      exact congrArg _ hlast
    rw [hparent]
    rw [refuse_neg (by simp [hid, hlive]), seq_ok, refuse_neg (by simp [hnew])]
  | some parent =>
    rw [hlast] at hcont
    obtain ⟨hlink, htier, hlive, hrepeats⟩ := hcont
    obtain ⟨hparent, hhead, hmemory⟩ := lookup_of_last hn h.fresh hlast
    rw [hlink]
    dsimp only
    rw [hparent, required_some, seq_ok, refuse_neg (by simp [hmemory, htier, hlive, hhead])]
    exact checkIf_eq_ok.mpr fun hdeleted => checkTombstone_of_repeats (hrepeats hdeleted) h.contentHash

theorem validateRevision_of_admits (h : Admits P log r) :
    validateRevision P (scanOf log) r = .ok (scanOf (log ++ [r])) := by
  have hfresh : (scanOf log).byRevision.lookup r.revisionId = none := by
    dsimp only [scanOf]
    rw [lookup_index, (stream_eq_nil _).mpr h.fresh]
    rfl
  unfold validateRevision
  rw [refuse_neg (by simp [h.schema, h.sequence, scanOf]), seq_ok,
    refuse_neg (by simp [isSome_iff_ne_none.mp h.revisionUuid, isSome_iff_ne_none.mp h.memoryUuid, h.committer]),
    seq_ok, contentHash_eq_ok.mpr h.contentHash, seq_ok, refuse_neg (by simp), refuse_neg (by simp [hfresh]),
    checkLink_of_admits hn h]
  simp [scanOf, index_concat]

end

/-- The validator accepts every log whose revisions were admitted one after the other. -/
theorem validateRevisions_of_grown (h : Grown (Admits P) log) : validateRevisions P log = .ok () := by
  obtain ⟨s, hs, -⟩ := scan_total (A := fun log s => s = scanOf log) rfl
    fun {pre r s} hpre hscan => by
      subst hscan
      exact ⟨_, validateRevision_of_admits (nodup_of_grown (h.ofPrefix ((prefix_append _ _).trans hpre)))
        (h pre r hpre), rfl⟩
  exact seq_eq_ok.mpr ⟨s, hs, rfl⟩

end Plico.Ledger
