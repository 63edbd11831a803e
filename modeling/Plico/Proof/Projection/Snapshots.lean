import Plico.Model.Projection.Snapshot
import Plico.Proof.Ledger.Streams

/-!
# Canonical truth

What the projection relies on about the ledger. A revision has a child exactly when it is not the last of
its memory, so `expectedAbsentReason` and the head that `currentProjectionRevision` asks the ledger for
agree (`liveHead_of_current`).
-/

namespace Plico.Projection

open List Plico.Ledger

variable {P : LedgerPlatform}

/-! ## Heads and children -/

/-- The parent of a revision is the revision before it in its memory. -/
theorem parent_of_grown {log pre post : List CanonicalRevision} {child : CanonicalRevision}
    (h : Grown (Admits P.toPlatform) log) (hlog : log = pre ++ child :: post) {parentId : MemoryRevisionId}
    (hparent : child.parentRevisionId = some parentId) :
    ∃ parent ∈ pre, parent.revisionId = parentId ∧ parent.memoryId = child.memoryId := by
  have hc := (h pre child ⟨post, by simp [hlog]⟩).continues
  cases hlast : (memoryRevisions pre child.memoryId).getLast? with
  | none =>
    rw [hlast] at hc
    exact absurd (hparent.symm.trans hc.parentless) (by simp)
  | some parent =>
    rw [hlast] at hc
    obtain ⟨hmem, hid⟩ := (mem_stream _).mp (mem_of_getLast? hlast)
    exact ⟨parent, hmem, Option.some.inj (hc.link.symm.trans hparent), hid⟩

/-- The last revision of a memory has no child. -/
theorem head_childless {log : List CanonicalRevision} (h : Grown (Admits P.toPlatform) log) {memoryId : MemoryId}
    {r : CanonicalRevision} (hr : (memoryRevisions log memoryId).getLast? = some r) :
    ∀ child ∈ log, child.parentRevisionId ≠ some r.revisionId := by
  intro child hchild hparent
  obtain ⟨pre, post, hlog⟩ := append_of_mem hchild
  obtain ⟨parent, hpre, hid, hmemory⟩ := parent_of_grown h hlog hparent
  have hn := nodup_of_grown h
  obtain ⟨hrlog, hrm⟩ := (mem_stream _).mp (mem_of_getLast? hr)
  obtain rfl : parent = r := eq_of_revisionId_eq hn (by rw [hlog]; exact mem_append_left _ hpre) hrlog hid
  -- the child comes after `r` in the same memory, so `r` is not the last
  have hlast : parent ∈ child :: memoryRevisions post memoryId := by
    have hstream : memoryRevisions log memoryId =
        memoryRevisions pre memoryId ++ child :: memoryRevisions post memoryId := by
      rw [hlog]
      simp [stream, memoryRevisions, ← hmemory, hrm]
    rw [hstream, getLast?_append_of_ne_nil _ (by simp)] at hr
    exact mem_of_getLast? hr
  have hpost : parent ∈ child :: post := by
    rcases mem_cons.mp hlast with rfl | hl
    · exact mem_cons_self
    · exact mem_cons_of_mem _ ((mem_stream _).mp hl).1
  rw [hlog, map_append] at hn
  exact disjoint_of_nodup_append hn (mem_map_of_mem hpre) (mem_map_of_mem hpost)

/-! ## The current source -/

/-- `revision` is the one that `source` names, and it is the last of its memory, not deleted, and of a kind
that gets an embedding. -/
structure LiveHead (revisions : List CanonicalRevision) (source : CanonicalSourceIdentity)
    (revision : CanonicalRevision) : Prop where
  revisionId : revision.revisionId = source.revisionId
  memoryId : revision.memoryId = source.memoryId
  sequence : revision.sequence = source.revisionSequence
  contentHash : revision.contentHash = source.contentHash
  head : (memoryRevisions revisions source.memoryId).getLast? = some revision
  live : revision.deletedAt = none
  eligible : expectedAbsentReason revision revisions = none

theorem liveHead_of_current {s : LedgerState} (hs : Sound P s) {source : CanonicalSourceIdentity}
    (h : (currentProjectionRevision s source).isSome) : ∃ revision, LiveHead s.revisions source revision := by
  obtain ⟨r, h⟩ := Option.isSome_iff_exists.mp h
  simp only [currentProjectionRevision, Option.bind_eq_bind, Option.bind_eq_some_iff] at h
  obtain ⟨actual, hfind, _, hsame, view, hview, st, hst, _, hhead, _, -, hcontent⟩ := h
  obtain ⟨hmemory, hsequence, hhash⟩ := (Option.guard_eq_some' _).mp hsame
  obtain ⟨-, hheadId, hlive, htier⟩ := (Option.guard_eq_some' _).mp hhead
  have hid : actual.revisionId = source.revisionId := by simpa using find?_some hfind
  have hmem := mem_of_find?_eq_some hfind
  obtain ⟨v, hv, hisView⟩ := hs.isViewOf
  cases hv.symm.trans hview
  have hstMem : st.memoryId = actual.memoryId := by simpa using find?_some hst
  obtain ⟨last, hlast, hlastId, -⟩ := hisView.showsHeads.head st (mem_of_find?_eq_some hst)
  rw [hstMem, hmemory] at hlast
  obtain rfl : last = actual := eq_of_revisionId_eq (nodup_of_grown hs.grown)
    ((mem_stream _).mp (mem_of_getLast? hlast)).1 hmem (hlastId.symm.trans hheadId)
  refine ⟨last, hid, hmemory, hsequence, hhash, hlast, hlive, ?_⟩
  have hchildless : (s.revisions.any fun child => child.parentRevisionId == some last.revisionId) = false := by
    rw [any_eq_false]
    intro child hc
    simpa using head_childless hs.grown hlast child hc
  rw [expectedAbsentReason, hchildless, hlive, htier]
  cases hc : last.content with
  | text text =>
    rw [hc] at hcontent
    simp only at hcontent
    split at hcontent
    · cases hcontent
    · next hblank => simp [hblank]
  | _ =>
    rw [hc] at hcontent
    cases hcontent

end Plico.Projection
