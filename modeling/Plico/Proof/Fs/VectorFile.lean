import Plico.Framework.Fold
import Plico.Model.Fs.VectorFile

/-!
# What the vector index finds after a restart

The records of the file have no memory type, and their CID is the id of the entry; a vector with a number that is not
finite is not read back. An index without entries is not written at all, so the file of an earlier one stays. Nothing
else is lost.
-/

namespace Plico.Fs.VectorIndex

open VectorEntry AList List

variable {β : Type} {codec : LineCodec β} {s : VectorIndex β} {added : String → Bool} {dim : Nat}
  {file : Option (List β)} {m : VectorEntries} {e : VectorEntry} {cid : String}

/-- The file holds the entry in full, and a new graph takes its vector. -/
def Kept (added : String → Bool) (cid : String) (e : VectorEntry) : Prop :=
  e.meta_.cid = cid ∧ e.meta_.memoryType = none ∧ e.embedding.all isFiniteF32 ∧ added cid

/-- Every entry is kept, and an index without entries finds none in the file. -/
structure Survives (codec : LineCodec β) (added : String → Bool) (s : VectorIndex β) : Prop where
  entries : ∀ cid e, s.entries.lookup cid = some e → Kept added cid e
  empty : s.entries = ∅ → ∀ e ∈ loaded codec s.file, added e.cid = false

/-- All vectors, in the index and in the file, have the dimension of the index. -/
structure Sized (codec : LineCodec β) (n : Nat) (s : VectorIndex β) : Prop where
  dim : s.dim = n
  entries : ∀ cid e, s.entries.lookup cid = some e → e.embedding.length = n
  file : ∀ e ∈ loaded codec s.file, e.embedding.length = n

theorem loaded_lines : loaded codec (some (lines codec m)) =
    (m.entries.filter fun x => x.2.embedding.all isFiniteF32).map fun x => x.2.persisted x.1 := by
  rw [loaded, Option.getD_some, lines, filterMap_map, ← filterMap_eq_filter, map_filterMap]
  refine filterMap_congr fun x _ => ?_
  simp only [Function.comp, codec.read_line, persisted, Option.guard]
  split <;> rfl

theorem Sized.apply (h : Sized codec dim s) (op : Op) : Sized codec dim (s.apply codec op) := by
  cases op with
  | upsert cid embedding meta_ added =>
    simp only [VectorIndex.apply, upsert]
    split
    · exact h
    · next hstored =>
      refine ⟨h.dim, fun cid' e he => ?_, h.file⟩
      obtain ⟨rfl, rfl⟩ | ⟨-, he⟩ := lookup_insert_eq_some.mp he
      · exact (not_not.mp (not_or.mp hstored).1).trans h.dim
      · exact h.entries cid' e he
  | delete cid =>
    exact ⟨h.dim, fun cid' e he => h.entries cid' e (lookup_erase_eq_some.mp he).2, h.file⟩
  | persist =>
    simp only [VectorIndex.apply, persistTo]
    split
    · exact h
    · refine ⟨h.dim, h.entries, fun e he => ?_⟩
      rw [loaded_lines] at he
      obtain ⟨x, hx, rfl⟩ := mem_map.mp he
      exact h.entries x.1 x.2 (mem_lookup_iff.mpr (mem_filter.mp hx).1)

theorem restoreFrom_eq (h : ∀ e ∈ loaded codec file, e.embedding.length = dim) :
    restoreFrom codec dim added file = .ok (insertLoaded added (loaded codec file)) := by
  unfold restoreFrom
  cases hloaded : loaded codec file with
  | nil => rfl
  | cons first rest => exact if_neg (not_not.mpr (h first (hloaded ▸ mem_cons_self)))

theorem file_of_no_persist {ops : List Op} (h : .persist ∉ ops) : (run codec s ops).file = s.file := by
  induction ops generalizing s with
  | nil => rfl
  | cons op ops ih =>
    obtain ⟨hop, hops⟩ := ne_and_not_mem_of_not_mem_cons h
    rw [run, foldl_cons, ← run, ih hops]
    cases op with
    | persist => exact absurd rfl hop
    | upsert =>
      simp only [VectorIndex.apply, upsert]
      split <;> rfl
    | delete => rfl

theorem restored_persisted : (e.persisted cid).restored = e ↔ e.meta_.cid = cid ∧ e.meta_.memoryType = none := by
  obtain ⟨embedding, ⟨⟨⟩, cid', snippet⟩⟩ := e
  simp [persisted, SearchIndexEntry.restored, eq_comm, and_comm]

/-- What a new index finds in the file of an index that has entries. -/
theorem lookup_restored :
    (insertLoaded added (loaded codec (some (lines codec m)))).lookup cid = some e ↔
      ∃ v, m.lookup cid = some v ∧ v.embedding.all isFiniteF32 ∧ added cid ∧ (v.persisted cid).restored = e := by
  rw [loaded_lines, insertLoaded, filter_map, filter_filter, lookup_index_of_nodup]
  · constructor
    · rintro ⟨_, hmem, rfl, rfl⟩
      obtain ⟨x, hx, rfl⟩ := mem_map.mp hmem
      obtain ⟨hx, hkept⟩ := mem_filter.mp hx
      rw [Bool.and_eq_true] at hkept
      exact ⟨x.2, mem_lookup_iff.mpr hx, hkept.2, hkept.1, rfl⟩
    · rintro ⟨v, hv, hfinite, hadded, rfl⟩
      refine ⟨v.persisted cid, mem_map.mpr ⟨⟨cid, v⟩, mem_filter.mpr ⟨mem_lookup_iff.mp hv, ?_⟩, rfl⟩, rfl, rfl⟩
      simp [persisted, hfinite, hadded]
  · rw [map_map]
    exact List.Nodup.sublist (filter_sublist.map Sigma.fst) m.nodupKeys

theorem lookup_eq_iff_kept :
    (∀ cid, (insertLoaded added (loaded codec (some (lines codec m)))).lookup cid = m.lookup cid) ↔
      ∀ cid e, m.lookup cid = some e → Kept added cid e := by
  constructor
  · intro h cid e he
    obtain ⟨v, hv, hfinite, hadded, hrestored⟩ := (lookup_restored ..).mp ((h cid).trans he)
    obtain rfl := Option.some.inj (hv.symm.trans he)
    obtain ⟨hcid, htype⟩ := (restored_persisted ..).mp hrestored
    exact ⟨hcid, htype, hfinite, hadded⟩
  · refine fun h cid => Option.ext fun e => (lookup_restored ..).trans ⟨?_, fun he => ?_⟩
    · rintro ⟨v, hv, -, -, rfl⟩
      obtain ⟨hcid, htype, -⟩ := h cid v hv
      rwa [(restored_persisted ..).mpr ⟨hcid, htype⟩]
    · obtain ⟨hcid, htype, hfinite, hadded⟩ := h cid e he
      exact ⟨e, he, hfinite, hadded, (restored_persisted ..).mpr ⟨hcid, htype⟩⟩

/-- A new index of the same dimension finds what the index had when it was last persisted exactly when all of it was
kept. -/
theorem restored_iff_survives (codec : LineCodec β) (dim : Nat) (added : String → Bool) (pre post : List Op)
    (hpost : .persist ∉ post) : let s := run codec (.withDim dim) pre
    (∃ entries, restoreFrom codec dim added (run codec (.withDim dim) (pre ++ .persist :: post)).file = .ok entries ∧
      ∀ cid, entries.lookup cid = s.entries.lookup cid) ↔ s.Survives codec added := by
  intro s
  have hsized : Sized codec dim s :=
    run_invariant (fun _ op h => h.apply op) ⟨rfl, by simp [withDim], by simp [loaded, withDim]⟩
  have hfile : (run codec (.withDim dim) (pre ++ .persist :: post)).file = (s.persistTo codec).file := by
    rw [run, foldl_append]
    exact file_of_no_persist hpost
  rw [hfile, restoreFrom_eq (show ∀ e ∈ loaded codec (s.persistTo codec).file, _ from (hsized.apply .persist).file)]
  simp only [Except.ok.injEq, exists_eq_left']
  unfold persistTo
  split
  · next hempty =>
    have hnone : s.entries = ∅ := ext (List.isEmpty_iff.mp hempty)
    have hkept : ∀ cid e, s.entries.lookup cid = some e → Kept added cid e := by simp [hnone]
    rw [hnone]
    simp only [lookup_empty, lookup_eq_none, insertLoaded, mem_index, mem_filter]
    refine ⟨fun h => ⟨hkept, fun _ e he => ?_⟩, ?_⟩
    · exact Bool.eq_false_iff.mpr fun hadded => h e.cid ⟨e, ⟨he, hadded⟩, rfl⟩
    · rintro h cid ⟨e, ⟨he, hadded⟩, -⟩
      rw [h.empty hnone e he] at hadded
      cases hadded
  · next hsome =>
    refine lookup_eq_iff_kept.trans ⟨fun h => ⟨h, fun hnone => ?_⟩, fun h => h.entries⟩
    exact absurd (congrArg (·.entries.isEmpty) hnone) hsome

section Samples

/-- Lines that are the records themselves. -/
def plainLines : LineCodec SearchIndexEntry where
  line := id
  read e := if e.embedding.all isFiniteF32 then some e else none
  read_line _ := rfl

def planCid : String := "ca358758f6d27e6cf45272937977a748fd88391db679ceda7dc7bf1f005ee879"

def draftCid : String := "beead77994cf573341ec17b58bbf7eb34d2711c993c1d976b128b3188dc1829a"

/-- Two documents with vectors of length one. -/
def sampleEntry (cid : String) (memoryType : Option MemoryType) : VectorEntry where
  embedding := if cid = planCid then [0x3f800000#32, 0#32] else [0x3f19999a#32, 0x3f4ccccd#32]
  meta_ := ⟨⟨["plan"], "text", 1, "role", "default", .shared, memoryType⟩, cid, "snippet"⟩

def sampleUpsert (cid : String) (memoryType : Option MemoryType) : Op :=
  .upsert cid (sampleEntry cid memoryType).embedding (sampleEntry cid memoryType).meta_ true

theorem survives_with_two_entries :
    let pre := [sampleUpsert planCid none, sampleUpsert draftCid none]
    ∃ entries, restoreFrom plainLines 2 (fun _ => true)
        (run plainLines (.withDim 2) (pre ++ .persist :: [.delete planCid])).file = .ok entries ∧
      ∀ cid, entries.lookup cid = (run plainLines (.withDim 2) pre).entries.lookup cid := by
  intro pre
  refine (restored_iff_survives plainLines 2 (fun _ => true) pre [.delete planCid] (by decide)).mpr
    ⟨fun cid e he => ?_, fun h => by cases congrArg (·.entries.length) h⟩
  have hmem : (⟨cid, e⟩ : Sigma fun _ => VectorEntry) ∈
      [⟨draftCid, sampleEntry draftCid none⟩, ⟨planCid, sampleEntry planCid none⟩] := mem_lookup_iff.mp he
  rcases mem_pair.mp hmem with h | h
  all_goals
    cases h
    exact ⟨rfl, rfl, by decide, rfl⟩

/-- The last entry is deleted, and comes back; the type of a memory does not. -/
theorem deleted_entry_restored :
    let restored ops := restoreFrom plainLines 2 (fun _ => true) (run plainLines (.withDim 2) ops).file
    (run plainLines (.withDim 2) [sampleUpsert planCid none, .persist, .delete planCid]).entries.entries = [] ∧
    (restored [sampleUpsert planCid none, .persist, .delete planCid, .persist]).map (·.lookup planCid) =
      .ok (some (sampleEntry planCid none)) ∧
    (restored [sampleUpsert planCid (some .episodic), .persist]).map (·.lookup planCid) =
      .ok (some (sampleEntry planCid none)) := by
  decide +kernel

end Samples

end Plico.Fs.VectorIndex
