import Mathlib.Data.List.Dedup
import Plico.Model.Fs.History
import Plico.Proof.Fs.Operations
import Plico.Proof.Fs.Visibility

/-!
# Deleted objects

A deleted object is in the recycle bin and in no index. What keeps it there is stated operation by operation
(`FsOp.Keeps`): its entry in the bin has not expired when the bin is next persisted, its bytes are not written again,
and the files read at a restart do not name it.
-/

namespace Plico.Fs

open AList List Plico.Cas

variable {tags : List String} {cid : String} {tag c : String} {index : TagIndex} {obj : AIObject} {cas : CASStorage}
  {bin : RecycleBin}

/-! ## Tags -/

/-- The CIDs of a tag. -/
def TagIndex.cids (index : TagIndex) (tag : String) : List String :=
  (index.lookup tag).getD []

theorem mem_cids_updateTagIndex (h : c ∈ TagIndex.cids (updateTagIndex index tags cid) tag) :
    c ∈ TagIndex.cids index tag ∨ c = cid := by
  refine (foldl_source (P := fun index => c ∈ TagIndex.cids index tag)
    (fun index tag' h => ?_) h).imp_right fun ⟨_, _, h⟩ => h
  by_cases htag : tag = tag'
  · subst htag
    rw [TagIndex.cids, lookup_insert] at h
    exact (mem_append.mp h).imp_right mem_singleton.mp
  · rw [TagIndex.cids, lookup_insert_ne htag] at h
    exact .inl h

theorem cids_removeFromTag {tag' : String} :
    TagIndex.cids (removeFromTagIndex index [tag'] cid) tag =
      if tag = tag' then (TagIndex.cids index tag).filter (· ≠ cid) else TagIndex.cids index tag := by
  unfold TagIndex.cids removeFromTagIndex
  rw [foldl_cons, foldl_nil]
  by_cases htag : tag = tag'
  · subst htag
    cases hcids : index.lookup tag with
    | none => simp [hcids]
    | some cids => simp
  · rw [if_neg htag]
    cases hcids : index.lookup tag' with
    | none => rfl
    | some cids => simp only [lookup_insert_ne htag]

/-- Removing a CID from the lists of its tags. -/
theorem mem_cids_removeFromTagIndex (h : c ∈ TagIndex.cids (removeFromTagIndex index tags cid) tag) :
    c ∈ TagIndex.cids index tag ∧ (c = cid → tag ∉ tags) := by
  induction tags generalizing index with
  | nil => exact ⟨h, fun _ => not_mem_nil⟩
  | cons tag' tags ih =>
    obtain ⟨hmem, hrest⟩ :=
      ih (show c ∈ TagIndex.cids (removeFromTagIndex (removeFromTagIndex index [tag'] cid) tags cid) tag from h)
    rw [cids_removeFromTag] at hmem
    split at hmem
    · obtain ⟨hmem, hne⟩ := mem_filter.mp hmem
      exact ⟨hmem, fun hc => absurd hc (of_decide_eq_true hne)⟩
    · next htag => exact ⟨hmem, fun hc => not_mem_cons_of_ne_of_not_mem htag (hrest hc)⟩

/-! ## The recycle bin -/

theorem lookup_retain {p : RecycleEntry → Bool} {entry : RecycleEntry}
    (h : bin.lookup cid = some entry) (hp : p entry = true) : (bin.retain p).lookup cid = some entry := by
  refine mem_lookup_iff.mpr (mem_filter.mpr ⟨mem_lookup_iff.mp h, ?_⟩)
  exact hp

/-! ## Hidden objects -/

/-- The object is in no index, and it is in the bin, which is as its file has it. -/
structure Hidden (cid : String) (fs : SemanticFS) : Prop where
  tags : ∀ tag, cid ∉ fs.tagIndex.cids tag
  vector : fs.searchIndex.entries.lookup cid = none
  words : fs.bm25Index.lookup cid = none
  binned : (fs.recycleBin.lookup cid).isSome = true
  saved : fs.recycleBinFile = some fs.recycleBin

namespace SemanticFS

variable {P : FsPlatform} {fs fs' : SemanticFS} {d cid : String}

variable {answer : EmbedOutcome} {content : Bytes}

theorem hidden_upsert (h : Hidden d fs) (hne : cid ≠ d) {meta_ : AIObjectMeta} :
    Hidden d (fs.upsertSemanticIndex P cid content meta_ answer).1 := by
  obtain ⟨bm25, entries, heq, hother⟩ := fs.upsertSemanticIndex_eq cid content meta_ answer
  rw [heq]
  obtain ⟨hbm25, hentries⟩ := hother d hne.symm
  exact ⟨h.tags, hentries.trans h.vector, hbm25.trans h.words, h.binned, h.saved⟩

theorem not_mem_updateTagIndex {tagIndex : TagIndex} (h : ∀ tag, d ∉ tagIndex.cids tag) (hne : cid ≠ d)
    (tags : List String) (tag : String) : d ∉ TagIndex.cids (updateTagIndex tagIndex tags cid) tag := by
  intro hmem
  obtain hmem | rfl := mem_cids_updateTagIndex hmem
  · exact h tag hmem
  · exact hne rfl

theorem ne_of_put {cas' : CASStorage} (hput : cas.put P.sha256 obj = .ok (cas', cid)) (hne : obj.cid ≠ d) : cid ≠ d :=
  (put_eq_ok.mp hput).2.2.1 ▸ hne

variable {now : Nat} {embedBatch : List String → Option (List Embedding)} {cids : List String} {α : Type} {n : Nat}
  {l : List α}

section

variable (h : Hidden d fs) {intent : Option String} {scope : ObjectScope} {createdBy : String} {agentId : String}
include h

theorem hidden_create (hne : P.sha256 content ≠ d) {queued : Bool}
    (hok : fs.create P content tags createdBy intent scope now queued answer = .ok (fs', cid)) : Hidden d fs' := by
  obtain ⟨cas, hput, rfl⟩ := create_eq_ok hok
  have hcid := ne_of_put hput hne
  have htagged : Hidden d { fs with cas, tagIndex := updateTagIndex fs.tagIndex tags cid } :=
    { h with tags := not_mem_updateTagIndex h.tags hcid tags }
  split
  · exact htagged
  · exact hidden_upsert htagged hcid

theorem hidden_createWithEmbedding (hne : P.sha256 content ≠ d) {embedding : Embedding}
    (hok : fs.createWithEmbedding P content tags createdBy intent scope now embedding = .ok (fs', cid)) :
    Hidden d fs' := by
  obtain ⟨cas, hput, rfl⟩ := createWithEmbedding_eq_ok hok
  have hcid := ne_of_put hput hne
  obtain ⟨entries, hindex, hentries⟩ := fs.searchIndex.upsert_eq cid embedding
    (indexMeta (createdMeta P content tags createdBy intent scope now))
  rw [hindex]
  obtain ⟨bm25, heq, hbm25⟩ := ({ fs with
    cas, tagIndex := updateTagIndex fs.tagIndex tags cid
    searchIndex := { fs.searchIndex with entries } }).bm25Upsert_eq cid (P.fromUtf8Lossy content)
  rw [heq]
  exact ⟨not_mem_updateTagIndex h.tags hcid tags, (hentries d hcid.symm).trans h.vector,
    (hbm25 d hcid.symm).trans h.words, h.binned, h.saved⟩

theorem hidden_update {oldCid : String} {newContent : Bytes} (hne : P.sha256 newContent ≠ d)
    {newTags : Option (List String)} (hok : fs.update P oldCid newContent newTags now answer = .ok (fs', cid)) :
    Hidden d fs' := by
  obtain ⟨oldObj, cas, -, hput, rfl⟩ := update_eq_ok hok
  have hcid := ne_of_put hput hne
  refine hidden_upsert ?_ hcid
  refine ⟨not_mem_updateTagIndex (fun tag hmem => ?_) hcid _, ?_, h.words, h.binned, h.saved⟩
  · exact h.tags tag (mem_cids_removeFromTagIndex hmem).1
  · by_cases hold : d = oldCid
    · subst hold
      exact lookup_erase ..
    · exact (lookup_erase_ne hold).trans h.vector

theorem hidden_storeChunk {i : Nat} {text : String} (hne : P.sha256 (utf8 text) ≠ d) :
    Hidden d (storeChunk P obj agentId fs i text answer) := by
  unfold storeChunk
  dsimp only
  split
  · exact h
  · rename_i cas cid hput
    have hcid := ne_of_put hput hne
    refine hidden_upsert ?_ hcid
    exact { h with tags := not_mem_updateTagIndex h.tags hcid _ }

theorem hidden_processDocument (hne : cid ≠ d)
    {chunks : List (String × EmbedOutcome)} (hchunks : ∀ chunk ∈ chunks, P.sha256 (utf8 chunk.1) ≠ d) :
    Hidden d (fs.processDocument P cid agentId answer chunks) := by
  unfold processDocument
  split
  · exact h
  · refine List.foldlRecOn _ _ (hidden_upsert h hne) fun fs hfs chunk hchunk => ?_
    exact hidden_storeChunk hfs (hchunks _ (fst_mem_of_mem_zipIdx hchunk))

end

/-! ## Deleting and restoring -/

/-- The object's entry in the bin survives when the bin is persisted at `now`. -/
def Unexpired (fs : SemanticFS) (cid : String) (now : Nat) : Prop :=
  ∀ entry, fs.recycleBin.lookup cid = some entry → now - entry.deletedAt < recycleBinTtlMs

theorem hidden_persistRecycleBin (tags : ∀ tag, d ∉ fs.tagIndex.cids tag)
    (vector : fs.searchIndex.entries.lookup d = none) (words : fs.bm25Index.lookup d = none)
    (binned : (fs.recycleBin.lookup d).isSome = true) (hnow : fs.Unexpired d now) :
    Hidden d (fs.persistRecycleBin now) := by
  obtain ⟨entry, hentry⟩ := Option.isSome_iff_exists.mp binned
  have hkept :
      (fs.recycleBin.retain fun entry => decide (now - entry.deletedAt < recycleBinTtlMs)).lookup d = some entry :=
    lookup_retain hentry (decide_eq_true (hnow entry hentry))
  exact ⟨tags, vector, words, Option.isSome_iff_exists.mpr ⟨entry, hkept⟩, rfl⟩

/-- An object that is deleted is hidden, if it was listed under its own tags only. -/
theorem hidden_of_delete (hok : fs.delete P d now = .ok fs')
    (htags : ∀ obj, fs.cas.getRaw P.sha256 d = .ok obj → ∀ tag, d ∈ fs.tagIndex.cids tag → tag ∈ obj.meta_.tags) :
    Hidden d fs' := by
  obtain ⟨obj, hobj, rfl⟩ := delete_eq_ok hok
  refine hidden_persistRecycleBin (fun tag hmem => ?_) ?_ ?_ ?_ fun entry hentry => ?_
  · obtain ⟨hmem, hnot⟩ := mem_cids_removeFromTagIndex hmem
    exact hnot rfl (htags obj hobj tag hmem)
  · exact lookup_erase ..
  · exact lookup_erase ..
  · exact Option.isSome_iff_exists.mpr ⟨_, lookup_insert _⟩
  · cases (lookup_insert _).symm.trans hentry
    rw [Nat.sub_self]
    decide

theorem hidden_delete (h : Hidden d fs) (hnow : cid = d ∨ fs.Unexpired d now) (hok : fs.delete P cid now = .ok fs') :
    Hidden d fs' := by
  by_cases hcid : cid = d
  · subst hcid
    exact hidden_of_delete hok fun _ _ tag hmem => absurd hmem (h.tags tag)
  · obtain ⟨obj, -, rfl⟩ := delete_eq_ok hok
    have hd : d ≠ cid := Ne.symm hcid
    refine hidden_persistRecycleBin (fun tag hmem => ?_) ?_ ?_ ?_ fun entry hentry => ?_
    · exact h.tags tag (mem_cids_removeFromTagIndex hmem).1
    · exact (lookup_erase_ne hd).trans h.vector
    · exact (lookup_erase_ne hd).trans h.words
    · rw [lookup_insert_ne hd]
      exact h.binned
    · rw [lookup_insert_ne hd] at hentry
      exact hnow.resolve_left hcid entry hentry

theorem hidden_restore (h : Hidden d fs) (hcid : cid ≠ d) (hnow : fs.Unexpired d now)
    (hok : fs.restore P cid now answer = .ok fs') : Hidden d fs' := by
  obtain ⟨entry, -, rfl⟩ := restore_eq_ok hok
  have hd : d ≠ cid := Ne.symm hcid
  have hbin : (fs.recycleBin.erase cid).lookup d = fs.recycleBin.lookup d := lookup_erase_ne hd
  have hbinned := hbin ▸ h.binned
  have hkept := fun entry hentry => hnow entry (hbin.symm.trans hentry)
  have htags := not_mem_updateTagIndex h.tags hcid entry.originalMeta.tags
  unfold unbinned
  dsimp only
  split
  · rename_i obj _
    obtain ⟨bm25, entries, heq, hother⟩ := ({ fs with
      recycleBin := fs.recycleBin.erase cid
      tagIndex := updateTagIndex fs.tagIndex entry.originalMeta.tags cid }).upsertSemanticIndex_eq
        cid obj.data obj.meta_ answer
    rw [heq]
    obtain ⟨hbm25, hentries⟩ := hother d hd
    exact hidden_persistRecycleBin htags (hentries.trans h.vector) (hbm25.trans h.words) hbinned hkept
  · exact hidden_persistRecycleBin htags h.vector h.words hbinned hkept

/-! ## Restarting -/

theorem not_mem_rebuildTagIndex (hbin : (bin.lookup d).isSome = true) :
    d ∉ TagIndex.cids (rebuildTagIndex P cas bin cids) tag := by
  refine List.foldlRecOn (motive := fun index : TagIndex => d ∉ index.cids tag) cids _ ?_ fun index h cid _ => ?_
  · simp [TagIndex.cids]
  · split
    · exact h
    · rename_i hcid
      split
      · intro hmem
        obtain hmem | rfl := mem_cids_updateTagIndex hmem
        · exact h hmem
        · exact hcid hbin
      · exact h

theorem ne_of_rebuildEntries (hbin : (fs.recycleBin.lookup d).isSome = true)
    {entry : String × String × AIObjectMeta} (h : entry ∈ fs.rebuildEntries P cids) : d ≠ entry.1 := by
  obtain ⟨cid, -, hsome⟩ := mem_filterMap.mp h
  split at hsome
  · cases hsome
  · rename_i hcid
    split at hsome
    · cases hsome
    · obtain ⟨text, -, rfl⟩ := Option.map_eq_some_iff.mp hsome
      rintro rfl
      exact hcid hbin

theorem lookup_rebuildBatches {index : HnswBackend}
    {chunks : List (List (String × String × AIObjectMeta))} (hchunks : ∀ chunk ∈ chunks, ∀ entry ∈ chunk, d ≠ entry.1) :
    (rebuildBatches embedBatch index chunks).entries.lookup d = index.entries.lookup d := by
  induction chunks generalizing index with
  | nil => rfl
  | cons chunk chunks ih =>
    unfold rebuildBatches
    split
    · rfl
    · rw [ih fun chunk hchunk => hchunks chunk (mem_cons_of_mem _ hchunk)]
      refine List.foldlRecOn (motive := fun index' : HnswBackend => index'.entries.lookup d = index.entries.lookup d)
        _ _ rfl fun index' h entry hentry => ?_
      obtain ⟨entries, heq, hother⟩ := index'.upsert_eq entry.1.1 entry.2 (indexMeta entry.1.2.2)
      rw [heq]
      exact (hother d (hchunks chunk mem_cons_self _ (of_mem_zip hentry).1)).trans h

theorem flatten_toChunks_go {filling : Array α} {full : Array (List α)} :
    (List.toChunks.go n l filling full).flatten = full.toList.flatten ++ filling.toList ++ l := by
  induction l generalizing filling full with
  | nil => simp [List.toChunks.go]
  | cons b l ih =>
    rw [List.toChunks.go]
    split <;> simp [ih]

theorem flatten_toChunks : (l.toChunks n).flatten = l := by
  match n, l with
  | _, [] => simp [List.toChunks]
  | 0, b :: l => simp [List.toChunks]
  | n + 1, b :: l => simp [List.toChunks, flatten_toChunks_go]

/-- The files that a restart reads do not name the object. -/
def NotInFiles (fs : SemanticFS) (cid : String) : Prop :=
  (∀ file, fs.tagIndexFile = some file → ∀ tag, cid ∉ file.cids tag) ∧
  ∀ file, fs.searchIndexFile = some file → file.dim = fs.searchIndex.dim → file.entries.lookup cid = none

theorem hidden_restart (h : Hidden d fs) (hfiles : fs.NotInFiles d) : Hidden d (fs.restart P cids embedBatch) := by
  have hbin : fs.recycleBinFile.getD ∅ = fs.recycleBin := by rw [h.saved, Option.getD_some]
  unfold restart
  rw [hbin]
  refine ⟨fun tag => ?_, ?_, ?_, h.binned, h.saved⟩
  · cases hfile : fs.tagIndexFile with
    | none => exact not_mem_rebuildTagIndex h.binned
    | some file => exact hfiles.1 file hfile tag
  · have hrestored : (restoredIndex fs.searchIndex.dim fs.searchIndexFile).entries.lookup d = none := by
      unfold restoredIndex
      split
      · rename_i file hfile
        split
        · next hdim => exact hfiles.2 file hfile hdim
        · exact lookup_empty d
      · exact lookup_empty d
    refine (lookup_rebuildBatches fun chunk hchunk entry hentry => ?_).trans hrestored
    exact ne_of_rebuildEntries h.binned (flatten_toChunks .. ▸ mem_flatten_of_mem hchunk hentry)
  · refine List.foldlRecOn (motive := fun bm25 : AList (fun _ => String) => bm25.lookup d = none) _ _
      (lookup_empty d) fun bm25 hbm25 entry hentry => ?_
    rw [lookup_insert_ne (ne_of_rebuildEntries h.binned hentry)]
    exact hbm25

end SemanticFS

/-! ## Whole histories -/

/-- The operation leaves the deleted object `d` alone: it does not write its bytes, restore it, index it again in the
background, persist the bin when its entry has expired, or read a file that names it. -/
def FsOp.Keeps (P : SearchPlatform) (d : String) (fs : SemanticFS) : FsOp → Prop
  | .create content _ _ _ _ _ _ _ | .createWithEmbedding content _ _ _ _ _ _ => P.sha256 content ≠ d
  | .processDocument cid _ _ chunks => cid ≠ d ∧ ∀ chunk ∈ chunks, P.sha256 (utf8 chunk.1) ≠ d
  | .update _ newContent _ _ _ => P.sha256 newContent ≠ d
  | .delete cid now => cid = d ∨ fs.Unexpired d now
  | .restore cid now _ => cid ≠ d ∧ fs.Unexpired d now
  | .search _ _ _ _ _ _ | .flushTagIndex | .persistSearchIndex => True
  | .restart _ _ => fs.NotInFiles d

/-- Every operation of the history leaves the object alone. -/
def AllKeep (P : SearchPlatform) (d : String) (fs : SemanticFS) : List FsOp → Prop
  | [] => True
  | op :: ops => op.Keeps P d fs ∧ AllKeep P d (op.apply P fs) ops

section

variable {P : SearchPlatform} {fs : SemanticFS} {d : String}

theorem hidden_step (h : Hidden d fs) {op : FsOp} (hkeeps : op.Keeps P d fs) : Hidden d (op.apply P fs) := by
  have hfsOr {x : Except IoError (SemanticFS × String)} (hx : ∀ fs' cid, x = .ok (fs', cid) → Hidden d fs') :
      Hidden d (fsOr fs x) := by
    match x, hx with
    | .ok (fs', cid), hx => exact hx fs' cid rfl
    | .error _, _ => exact h
  have hgetD {x : Except IoError SemanticFS} (hx : ∀ fs', x = .ok fs' → Hidden d fs') :
      Hidden d (x.toOption.getD fs) := by
    match x, hx with
    | .ok fs', hx => exact hx fs' rfl
    | .error _, _ => exact h
  cases op with
  | create => exact hfsOr fun _ _ hok => SemanticFS.hidden_create h hkeeps hok
  | createWithEmbedding => exact hfsOr fun _ _ hok => SemanticFS.hidden_createWithEmbedding h hkeeps hok
  | processDocument => exact SemanticFS.hidden_processDocument h hkeeps.1 hkeeps.2
  | update => exact hfsOr fun _ _ hok => SemanticFS.hidden_update h hkeeps hok
  | delete => exact hgetD fun _ hok => SemanticFS.hidden_delete h hkeeps hok
  | restore => exact hgetD fun _ hok => SemanticFS.hidden_restore h hkeeps.1 hkeeps.2 hok
  | search env query limit filter allowCache mono =>
    obtain ⟨cache, heq⟩ := SemanticFS.searchWithFilterInternal_fst P env fs query limit filter allowCache mono
    show Hidden d (fs.searchWithFilterInternal P env query limit filter allowCache mono).1
    rw [heq]
    exact { h with }
  | flushTagIndex => exact { h with }
  | persistSearchIndex =>
    show Hidden d fs.persistSearchIndex
    unfold SemanticFS.persistSearchIndex
    split
    · exact h
    · exact { h with }
  | restart cids embedBatch => exact SemanticFS.hidden_restart h hkeeps

theorem hidden_run (h : Hidden d fs) {ops : List FsOp} (hkeep : AllKeep P d fs ops) : Hidden d (runFs P fs ops) := by
  induction ops generalizing fs with
  | nil => exact h
  | cons op ops ih => exact ih (hidden_step h hkeep.1) hkeep.2

end

/-! ## What is returned -/

namespace SemanticFS

variable {P : SearchPlatform} {env : SearchEnv} {fs : SemanticFS} {d : String} {filter : SearchFilter} {limit : Nat}
  {r : SearchResult} {query : Query} {mono : Nat}

/-- What a search meets outside the indexes does not lead to the object: the graph and the reranker do not name it, no
ranked chunk has it as its parent, and no live answer of the cache for this query has it. -/
structure Spares (P : SearchPlatform) (env : SearchEnv) (d : String) (fs : SemanticFS) (query : String) (limit : Nat)
    (filter : SearchFilter) (allowCache : Bool) (mono : Nat) : Prop where
  outside : ¬ env.Names d
  parents : ∀ cid obj, Ranked P.sha256 env fs filter cid → fs.cas.getRaw P.sha256 cid = .ok obj →
    parentCid obj.meta_.tags ≠ some d
  cached : (allowCache && filter.isCacheNeutral) = true → ∀ entry ∈ fs.searchCache, entry.key = cacheKey query limit →
    mono - entry.createdAt < searchCacheTtlMs → ∀ r ∈ entry.results, r.cid ≠ d

theorem not_indexed (h : Hidden d fs) : ¬ fs.Indexed filter d := by
  rintro ⟨entry, hentry, -⟩
  simp [h.vector] at hentry

theorem not_mem_bm25Index (h : Hidden d fs) : d ∉ fs.bm25Index := by
  rw [← lookup_isSome, h.words]
  simp

theorem ne_of_sourced (h : Hidden d fs) (houtside : ¬ env.Names d)
    (hparents : ∀ cid obj, Ranked P.sha256 env fs filter cid → fs.cas.getRaw P.sha256 cid = .ok obj →
      parentCid obj.meta_.tags ≠ some d) (hr : Sourced P.sha256 env fs filter r) : r.cid ≠ d := by
  have hranked : ¬ Ranked P.sha256 env fs filter d := by
    rintro (hindexed | ⟨-, hwords | hnames⟩)
    · exact not_indexed h hindexed
    · exact not_mem_bm25Index h hwords
    · exact houtside (.inl hnames)
  rintro rfl
  cases hr with
  | accepted offered _ =>
    obtain (hwords | ⟨entry, hentry, hmem⟩ | hnames) | ranked := offered
    · exact not_mem_bm25Index h hwords
    · refine h.tags entry.1 ?_
      rw [TagIndex.cids, lookup_of_mem_entries hentry]
      exact hmem
    · exact houtside hnames
    · exact hranked ranked
  | @ranked cid obj _ ranked stored hshown =>
    have hparent := hparents cid obj ranked stored
    unfold shown at hshown
    split at hshown
    · exact hranked (hshown ▸ ranked)
    · rename_i parent hparentCid
      split at hshown
      · exact hparent (hparentCid.trans (congrArg some hshown.symm))
      · exact hranked (hshown ▸ ranked)

theorem mem_of_cacheGet {cache cache' : List SearchCacheEntry} {key : String} {results : List SearchResult}
    (h : cacheGet cache key mono = (cache', some results)) :
    ∃ entry ∈ cache, entry.key = key ∧ mono - entry.createdAt < searchCacheTtlMs ∧ results = entry.results := by
  unfold cacheGet at h
  split at h
  · cases h
  · rename_i entry hentry
    split at h
    · rename_i hfresh
      obtain ⟨-, hresults⟩ := Prod.mk.inj h
      have hkey := find?_some hentry
      exact ⟨entry, mem_of_find?_eq_some hentry, beq_iff_eq.mp hkey, hfresh, (Option.some.inj hresults).symm⟩
    · cases h

theorem search_spares (h : Hidden d fs) {query : String} {allowCache : Bool}
    (hspares : Spares P env d fs query limit filter allowCache mono) :
    ∀ r ∈ (fs.searchWithFilterInternal P env query limit filter allowCache mono).2.results, r.cid ≠ d := by
  intro r hr
  unfold searchWithFilterInternal at hr
  split at hr
  · rename_i cache results hlookup
    unfold cacheLookup at hlookup
    split at hlookup
    · rename_i hcached
      obtain ⟨entry, hentry, hkey, hfresh, rfl⟩ := mem_of_cacheGet hlookup
      exact hspares.cached hcached entry hentry hkey hfresh r hr
    · cases hlookup
  · exact ne_of_sourced h hspares.outside hspares.parents (sourced_of_searchFresh hr)

theorem ne_of_resultOf {relevance : F32} (h : fs.resultOf P cid relevance = some r) (hne : cid ≠ d) : r.cid ≠ d :=
  (resultOf_eq_some h).1 ▸ hne

theorem searchByTags_spares (h : Hidden d fs) : ∀ r ∈ fs.searchByTags P tags limit, r.cid ≠ d := by
  intro r hr
  obtain ⟨cid, hcid, hresult⟩ := mem_filterMap.mp (mem_of_mem_take hr)
  obtain ⟨tag, -, hcid⟩ := mem_flatMap.mp hcid
  refine ne_of_resultOf hresult ?_
  rintro rfl
  exact h.tags tag hcid

theorem searchByTagsIntersection_spares (h : Hidden d fs) :
    ∀ r ∈ fs.searchByTagsIntersection P tags limit, r.cid ≠ d := by
  intro r hr
  unfold searchByTagsIntersection at hr
  split at hr
  · cases hr
  · rename_i tag tags
    obtain ⟨cid, hcid, hresult⟩ := mem_filterMap.mp (mem_of_mem_take hr)
    have hmem := mem_dedup.mp (mem_filter.mp hcid).1
    refine ne_of_resultOf hresult ?_
    rintro rfl
    exact h.tags tag hmem

theorem not_mem_resolveTags (h : Hidden d fs) : d ∉ resolveTags fs.tagIndex tags := by
  intro hmem
  obtain ⟨tag, -, hcid⟩ := mem_flatMap.mp (mem_of_mem_distinct hmem)
  exact h.tags tag hcid

theorem not_mem_queryCids (h : Hidden d fs) (hquery : ∀ cid, query ≠ .byCid cid) : d ∉ fs.queryCids P env query := by
  have hhits {embedding : Embedding} {k : Nat} {filter : SearchFilter} :
      d ∉ (fs.searchIndex.search P.f32 env.neighbours embedding k filter).map (·.cid) := by
    intro hmem
    obtain ⟨hit, hhit, rfl⟩ := mem_map.mp hmem
    exact not_indexed h (indexed_of_mem_search hhit)
  have hlist {filter : SearchFilter} : d ∉ fs.listByFilter filter := by
    intro hmem
    obtain ⟨entry, hentry, rfl⟩ := mem_map.mp hmem
    have hlookup := lookup_of_mem_entries (mem_filter.mp hentry).1
    simp [h.vector] at hlookup
  unfold queryCids
  split
  · exact absurd rfl (hquery _)
  · exact not_mem_resolveTags h
  · split
    · exact hhits
    · exact not_mem_resolveTags h
  · exact hlist
  · split
    · exact hhits
    · exact hlist

/-- `get_raw` answers with the object it was asked for. -/
theorem cid_of_getRaw {sha256 : Bytes → String} (h : cas.getRaw sha256 cid = .ok obj) : obj.cid = cid := by
  obtain ⟨_, -, obj', -, _, hintact, h⟩ := of_seq₃ h
  cases h
  by_contra hne
  exact refuse_eq_ok.mp hintact (.inl hne)

theorem read_spares (h : Hidden d fs) (hquery : ∀ cid, query ≠ .byCid cid) {objs : List AIObject}
    (hread : fs.read P env query = .ok objs) : ∀ obj ∈ objs, obj.cid ≠ d := by
  intro obj hobj
  unfold read at hread
  split at hread
  · exact absurd rfl (hquery _)
  · cases hread
    obtain ⟨cid, hcid, hget⟩ := mem_filterMap.mp hobj
    cases hraw : fs.cas.get P.sha256 cid with
    | error e => simp [hraw, Except.toOption] at hget
    | ok obj' =>
      obtain rfl : obj' = obj := by simpa [hraw, Except.toOption] using hget
      rw [cid_of_getRaw hraw]
      rintro rfl
      exact not_mem_queryCids h hquery hcid

end SemanticFS

/-- No search, read by tags or index gives the object. A read of the object by its own CID is not meant. -/
structure Unreturned (P : SearchPlatform) (d : String) (fs : SemanticFS) : Prop where
  search : ∀ env query limit filter allowCache mono,
    SemanticFS.Spares P env d fs query limit filter allowCache mono →
      ∀ r ∈ (fs.searchWithFilterInternal P env query limit filter allowCache mono).2.results, r.cid ≠ d
  searchByTags : ∀ tags limit, ∀ r ∈ fs.searchByTags P tags limit, r.cid ≠ d
  searchByTagsIntersection : ∀ tags limit, ∀ r ∈ fs.searchByTagsIntersection P tags limit, r.cid ≠ d
  read : ∀ env query objs, (∀ cid, query ≠ .byCid cid) → fs.read P env query = .ok objs → ∀ obj ∈ objs, obj.cid ≠ d
  tagIndex : ∀ tag, d ∉ fs.tagIndex.cids tag
  searchIndex : d ∉ fs.searchIndex.entries
  bm25Index : d ∉ fs.bm25Index

theorem Hidden.unreturned {P : SearchPlatform} {d : String} {fs : SemanticFS} (h : Hidden d fs) :
    Unreturned P d fs where
  search := fun _ _ _ _ _ _ => SemanticFS.search_spares h
  searchByTags := fun _ _ => SemanticFS.searchByTags_spares h
  searchByTagsIntersection := fun _ _ => SemanticFS.searchByTagsIntersection_spares h
  read := fun _ _ _ hquery hread => SemanticFS.read_spares h hquery hread
  tagIndex := h.tags
  searchIndex := by
    rw [← lookup_isSome, h.vector]
    simp
  bm25Index := SemanticFS.not_mem_bm25Index h

/-- A deleted object stays deleted along every history whose operations leave it alone, if it was listed under its own
tags only. -/
theorem deleted_stays_unreturned (P : SearchPlatform) (fs fs' : SemanticFS) (d : String) (now : Nat)
    (hdelete : fs.delete P.toFsPlatform d now = .ok fs')
    (htags : ∀ obj, fs.cas.getRaw P.sha256 d = .ok obj → ∀ tag, d ∈ fs.tagIndex.cids tag → tag ∈ obj.meta_.tags)
    (ops : List FsOp) (hkeep : AllKeep P d fs' ops) : Unreturned P d (runFs P fs' ops) :=
  (hidden_run (SemanticFS.hidden_of_delete hdelete htags) hkeep).unreturned

/-! ## A note that is deleted -/

section

open SemanticFS

def createNote : FsOp :=
  .create (utf8 "note") ["todo"] "bob" none .shared 1 false .failed

def createMemo : FsOp :=
  .create (utf8 "memo") [] "bob" none .shared 2 false .failed

/-- The word index finds the note. -/
def wordEnv : SearchEnv :=
  { noteEnv with embedQuery := .error .providerUnavailable, bm25 := fun _ => [(noteCid, 0)] }

theorem note_listed_under_its_tags
    (hobj : (runFs notePlatform blankFs [createNote]).cas.getRaw notePlatform.sha256 noteCid = .ok obj)
    (hmem : noteCid ∈ (runFs notePlatform blankFs [createNote]).tagIndex.cids tag) : tag ∈ obj.meta_.tags := by
  cases hobj
  by_contra htag
  have hempty : (runFs notePlatform blankFs [createNote]).tagIndex.cids tag = [] := by
    show ((insert "todo" [noteCid] (∅ : TagIndex)).lookup tag).getD [] = []
    rw [lookup_insert_ne fun h => htag (mem_singleton.mpr h)]
    rfl
  rw [hempty] at hmem
  cases hmem

/-- A deleted note stays deleted when the tags are flushed and the filesystem restarts. -/
theorem note_stays_deleted :
    ∃ fs', (runFs notePlatform blankFs [createNote]).delete notePlatform.toFsPlatform noteCid 5 = .ok fs' ∧
      Unreturned notePlatform noteCid (runFs notePlatform fs' [.flushTagIndex, .restart [noteCid] fun _ => none]) := by
  refine ⟨_, rfl, deleted_stays_unreturned notePlatform _ _ noteCid 5 rfl
    (fun _ hobj _ => note_listed_under_its_tags hobj) _
    ⟨trivial, ⟨fun file hfile tag => ?_, fun file hfile => ?_⟩, trivial⟩⟩
  · cases hfile
    exact (hidden_of_delete rfl fun _ hobj _ => note_listed_under_its_tags hobj).tags tag
  · cases hfile

/-- Thirty days later the bin forgets the note, and the next restart indexes it again. Sooner than that, the cache still
has it. -/
theorem deleted_note_returns :
    (∃ fs', (runFs notePlatform blankFs [createNote, createMemo]).delete notePlatform.toFsPlatform noteCid 5 = .ok fs' ∧
        ((runFs notePlatform fs' [.delete memoCid (recycleBinTtlMs + 5),
          .restart
          [noteCid, memoCid] fun _ => none]).searchWithFilter notePlatform wordEnv "note" 5 .default 0).2.map (·.cid) =
            [noteCid]) ∧
      ∃ fs', (runFs notePlatform blankFs [createNote, .search wordEnv "note" 5 .default true 0]).delete
          notePlatform.toFsPlatform noteCid 5 = .ok fs' ∧
        (fs'.searchWithFilter notePlatform wordEnv "note" 5 .default 1000).2.map (·.cid) = [noteCid] :=
  ⟨⟨_, rfl, by decide +kernel⟩, ⟨_, rfl, by decide +kernel⟩⟩

end

end Plico.Fs
