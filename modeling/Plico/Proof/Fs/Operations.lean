import Plico.Model.Fs.Search
import Plico.Proof.Cas.Storage

/-!
# What the operations of the filesystem do to the storage

Each operation only puts objects (`Stores`); searches, reads and the upkeep of the indexes leave the storage
alone.
-/

namespace Plico.Fs

open Plico.Cas

variable {P : FsPlatform} {fs fs' : SemanticFS}

/-- Storing a vector touches the entry of one CID. -/
theorem HnswBackend.upsert_eq (index : HnswBackend) (cid : String) (embedding : Embedding) (meta_ : SearchIndexMeta) :
    ∃ entries, index.upsert cid embedding meta_ = { index with entries } ∧
      ∀ other, other ≠ cid → entries.lookup other = index.entries.lookup other := by
  unfold upsert
  split
  · exact ⟨_, rfl, fun _ _ => rfl⟩
  · exact ⟨_, rfl, fun _ hne => AList.lookup_insert_ne hne⟩

namespace SemanticFS

/-- Indexing keywords touches the entry of one CID. -/
theorem bm25Upsert_eq (cid text : String) :
    ∃ bm25, fs.bm25Upsert cid text = { fs with bm25Index := bm25 } ∧
      ∀ other, other ≠ cid → bm25.lookup other = fs.bm25Index.lookup other := by
  unfold bm25Upsert
  split
  · exact ⟨_, rfl, fun _ _ => rfl⟩
  · exact ⟨_, rfl, fun _ hne => AList.lookup_insert_ne hne⟩

/-- Indexing an object touches the entries of one CID in the two indexes. -/
theorem upsertSemanticIndex_eq (cid : String) (content : Bytes) (meta_ : AIObjectMeta) (answer : EmbedOutcome) :
    ∃ bm25 entries, (fs.upsertSemanticIndex P cid content meta_ answer).1 =
        { fs with bm25Index := bm25, searchIndex := { fs.searchIndex with entries } } ∧
      ∀ other, other ≠ cid → bm25.lookup other = fs.bm25Index.lookup other ∧
        entries.lookup other = fs.searchIndex.entries.lookup other := by
  obtain ⟨bm25, heq, hbm25⟩ := fs.bm25Upsert_eq cid (P.fromUtf8Lossy content)
  unfold upsertSemanticIndex
  dsimp only
  rw [heq]
  generalize (if (utf8 (P.fromUtf8Lossy content)).length > 6000 then
    String.ofList ((P.fromUtf8Lossy content).toList.take 6000) else P.fromUtf8Lossy content) = embedText
  split
  · exact ⟨bm25, _, rfl, fun other hne => ⟨hbm25 other hne, rfl⟩⟩
  · cases answer with
    | tooLarge | failed => exact ⟨bm25, _, rfl, fun other hne => ⟨hbm25 other hne, rfl⟩⟩
    | embedded embedding =>
      obtain ⟨entries, hindex, hentries⟩ := fs.searchIndex.upsert_eq cid embedding (indexMeta meta_)
      exact ⟨bm25, entries, by rw [← hindex], fun other hne => ⟨hbm25 other hne, hentries other hne⟩⟩

@[simp] theorem bm25Upsert_cas {cid text : String} : (fs.bm25Upsert cid text).cas = fs.cas := by
  obtain ⟨bm25, heq, -⟩ := fs.bm25Upsert_eq cid text
  rw [heq]

@[simp] theorem upsertSemanticIndex_cas (cid : String) (content : Bytes) (meta_ : AIObjectMeta)
    (answer : EmbedOutcome) : (fs.upsertSemanticIndex P cid content meta_ answer).1.cas = fs.cas := by
  obtain ⟨bm25, entries, heq, -⟩ := fs.upsertSemanticIndex_eq cid content meta_ answer
  rw [heq]

/-! ## The result of an operation -/

/-- The metadata of an object that is created. -/
def createdMeta (P : FsPlatform) (content : Bytes) (tags : List String) (createdBy : String) (intent : Option String)
    (scope : ObjectScope) (now : Nat) : AIObjectMeta :=
  { contentType := if (P.fromUtf8 content).isSome then .text else .unknown
    tags
    createdBy
    createdAt := now
    intent
    tenantId := Cas.defaultTenant
    scope }

variable {content : Bytes} {tags : List String} {createdBy cid : String} {intent : Option String}
  {scope : ObjectScope} {now : Nat} {answer : EmbedOutcome} {newTags : Option (List String)} {newContent : Bytes}
  {oldCid newCid : String} {embedding : Embedding} {queued : Bool}

theorem create_eq_ok (h : fs.create P content tags createdBy intent scope now queued answer = .ok (fs', cid)) :
    ∃ cas, fs.cas.put P.sha256 (.new P.sha256 content (createdMeta P content tags createdBy intent scope now)) =
        .ok (cas, cid) ∧
      fs' = if queued then { fs with cas, tagIndex := updateTagIndex fs.tagIndex tags cid }
        else ({ fs with cas, tagIndex := updateTagIndex fs.tagIndex tags cid }.upsertSemanticIndex P cid content
          (createdMeta P content tags createdBy intent scope now) answer).1 := by
  obtain ⟨⟨cas, cid⟩, hput, h⟩ := of_seq h
  cases h
  exact ⟨cas, mapError_ok_iff.mp hput, rfl⟩

theorem createWithEmbedding_eq_ok
    (h : fs.createWithEmbedding P content tags createdBy intent scope now embedding = .ok (fs', cid)) :
    ∃ cas, fs.cas.put P.sha256 (.new P.sha256 content (createdMeta P content tags createdBy intent scope now)) =
        .ok (cas, cid) ∧
      fs' = ({ fs with
        cas
        tagIndex := updateTagIndex fs.tagIndex tags cid
        searchIndex := fs.searchIndex.upsert cid embedding
          (indexMeta (createdMeta P content tags createdBy intent scope now)) } : SemanticFS).bm25Upsert cid
            (P.fromUtf8Lossy content) := by
  obtain ⟨⟨cas, cid⟩, hput, h⟩ := of_seq h
  cases h
  exact ⟨cas, mapError_ok_iff.mp hput, rfl⟩

theorem update_eq_ok (h : fs.update P oldCid newContent newTags now answer = .ok (fs', newCid)) :
    ∃ oldObj cas, fs.cas.get P.sha256 oldCid = .ok oldObj ∧
      fs.cas.put P.sha256 (.new P.sha256 newContent
        { oldObj.meta_ with tags := newTags.getD oldObj.meta_.tags, createdAt := now }) = .ok (cas, newCid) ∧
      fs' = (({ fs with
        cas
        tagIndex := updateTagIndex (removeFromTagIndex fs.tagIndex oldObj.meta_.tags oldCid)
          (newTags.getD oldObj.meta_.tags) newCid
        searchIndex := fs.searchIndex.delete oldCid } : SemanticFS).upsertSemanticIndex P newCid newContent
          { oldObj.meta_ with tags := newTags.getD oldObj.meta_.tags, createdAt := now } answer).1 := by
  obtain ⟨oldObj, hget, h⟩ := of_seq h
  obtain ⟨⟨cas, cid⟩, hput, h⟩ := of_seq h
  cases h
  exact ⟨oldObj, cas, mapError_ok_iff.mp hget, mapError_ok_iff.mp hput, rfl⟩

theorem delete_eq_ok (h : fs.delete P cid now = .ok fs') :
    ∃ obj, fs.cas.get P.sha256 cid = .ok obj ∧
      fs' = ({ fs with
        recycleBin := fs.recycleBin.insert cid ⟨cid, now, obj.meta_⟩
        searchIndex := fs.searchIndex.delete cid
        bm25Index := fs.bm25Index.erase cid
        tagIndex := removeFromTagIndex fs.tagIndex obj.meta_.tags cid } : SemanticFS).persistRecycleBin now := by
  obtain ⟨obj, hget, h⟩ := of_seq h
  exact ⟨obj, mapError_ok_iff.mp hget, (pure_ok_inj.mp h).symm⟩

/-- The filesystem of a restored object before the bin is persisted. -/
def unbinned (P : FsPlatform) (fs : SemanticFS) (cid : String) (entry : RecycleEntry) (answer : EmbedOutcome) :
    SemanticFS :=
  let fs :=
    { fs with
      recycleBin := fs.recycleBin.erase cid
      tagIndex := updateTagIndex fs.tagIndex entry.originalMeta.tags cid }
  match fs.cas.get P.sha256 cid with
  | .ok obj => (fs.upsertSemanticIndex P cid obj.data obj.meta_ answer).1
  | .error _ => fs

theorem restore_eq_ok (h : fs.restore P cid now answer = .ok fs') :
    ∃ entry, fs.recycleBin.lookup cid = some entry ∧ fs' = (unbinned P fs cid entry answer).persistRecycleBin now := by
  obtain ⟨entry, hentry, h⟩ := of_seq h
  exact ⟨entry, required_eq_ok.mp hentry, (pure_ok_inj.mp h).symm⟩

/-! ## The storage -/

theorem stores_of_create (h : fs.create P content tags createdBy intent scope now queued answer = .ok (fs', cid)) :
    Stores P.sha256 fs.cas fs'.cas := by
  obtain ⟨cas, hput, rfl⟩ := create_eq_ok h
  split
  · exact stores_of_put hput
  · rw [upsertSemanticIndex_cas]
    exact stores_of_put hput

theorem stores_of_createWithEmbedding
    (h : fs.createWithEmbedding P content tags createdBy intent scope now embedding = .ok (fs', cid)) :
    Stores P.sha256 fs.cas fs'.cas := by
  obtain ⟨cas, hput, rfl⟩ := createWithEmbedding_eq_ok h
  rw [bm25Upsert_cas]
  exact stores_of_put hput

theorem stores_of_update
    (h : fs.update P oldCid newContent newTags now answer = .ok (fs', newCid)) : Stores P.sha256 fs.cas fs'.cas := by
  obtain ⟨oldObj, cas, -, hput, rfl⟩ := update_eq_ok h
  rw [upsertSemanticIndex_cas]
  exact stores_of_put hput

theorem delete_cas (h : fs.delete P cid now = .ok fs') : fs'.cas = fs.cas := by
  obtain ⟨obj, -, rfl⟩ := delete_eq_ok h
  rfl

theorem unbinned_cas {entry : RecycleEntry} : (unbinned P fs cid entry answer).cas = fs.cas := by
  unfold unbinned
  dsimp only
  split
  · exact upsertSemanticIndex_cas ..
  · rfl

theorem restore_cas (h : fs.restore P cid now answer = .ok fs') : fs'.cas = fs.cas := by
  obtain ⟨entry, -, rfl⟩ := restore_eq_ok h
  exact unbinned_cas

theorem stores_of_storeChunk (obj : AIObject) (agentId : String) (i : Nat) (text : String) (answer : EmbedOutcome) :
    Stores P.sha256 fs.cas (storeChunk P obj agentId fs i text answer).cas := by
  unfold storeChunk
  dsimp only
  split
  · exact .refl _
  · rename_i hput
    rw [upsertSemanticIndex_cas]
    exact stores_of_put hput

theorem stores_of_chunks (obj : AIObject) (agentId : String) (chunks : List ((String × EmbedOutcome) × Nat))
    (fs : SemanticFS) : Stores P.sha256 fs.cas
      (chunks.foldl (fun fs chunk => storeChunk P obj agentId fs chunk.2 chunk.1.1 chunk.1.2) fs).cas := by
  induction chunks generalizing fs with
  | nil => exact .refl _
  | cons chunk chunks ih => exact (stores_of_storeChunk ..).trans (ih _)

theorem stores_of_processDocument {agentId : String} {chunks : List (String × EmbedOutcome)} :
    Stores P.sha256 fs.cas (fs.processDocument P cid agentId answer chunks).cas := by
  unfold processDocument
  split
  · exact .refl _
  · rename_i obj _
    have h := stores_of_chunks (P := P) obj agentId chunks.zipIdx
      (fs.upsertSemanticIndex P cid obj.data obj.meta_ answer).1
    rwa [upsertSemanticIndex_cas] at h

@[simp] theorem persistSearchIndex_cas : fs.persistSearchIndex.cas = fs.cas := by
  unfold persistSearchIndex
  split <;> rfl

end SemanticFS

/-- A search changes nothing but the cache. -/
theorem SemanticFS.searchWithFilterInternal_fst (P : SearchPlatform) (env : SearchEnv) (fs : SemanticFS)
    (query : String) (limit : Nat) (filter : SearchFilter) (allowCache : Bool) (mono : Nat) :
    ∃ cache, (fs.searchWithFilterInternal P env query limit filter allowCache mono).1 =
      { fs with searchCache := cache } := by
  unfold searchWithFilterInternal
  split
  · exact ⟨_, rfl⟩
  · dsimp only
    split <;> exact ⟨_, rfl⟩

end Plico.Fs
