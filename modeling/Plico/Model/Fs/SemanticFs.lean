import Plico.Model.Fs.Context

/-!
# The semantic filesystem (fs/semantic_fs/mod.rs, fs/search/hnsw.rs)

The state of `SemanticFS` with the files it persists, and the operations that change it. The knowledge graph
and the embedding provider are other components: what the operations write to the graph is left out, and
the answers of the provider are inputs. The audit log and the snippets kept in the vector index, which nothing
here reads, are left out.
-/

namespace Plico.Fs

open Plico.Cas

/-! ## Errors -/

inductive ErrorKind where
  | notFound
  | invalidInput
  | invalidData
  | permissionDenied
  | interrupted
  deriving DecidableEq, Repr

/-- `std::io::Error`. -/
structure IoError where
  kind : ErrorKind
  message : String
  deriving DecidableEq, Repr

/-- `From<CASError> for io::Error`. -/
def casIoError (e : CASError) : IoError :=
  match e with
  | .notFound _ => ⟨.notFound, e.display⟩
  | .invalidCid _ => ⟨.invalidInput, e.display⟩
  | .integrityFailed _ | .putRefused _ => ⟨.invalidData, e.display⟩

/-- `map_err(|e| io::Error::new(ErrorKind::NotFound, e.to_string()))`. -/
def casNotFound (e : CASError) : IoError := ⟨.notFound, e.display⟩

/-! ## The vector index -/

/-- An `f32` by its bits. -/
abbrev F32 := BitVec 32

abbrev Embedding := List F32

/-- `v == 0.0`: zero of either sign. -/
def F32.isZero (v : F32) : Bool :=
  v == 0 || v == 0x80000000#32

structure SearchIndexMeta where
  tags : List String
  contentType : String
  createdAt : Nat
  ownerRole : String
  namespace_ : String
  scope : ObjectScope
  memoryType : Option MemoryType
  deriving DecidableEq, Repr

/-- The index metadata of an object. -/
def indexMeta (meta_ : AIObjectMeta) : SearchIndexMeta :=
  { tags := meta_.tags
    contentType := meta_.contentType.display
    createdAt := meta_.createdAt
    ownerRole := meta_.createdBy
    namespace_ := meta_.tenantId
    scope := meta_.scope
    memoryType := none }

structure HnswEntry where
  embedding : Embedding
  meta_ : SearchIndexMeta
  deriving DecidableEq, Repr

structure HnswBackend where
  dim : Nat
  entries : AList (fun _ : String => HnswEntry)

namespace HnswBackend

/-- Embeddings of another dimension and stub embeddings are not stored. -/
def upsert (index : HnswBackend) (cid : String) (embedding : Embedding) (meta_ : SearchIndexMeta) : HnswBackend :=
  if embedding.length ≠ index.dim ∨ embedding.all F32.isZero then index
  else { index with entries := index.entries.insert cid ⟨embedding, meta_⟩ }

def delete (index : HnswBackend) (cid : String) : HnswBackend :=
  { index with entries := index.entries.erase cid }

end HnswBackend

/-! ## The filesystem -/

structure RecycleEntry where
  cid : String
  deletedAt : Nat
  originalMeta : AIObjectMeta
  deriving DecidableEq, Repr

structure SearchResult where
  cid : String
  relevance : F32
  meta_ : AIObjectMeta
  snippet : String
  deriving DecidableEq, Repr

/-- A cached answer and the reading of the monotonic clock when it was stored. -/
structure SearchCacheEntry where
  key : String
  results : List SearchResult
  createdAt : Nat
  deriving DecidableEq, Repr

abbrev TagIndex := AList (fun _ : String => List String)

abbrev RecycleBin := AList (fun _ : String => RecycleEntry)

/-- `HashMap::retain`. -/
def RecycleBin.retain (bin : RecycleBin) (p : RecycleEntry → Bool) : RecycleBin :=
  ⟨bin.entries.filter fun entry => p entry.2, bin.nodupKeys.sublist List.filter_sublist⟩

/-- The state of the filesystem and its files: a file that is missing or cannot be read is `none`. The search
cache lists its entries from the most recently used one. -/
structure SemanticFS where
  cas : CASStorage
  tagIndex : TagIndex
  tagIndexFile : Option TagIndex
  recycleBin : RecycleBin
  recycleBinFile : Option RecycleBin
  ctxLoader : ContextLoader
  searchIndex : HnswBackend
  searchIndexFile : Option HnswBackend
  bm25Index : AList (fun _ : String => String)
  searchCache : List SearchCacheEntry

/-- `RECYCLE_BIN_TTL_MS`: thirty days. -/
def recycleBinTtlMs : Nat := 30 * 24 * 60 * 60 * 1000

/-! ## Tags -/

/-- Push the CID to the list of each tag. -/
def updateTagIndex (index : TagIndex) (tags : List String) (cid : String) : TagIndex :=
  tags.foldl (fun index tag => index.insert tag ((index.lookup tag).getD [] ++ [cid])) index

def removeFromTagIndex (index : TagIndex) (tags : List String) (cid : String) : TagIndex :=
  tags.foldl (fun index tag =>
    match index.lookup tag with
    | some cids => index.insert tag (cids.filter (· ≠ cid))
    | none => index) index

/-- The CIDs of the tags, each once, in the order of their first appearance. -/
def resolveTags (index : TagIndex) (tags : List String) : List String :=
  (tags.flatMap fun tag => (index.lookup tag).getD []).foldl
    (fun cids cid => if cid ∈ cids then cids else cids ++ [cid]) []

/-- `rebuild_tag_index` over the listing `cids` of the storage. -/
def rebuildTagIndex (P : FsPlatform) (cas : CASStorage) (bin : RecycleBin) (cids : List String) : TagIndex :=
  cids.foldl (fun index cid =>
    if (bin.lookup cid).isSome then index
    else
      match cas.getRaw P.sha256 cid with
      | .ok obj => updateTagIndex index obj.meta_.tags cid
      | .error _ => index) ∅

/-! ## Texts -/

/-- `str::trim`. -/
def trim (s : String) : String :=
  String.ofList ((s.toList.dropWhile isWhitespace).reverse.dropWhile isWhitespace).reverse

/-- The answer of the embedding provider for a document. -/
inductive EmbedOutcome where
  | embedded (embedding : Embedding)
  | tooLarge
  | failed
  deriving DecidableEq, Repr

namespace SemanticFS

variable (P : FsPlatform)
variable (fs : SemanticFS)

/-- `Bm25Index::upsert`, which ignores a blank text. -/
def bm25Upsert (cid text : String) : SemanticFS :=
  if isBlank text then fs else { fs with bm25Index := fs.bm25Index.insert cid (trim text) }

/-- Index an object: the keywords always, its vector when the provider gives one. The result says whether the
text was too large for the provider. -/
def upsertSemanticIndex (cid : String) (content : Bytes) (meta_ : AIObjectMeta)
    (answer : EmbedOutcome) : SemanticFS × Bool :=
  let text := P.fromUtf8Lossy content
  let fs := fs.bm25Upsert cid text
  -- The provider is asked for the first 6000 characters of a text of more than 6000 bytes.
  let embedText := if (utf8 text).length > 6000 then String.ofList (text.toList.take 6000) else text
  if isBlank embedText then (fs, false)
  else
    match answer with
    | .embedded embedding =>
      ({ fs with searchIndex := fs.searchIndex.upsert cid embedding (indexMeta meta_) }, false)
    | .tooLarge => (fs, true)
    -- The zero vector that stands for a failed embedding is a stub, which the index does not store.
    | .failed => (fs, false)

/-! ## Operations -/

/-- Create an object. With `queued` the cognitive pipeline took the document and indexes it later
(`processDocument`); otherwise it is indexed here. -/
def create (content : Bytes) (tags : List String) (createdBy : String) (intent : Option String)
    (scope : ObjectScope) (now : Nat) (queued : Bool) (answer : EmbedOutcome) :
    Except IoError (SemanticFS × String) := do
  let meta_ : AIObjectMeta :=
    { contentType := if (P.fromUtf8 content).isSome then .text else .unknown
      tags
      createdBy
      createdAt := now
      intent
      tenantId := defaultTenant
      scope }
  let obj := AIObject.new P.sha256 content meta_
  let (cas, cid) ← (fs.cas.put P.sha256 obj).mapError casIoError
  let fs := { fs with cas, tagIndex := updateTagIndex fs.tagIndex tags cid }
  pure (if queued then fs else (fs.upsertSemanticIndex P cid content meta_ answer).1, cid)

/-- Create an object with an embedding that was computed before. -/
def createWithEmbedding (content : Bytes) (tags : List String) (createdBy : String)
    (intent : Option String) (scope : ObjectScope) (now : Nat) (embedding : Embedding) :
    Except IoError (SemanticFS × String) := do
  let meta_ : AIObjectMeta :=
    { contentType := if (P.fromUtf8 content).isSome then .text else .unknown
      tags
      createdBy
      createdAt := now
      intent
      tenantId := defaultTenant
      scope }
  let obj := AIObject.new P.sha256 content meta_
  let (cas, cid) ← (fs.cas.put P.sha256 obj).mapError casIoError
  let fs :=
    { fs with
      cas
      tagIndex := updateTagIndex fs.tagIndex tags cid
      searchIndex := fs.searchIndex.upsert cid embedding (indexMeta meta_) }
  pure (fs.bm25Upsert cid (P.fromUtf8Lossy content), cid)

/-- The metadata of the chunk with index `i` of an object. -/
def chunkMeta (obj : AIObject) (agentId : String) (i : Nat) : AIObjectMeta :=
  { contentType := .text
    tags := obj.meta_.tags ++
      ["parent_cid:" ++ obj.cid, "chunk_idx:" ++ toString i, "is_chunk:true"]
    createdBy := agentId
    createdAt := obj.meta_.createdAt
    intent := none
    tenantId := obj.meta_.tenantId
    scope := obj.meta_.scope }

/-- Store and index one chunk. -/
def storeChunk (obj : AIObject) (agentId : String) (fs : SemanticFS) (i : Nat) (text : String)
    (answer : EmbedOutcome) : SemanticFS :=
  let child := AIObject.new P.sha256 (utf8 text) (chunkMeta obj agentId i)
  match fs.cas.put P.sha256 child with
  | .error _ => fs
  | .ok (cas, cid) =>
    let fs := { fs with cas, tagIndex := updateTagIndex fs.tagIndex child.meta_.tags cid }
    (fs.upsertSemanticIndex P cid child.data child.meta_ answer).1

/-- The background task of `create`: index the stored object and its chunks, each with the provider's answer.
`chunks` is empty when chunking is off. -/
def processDocument (cid agentId : String) (answer : EmbedOutcome)
    (chunks : List (String × EmbedOutcome)) : SemanticFS :=
  match fs.cas.get P.sha256 cid with
  | .error _ => fs
  | .ok obj =>
    let (fs, _) := fs.upsertSemanticIndex P cid obj.data obj.meta_ answer
    chunks.zipIdx.foldl (fun fs chunk => storeChunk P obj agentId fs chunk.2 chunk.1.1 chunk.1.2) fs

/-- Drop the entries that are thirty days old and write the bin to its file. -/
def persistRecycleBin (now : Nat) : SemanticFS :=
  let bin := fs.recycleBin.retain fun entry => now - entry.deletedAt < recycleBinTtlMs
  { fs with recycleBin := bin, recycleBinFile := some bin }

def update (oldCid : String) (newContent : Bytes) (newTags : Option (List String)) (now : Nat)
    (answer : EmbedOutcome) : Except IoError (SemanticFS × String) := do
  let oldObj ← (fs.cas.get P.sha256 oldCid).mapError casNotFound
  let finalTags := newTags.getD oldObj.meta_.tags
  let newMeta := { oldObj.meta_ with tags := finalTags, createdAt := now }
  let newObj := AIObject.new P.sha256 newContent newMeta
  let (cas, newCid) ← (fs.cas.put P.sha256 newObj).mapError casIoError
  let fs :=
    { fs with
      cas
      tagIndex := updateTagIndex (removeFromTagIndex fs.tagIndex oldObj.meta_.tags oldCid) finalTags newCid
      searchIndex := fs.searchIndex.delete oldCid }
  pure ((fs.upsertSemanticIndex P newCid newContent newMeta answer).1, newCid)

def delete (fs : SemanticFS) (cid : String) (now : Nat) : Except IoError SemanticFS := do
  let obj ← (fs.cas.get P.sha256 cid).mapError casIoError
  let fs :=
    { fs with
      recycleBin := fs.recycleBin.insert cid ⟨cid, now, obj.meta_⟩
      searchIndex := fs.searchIndex.delete cid
      bm25Index := fs.bm25Index.erase cid
      tagIndex := removeFromTagIndex fs.tagIndex obj.meta_.tags cid }
  pure (fs.persistRecycleBin now)

/-- The bin, the latest deletion first. -/
def listDeleted : List RecycleEntry :=
  (fs.recycleBin.entries.map (·.2)).mergeSort fun a b => b.deletedAt ≤ a.deletedAt

def restore (cid : String) (now : Nat) (answer : EmbedOutcome) : Except IoError SemanticFS := do
  let entry ← required (fs.recycleBin.lookup cid) ⟨.notFound, "CID not in recycle bin: " ++ cid⟩
  let fs :=
    { fs with
      recycleBin := fs.recycleBin.erase cid
      tagIndex := updateTagIndex fs.tagIndex entry.originalMeta.tags cid }
  let fs := match fs.cas.get P.sha256 cid with
    | .ok obj => (fs.upsertSemanticIndex P cid obj.data obj.meta_ answer).1
    | .error _ => fs
  pure (fs.persistRecycleBin now)

/-! ## Persistence and restart -/

def flushTagIndex : SemanticFS :=
  { fs with tagIndexFile := some fs.tagIndex }

/-- `HnswBackend::persist_to`: an empty index leaves the file as it is. -/
def persistSearchIndex : SemanticFS :=
  if fs.searchIndex.entries.entries.isEmpty then fs
  else { fs with searchIndexFile := some fs.searchIndex }

/-- The text an object is indexed by at a restart. -/
def indexedText (obj : AIObject) : Option String :=
  if obj.meta_.contentType.isMultimedia then none
  else ((P.fromUtf8 obj.data).map trim).filter fun text => !text.isEmpty

/-- The objects that are indexed at a restart: those of the listing that are not in the bin and have a text. -/
def rebuildEntries (cids : List String) : List (String × String × AIObjectMeta) :=
  cids.filterMap fun cid =>
    if (fs.recycleBin.lookup cid).isSome then none
    else
      match fs.cas.getRaw P.sha256 cid with
      | .error _ => none
      | .ok obj => (indexedText P obj).map fun text => (cid, text, obj.meta_)

/-- Add the vectors batch by batch; a failed batch ends the loop. -/
def rebuildBatches (embedBatch : List String → Option (List Embedding)) (index : HnswBackend) :
    List (List (String × String × AIObjectMeta)) → HnswBackend
  | [] => index
  | chunk :: chunks =>
    match embedBatch (chunk.map (·.2.1)) with
    | none => index
    | some results =>
      rebuildBatches embedBatch ((chunk.zip results).foldl (fun index entry =>
        index.upsert entry.1.1 entry.2 (indexMeta entry.1.2.2)) index) chunks

def rebuildVectorIndex (cids : List String) (embedBatch : List String → Option (List Embedding)) : SemanticFS :=
  let entries := fs.rebuildEntries P cids
  { fs with
    bm25Index := entries.foldl (fun bm25 entry => bm25.insert entry.1 entry.2.1) fs.bm25Index
    searchIndex := rebuildBatches embedBatch fs.searchIndex (entries.toChunks 256) }

/-- `HnswBackend::with_dim` followed by `restore_from`: a file of another dimension is refused. -/
def restoredIndex (dim : Nat) (file : Option HnswBackend) : HnswBackend :=
  match file with
  | some index => if index.dim = dim then index else ⟨dim, ∅⟩
  | none => ⟨dim, ∅⟩

/-- A restart over the listing `cids` of the storage: everything held in memory is read or rebuilt from the files. -/
def restart (cids : List String) (embedBatch : List String → Option (List Embedding)) : SemanticFS :=
  let bin := fs.recycleBinFile.getD ∅
  SemanticFS.rebuildVectorIndex P
    { fs with
      recycleBin := bin
      tagIndex := fs.tagIndexFile.getD (rebuildTagIndex P fs.cas bin cids)
      ctxLoader := { fs.ctxLoader with l0Cache := ∅ }
      searchIndex := restoredIndex fs.searchIndex.dim fs.searchIndexFile
      bm25Index := ∅
      searchCache := [] } cids embedBatch

end SemanticFS

end Plico.Fs
