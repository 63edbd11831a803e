import Mathlib.Data.List.Infix
import Plico.Model.Fs.SemanticFs

/-!
# Search (fs/semantic_fs/mod.rs, fs/search/mod.rs, fs/search/hnsw.rs)

`searchWithFilterInternal` with its retrieval paths. The rankings of the vector library and of the keyword
library, the knowledge graph, the embedding provider and the reranker answer from outside (`SearchEnv`);
what the filesystem does with their answers is modelled. Scores are `f32` values given by their bits, and the
arithmetic on them is the platform's.
-/

namespace Plico.Fs

open Plico.Cas

/-- `f32` arithmetic. `cosine` is `cosine_similarity`. -/
structure F32Ops where
  add : F32 → F32 → F32
  sub : F32 → F32 → F32
  mul : F32 → F32 → F32
  div : F32 → F32 → F32
  ofNat : Nat → F32
  lt : F32 → F32 → Bool
  cosine : Embedding → Embedding → F32

structure SearchPlatform extends FsPlatform where
  f32 : F32Ops
  charLowercase : Char → List Char
  isAlphanumeric : Char → Bool
  isUppercase : Char → Bool

/-! ## Filters -/

structure SearchAccess where
  roleId : String
  namespace_ : String
  canReadAny : Bool
  deriving DecidableEq, Repr

structure SearchFilter where
  requireTags : List String
  excludeTags : List String
  contentType : Option String
  since : Option Int
  until_ : Option Int
  memoryType : Option MemoryType
  access : Option SearchAccess
  deriving DecidableEq, Repr

/-- `created_at as i64`. -/
def asI64 (n : Nat) : Int := (BitVec.ofNat 64 n).toInt

/-- The access constraint admits the entry. -/
def SearchAccess.admits (access : SearchAccess) (meta_ : SearchIndexMeta) : Bool :=
  meta_.namespace_ == access.namespace_ &&
    (access.canReadAny || meta_.scope != .private_ || meta_.ownerRole == access.roleId)

namespace SearchFilter

def default : SearchFilter := ⟨[], [], none, none, none, none, none⟩

variable (filter : SearchFilter)

def isMatch (meta_ : SearchIndexMeta) : Bool :=
  filter.access.all (·.admits meta_) &&
    filter.requireTags.all meta_.tags.contains &&
    !filter.excludeTags.any meta_.tags.contains &&
    filter.contentType.all (meta_.contentType == ·) &&
    filter.since.all (· ≤ asI64 meta_.createdAt) &&
    filter.until_.all (asI64 meta_.createdAt ≤ ·) &&
    filter.memoryType.all fun type => meta_.memoryType == some type

def withAccess (roleId namespace_ : String) (canReadAny : Bool) : SearchFilter :=
  { filter with access := some ⟨roleId, namespace_, canReadAny⟩ }

def isCacheNeutral : Bool :=
  filter.requireTags.isEmpty && filter.excludeTags.isEmpty && filter.contentType.isNone && filter.since.isNone &&
    filter.until_.isNone && filter.memoryType.isNone && filter.access.isNone

/-- `has_filter` of the vector index, which asks neither for the access constraint nor for the memory type. -/
def hasFilter : Bool :=
  !filter.requireTags.isEmpty || !filter.excludeTags.isEmpty || filter.contentType.isSome || filter.since.isSome ||
    filter.until_.isSome

end SearchFilter

/-! ## Diagnostics -/

inductive SearchPath where
  | bm25
  | vector
  | tagFallback
  | knowledgeGraphTemporal
  | knowledgeGraphPpr
  | knowledgeGraphPathDiscovery
  | knowledgeGraphCausal
  | reranker
  deriving DecidableEq, Repr

/-- The only degradation of a stage is that its execution failed. -/
structure SearchPathExecution where
  path : SearchPath
  candidates : Nat
  accepted : Nat
  failed : Bool
  deriving DecidableEq, Repr

inductive EmbeddingDegradation where
  | providerUnavailable
  | modelUnavailable
  | inputRejected
  | executionFailed
  deriving DecidableEq, Repr

inductive EmbeddingQueryState where
  | notProbed (provider : String)
  | succeeded (provider : String)
  | degraded (provider : String) (reason : EmbeddingDegradation)
  deriving DecidableEq, Repr

structure SearchExecution where
  paths : List SearchPathExecution
  embedding : EmbeddingQueryState
  deriving DecidableEq, Repr

namespace SearchExecution

def recordPath (execution : SearchExecution) (path : SearchPath) (candidates accepted : Nat) : SearchExecution :=
  if execution.paths.any fun entry => entry.path == path then
    { execution with paths := execution.paths.map fun entry =>
        if entry.path = path then
          { entry with candidates := entry.candidates + candidates, accepted := entry.accepted + accepted }
        else entry }
  else { execution with paths := execution.paths ++ [⟨path, candidates, accepted, false⟩] }

def recordDegradation (execution : SearchExecution) (path : SearchPath) : SearchExecution :=
  if execution.paths.any fun entry => entry.path == path then
    { execution with paths := execution.paths.map fun entry =>
        if entry.path = path then { entry with failed := true } else entry }
  else { execution with paths := execution.paths ++ [⟨path, 0, 0, true⟩] }

end SearchExecution

structure DiagnosedSearch where
  results : List SearchResult
  execution : SearchExecution
  deriving DecidableEq, Repr

/-! ## What answers from outside -/

structure EventNode where
  label : String
  active : Bool
  createdAt : Nat
  contentCid : Option String
  follows : List (Option String)

structure PathNode where
  contentCid : Option String
  cids : List String

/-- The answers of the knowledge graph: an error is `none`. -/
structure SearchGraph where
  events : Option (List EventNode)
  allNodeIds : List String
  pagerank : List String → Option (List (String × F32))
  nodeCids : String → List String
  nodesByCid : String → List String
  weightedPath : String → String → Option (List PathNode)
  causes : String → List String

structure SearchEnv where
  provider : String
  embedQuery : Except EmbeddingDegradation Embedding
  /-- The ranking of the vector library: entries with their distance. -/
  neighbours : List (String × F32)
  /-- The ranking of the keyword library for a query: documents with their normalized score. -/
  bm25 : String → List (String × F32)
  graph : Option SearchGraph
  reranker : Option (List (String × String) → Option (List (String × F32)))
  rrfK : F32
  rrfOverride : Option (F32 × F32)

/-! ## The vector index -/

structure SearchHit where
  cid : String
  score : F32
  meta_ : SearchIndexMeta
  deriving DecidableEq, Repr

/-- `sort_by(|a, b| b.partial_cmp(a))`: the highest score first, and stable. -/
def sortByScore {α : Type} (ops : F32Ops) (score : α → F32) (l : List α) : List α :=
  l.mergeSort fun a b => !ops.lt (score a) (score b)

/-- The sign bits that `f32_to_binary` packs: `v > 0.0`. -/
def signBits (embedding : Embedding) : List Bool :=
  embedding.map fun v => !v.getMsbD 0 && !F32.isZero v

def hammingDistance (a b : List Bool) : Nat :=
  ((a.zip b).filter fun p => p.1 != p.2).length

/-- The entries a search may return: all of them, unless the filter has one of the criteria of `hasFilter`. -/
def HnswBackend.admits (filter : SearchFilter) (entry : HnswEntry) : Bool :=
  !filter.hasFilter || filter.isMatch entry.meta_

def HnswBackend.search (ops : F32Ops) (neighbours : List (String × F32)) (index : HnswBackend) (query : Embedding)
    (k : Nat) (filter : SearchFilter) : List SearchHit :=
  if query.length ≠ index.dim then []
  else if 1000 ≤ index.entries.entries.length then
    -- Coarse recall by the Hamming distance of the sign bits, then exact re-ranking.
    let admitted := index.entries.entries.filter fun entry => admits filter entry.2
    let near := (admitted.mergeSort fun a b =>
      hammingDistance (signBits query) (signBits a.2.embedding) ≤
        hammingDistance (signBits query) (signBits b.2.embedding)).take (k * 10)
    (sortByScore ops SearchHit.score (near.map fun entry =>
      ⟨entry.1, ops.cosine query entry.2.embedding, entry.2.meta_⟩)).take k
  else
    -- The library's answer: the nearest entries among those the predicate admits.
    (neighbours.filterMap fun (cid, distance) =>
      match index.entries.lookup cid with
      | none => none
      | some entry =>
        if admits filter entry then some ⟨cid, ops.sub 0x3f800000#32 distance, entry.meta_⟩ else none).take k

/-! ## Texts -/

/-- `haystack.contains(needle)`. -/
def strContains (haystack needle : String) : Bool :=
  decide (needle.toList <:+: haystack.toList)

def temporalKeywords : List String :=
  ["after", "before", "when", "then", "during", "since", "until", "first", "last", "next", "previous", "recent",
    "latest", "earliest", "sequence", "timeline", "order", "chronolog", "之后", "之前", "什么时候", "然后", "期间", "自从",
    "直到", "第一次", "最后", "最近", "最早", "顺序", "时间线", "先后"]

def multiKeywords : List String :=
  ["why", "how", "because", "cause", "reason", "connect", "link", "relate", "and then", "after that", "before that",
    "led to", "resulted in", "what happened", "what caused", "what led", "what connects", "relationship", "between",
    "among", "influence", "impact", "为什么", "怎么", "因为", "原因", "连接", "关系", "导致", "影响", "之间", "之间有什么",
    "什么导致", "什么引起"]

def isTemporalQuery (P : SearchPlatform) (query : String) : Bool :=
  temporalKeywords.any (strContains (P.toLowercase query))

def isMultihopQuery (P : SearchPlatform) (query : String) : Bool :=
  multiKeywords.any (strContains (P.toLowercase query))

/-- Some window of the haystack is the needle, character by character in lower case. -/
def caseInsensitiveContains (P : SearchPlatform) (haystack needleLower : String) : Bool :=
  let needle := needleLower.toList
  haystack.toList.tails.any fun tail =>
    needle.length ≤ tail.length && (tail.zip needle).all fun p => P.charLowercase p.1 == [p.2]

def maxSnippetLen : Nat := 1024

def snippetOf (P : SearchPlatform) (n : Nat) (obj : AIObject) : String :=
  P.fromUtf8Lossy (obj.data.take n)

def isChunk (tags : List String) : Bool :=
  tags.contains "is_chunk:true"

/-- The CID that the first `parent_cid:` tag names. -/
def parentCid (tags : List String) : Option String :=
  (tags.find? fun tag => "parent_cid:".toList.isPrefixOf tag.toList).map fun tag =>
    String.ofList (tag.toList.drop 11)

namespace SemanticFS

variable (P : SearchPlatform) (env : SearchEnv)

/-! ## Paths -/

variable (fs : SemanticFS)

/-- The stored object passes the filter. -/
def accepts (filter : SearchFilter) (cid : String) : Bool :=
  match fs.cas.getRaw P.sha256 cid with
  | .ok obj => filter.isMatch (indexMeta obj.meta_)
  | .error _ => false

/-- The result for a stored object, with the metadata and the text that are stored. -/
def resultOf (cid : String) (relevance : F32) : Option SearchResult :=
  match fs.cas.get P.sha256 cid with
  | .ok obj => some ⟨cid, relevance, obj.meta_, snippetOf P maxSnippetLen obj⟩
  | .error _ => none

/-- `filter_map` of a candidate to its result, when the stored object passes the filter. -/
def acceptedResult (filter : SearchFilter) (cid : String) (relevance : F32) : Option SearchResult :=
  (fs.resultOf P cid relevance).filter fun result => filter.isMatch (indexMeta result.meta_)

/-- The events whose label meets the query, oldest first. -/
def relevantEvents (query : String) (events : List EventNode) : List EventNode :=
  let queryLower := P.toLowercase query
  (events.filter fun event =>
    let label := P.toLowercase event.label
    event.active &&
      (strContains label queryLower || strContains queryLower label ||
        (splitWhitespace query).any fun word => strContains label (P.toLowercase word))).mergeSort
    fun a b => a.createdAt ≤ b.createdAt

/-- The documents of the events and of the events that follow them, each once. -/
def temporalCids (events : List EventNode) : List String :=
  (events.flatMap fun event => event.contentCid.toList ++ event.follows.filterMap id).foldl
    (fun cids cid => if cid ∈ cids then cids else cids ++ [cid]) []

variable (graph : SearchGraph) (query : String) (limit : Nat) (filter : SearchFilter)

/-- `search_temporal_via_kg`: the results and the number of candidates. -/
def searchTemporalViaKg : List SearchResult × Nat :=
  match graph.events with
  | none => ([], 0)
  | some events =>
    let cids := temporalCids (relevantEvents P query events)
    let results := (cids.filterMap fun cid => fs.acceptedResult P filter cid 0x3f800000#32).take limit
    (results.mapIdx fun i result =>
      { result with relevance := P.f32.sub 0x3f800000#32 (P.f32.mul (P.f32.ofNat i) 0x3d4ccccd#32) }, cids.length)

/-- The seeds of the personalized ranking: the first five nodes whose id has a word of the query. -/
def seedNodes : List String :=
  let words := ((splitWhitespace query).filter fun word => (utf8 word).length > 2).map P.toLowercase
  (graph.allNodeIds.filter fun id => words.any (strContains (P.toLowercase id))).take 5

/-- `ppr_boost`: the score of each document of a ranked node. The flag says that the ranking failed. -/
def pprBoost : AList (fun _ : String => F32) × Bool :=
  let seeds := seedNodes P graph query
  if seeds.isEmpty then (∅, false)
  else
    match graph.pagerank seeds with
    | none => (∅, true)
    | some ranked =>
      ((ranked.flatMap fun node => (graph.nodeCids node.1).map (·, node.2)).foldl
        (fun boost entry => boost.insert entry.1 entry.2) ∅, false)

/-- `vector_hits`: one hit for each CID. -/
def vectorHits : AList (fun _ : String => SearchHit) :=
  match env.embedQuery with
  | .error _ => ∅
  | .ok query =>
    (fs.searchIndex.search P.f32 env.neighbours query (limit * 10) filter).foldl
      (fun hits hit => hits.insert hit.cid hit) ∅

/-- `Bm25Index::search`: documents of the index, the best first. -/
def bm25Search : List (String × F32) :=
  if isBlank query then []
  else ((env.bm25 query).filter fun hit => (fs.bm25Index.lookup hit.1).isSome).take limit

/-! ## Scores -/

abbrev Scores := AList (fun _ : String => F32)

def rrfWeights : F32 × F32 :=
  match env.rrfOverride with
  | some weights => weights
  | none =>
    let tokens := (splitWhitespace query).length
    if tokens ≤ 3 then (0x3fc00000#32, 0x3f4ccccd#32)
    else if 8 ≤ tokens then (0x3f4ccccd#32, 0x3fc00000#32)
    else
      let t := P.f32.div (P.f32.sub (P.f32.ofNat tokens) 0x40400000#32) 0x40a00000#32
      (P.f32.sub 0x3fc00000#32 (P.f32.mul 0x3f333333#32 t), P.f32.add 0x3f4ccccd#32 (P.f32.mul 0x3f333333#32 t))

/-- `weight / (rrf_k + rank)`, more for a chunk. -/
def rrf (weight : F32) (rank : Nat) (chunk : Bool) : F32 :=
  let score := P.f32.div weight (P.f32.add env.rrfK (P.f32.ofNat rank))
  if chunk then P.f32.add score 0x3e4ccccd#32 else score

/-- Add to the score of a CID, which is zero when it has none yet. -/
def boost (scores : Scores) (cid : String) (amount : F32) : Scores :=
  match scores.lookup cid with
  | some score => scores.insert cid (P.f32.add score amount)
  | none => scores.insert cid amount

def storedChunk (cid : String) : Bool :=
  match fs.cas.getRaw P.sha256 cid with
  | .ok obj => isChunk obj.meta_.tags
  | .error _ => false

def vectorScores (hits : AList (fun _ : String => SearchHit)) : Scores :=
  ((sortByScore P.f32 SearchHit.score (hits.entries.map (·.2))).zipIdx).foldl (fun scores (hit, rank) =>
    scores.insert hit.cid (rrf P env (rrfWeights P env query).2 rank (isChunk hit.meta_.tags))) ∅

def addBm25Scores (hits : AList (fun _ : String => SearchHit))
    (bm25Hits : List (String × F32)) (scores : Scores) : Scores :=
  bm25Hits.zipIdx.foldl (fun scores (hit, rank) =>
    let chunk := match hits.lookup hit.1 with
      | some vectorHit => isChunk vectorHit.meta_.tags
      | none => fs.storedChunk P hit.1
    boost P scores hit.1 (rrf P env (rrfWeights P env query).1 rank chunk)) scores

def addPprScores (ppr : AList (fun _ : String => F32)) (scores : Scores) : Scores :=
  ppr.entries.foldl (fun scores entry =>
    if fs.accepts P filter entry.1 then
      let amount := P.f32.mul entry.2 0x3f000000#32
      boost P scores entry.1 (if fs.storedChunk P entry.1 then P.f32.add amount 0x3d4ccccd#32 else amount)
    else scores) scores

/-- The five best candidates, then the nodes they belong to. -/
def pathSeeds (scores : Scores) : List String :=
  (((sortByScore P.f32 Sigma.snd scores.entries).take 5).flatMap fun entry => graph.nodesByCid entry.1).foldl
    (fun seeds node => if node ∈ seeds then seeds else seeds ++ [node]) []

/-- The pairs of seeds `(i, j)` with `i < j`, row by row. -/
def seedPairs : List String → List (String × String)
  | [] => []
  | seed :: seeds => seeds.map (seed, ·) ++ seedPairs seeds

/-- `discover_and_inject_paths`: the documents on the paths between six pairs of seeds that have no score yet, with
their boost, the largest first. -/
def discoverPaths (scores : Scores) : List (String × F32) :=
  let seeds := pathSeeds P graph scores
  if seeds.length < 2 then []
  else
    let nodes := ((seedPairs seeds).take 6).flatMap fun pair => (graph.weightedPath pair.1 pair.2).getD []
    let boosts := (nodes.flatMap fun node =>
      node.contentCid.toList.map (·, 0x3e19999a#32) ++ node.cids.map (·, 0x3dcccccd#32)).filter fun entry =>
        (scores.lookup entry.1).isNone
    let merged : Scores := boosts.foldl (fun merged entry =>
      match merged.lookup entry.1 with
      | some current => merged.insert entry.1 (if P.f32.lt current entry.2 then entry.2 else current)
      | none => merged.insert entry.1 entry.2) ∅
    (sortByScore P.f32 Sigma.snd merged.entries).map fun entry => (entry.1, entry.2)

/-- Inject the accepted documents of the paths, `limit` of them at most: the scores and how many were accepted. -/
def addPathScores (limit : Nat) (paths : List (String × F32)) (scores : Scores) : Scores × Nat :=
  let accepted := (paths.filter fun entry => fs.accepts P filter entry.1).take limit
  (accepted.foldl (fun scores entry => boost P scores entry.1 entry.2) scores, accepted.length)

/-- Boost candidates that cause each other: the scores, the candidates and the accepted ones. -/
def addCausalScores (scores : Scores) : Scores × Nat × Nat :=
  let top := (sortByScore P.f32 Sigma.snd scores.entries).map Sigma.fst
  let pairs := top.flatMap fun cid => (graph.causes cid).map (cid, ·)
  let accepted := pairs.filter fun pair => top.contains pair.2
  (accepted.foldl (fun scores pair =>
    boost P (boost P scores pair.1 0x3dcccccd#32) pair.2 0x3dcccccd#32) scores, pairs.length, accepted.length)

/-! ## After ranking -/

/-- `resolve_parent_chunks`: a chunk stands for its parent, which appears once. -/
def resolveParentChunks (fs : SemanticFS) (seenParents : List String) : List SearchResult → List SearchResult
  | [] => []
  | r :: results =>
    match parentCid r.meta_.tags with
    | none => r :: resolveParentChunks fs seenParents results
    | some parent =>
      if parent ∈ seenParents then resolveParentChunks fs seenParents results
      else
        match fs.cas.get P.sha256 parent with
        | .ok obj =>
          ⟨parent, r.relevance, obj.meta_, snippetOf P 500 obj⟩ ::
            resolveParentChunks fs (parent :: seenParents) results
        | .error _ => r :: resolveParentChunks fs (parent :: seenParents) results

/-- `trim_matches(|c| !c.is_alphanumeric())`. -/
def trimWord (word : String) : String :=
  let strip := List.dropWhile fun c => !P.isAlphanumeric c
  String.ofList (strip (strip word.toList).reverse).reverse

/-- The terms of one result: its capitalised words, then its tags. -/
def resultTerms (result : SearchResult) : List String :=
  ((splitWhitespace result.snippet).map (trimWord P)).filter (fun word =>
    3 ≤ (utf8 word).length && word.toList.head?.any P.isUppercase) ++
  result.meta_.tags.filter fun tag =>
    !("is_".toList.isPrefixOf tag.toList || "parent_cid:".toList.isPrefixOf tag.toList ||
      "chunk_idx:".toList.isPrefixOf tag.toList)

def keyTerms (firstPass : List SearchResult) : List String :=
  (((firstPass.take 5).flatMap (resultTerms P)).foldl
    (fun terms term => if term ∈ terms then terms else terms ++ [term]) []).take 10

/-- Append the accepted documents that are new, until there are twice as many results as asked for. -/
def mergeHits (fs : SemanticFS) (filter : SearchFilter) (limit : Nat) (merged : List SearchResult) :
    List (String × F32) → List SearchResult
  | [] => merged
  | (cid, score) :: hits =>
    if merged.any fun r => r.cid == cid then mergeHits fs filter limit merged hits
    else if limit * 2 ≤ merged.length then merged
    else
      match fs.acceptedResult P filter cid (P.f32.mul score 0x3f000000#32) with
      | some result => mergeHits fs filter limit (merged ++ [result]) hits
      | none => mergeHits fs filter limit merged hits

def iterativeRetrieve (firstPass : List SearchResult) (limit : Nat) (filter : SearchFilter) : List SearchResult :=
  let terms := keyTerms P firstPass
  if terms.isEmpty then firstPass
  else fs.mergeHits P filter limit firstPass (fs.bm25Search env (" ".intercalate terms) limit)

/-- The loop of the tag fallback: fifty results at most. -/
def tagFallbackLoop (fs : SemanticFS) (filter : SearchFilter) (results : List SearchResult) (candidates : Nat) :
    List String → List SearchResult × Nat
  | [] => (results, candidates)
  | cid :: cids =>
    if 50 ≤ results.length then (results, candidates)
    else
      match fs.acceptedResult P filter cid 0x3f4ccccd#32 with
      | some result => tagFallbackLoop fs filter (results ++ [result]) (candidates + 1) cids
      | none => tagFallbackLoop fs filter results (candidates + 1) cids

def searchByTagsWithFilter : List SearchResult × Nat :=
  fs.tagFallbackLoop P filter [] 0 ((fs.tagIndex.entries.filter fun entry =>
    caseInsensitiveContains P entry.1 (P.toLowercase query)).flatMap Sigma.snd)

/-! ## The search -/

/-- The candidates given to the reranker, with the start of their text. -/
def rerankCandidates (sorted : List (String × F32)) : List (String × String) :=
  (sorted.take (limit * 3)).filterMap fun entry =>
    (fs.cas.get P.sha256 entry.1).toOption.map fun obj => (entry.1, snippetOf P 512 obj)

/-- What follows the ranking: reranking, or the best `limit` candidates, their parents and a second retrieval. The
flag says whether the answer is stored in the cache. -/
def finishSearch (sorted : List (String × F32)) (execution : SearchExecution) : DiagnosedSearch × Bool :=
  let candidates := fs.rerankCandidates P limit sorted
  match env.reranker.map fun rerank => rerank candidates with
  | some (some reranked) =>
    let results := (reranked.take limit).filterMap fun r => fs.acceptedResult P filter r.1 r.2
    (⟨results, execution.recordPath .reranker candidates.length results.length⟩, false)
  | unranked =>
    let execution := match unranked with
      | some none => (execution.recordPath .reranker candidates.length 0).recordDegradation .reranker
      | _ => execution
    let results := (sorted.take limit).filterMap fun entry => fs.resultOf P entry.1 entry.2
    let resolved := fs.resolveParentChunks P [] results
    if (isMultihopQuery P query || isTemporalQuery P query) && resolved.length < limit then
      let expanded := fs.iterativeRetrieve P env resolved limit filter
      if resolved.length < expanded.length then
        let added := expanded.length - resolved.length
        (⟨expanded, execution.recordPath .bm25 added added⟩, true)
      else (⟨resolved, execution⟩, true)
    else (⟨resolved, execution⟩, true)

/-- Combine the scores of the paths. -/
def rankCandidates
    (hits : AList (fun _ : String => SearchHit)) (bm25Candidates : Nat) (bm25Hits : List (String × F32))
    (ppr : AList (fun _ : String => F32)) (execution : SearchExecution) : List (String × F32) × SearchExecution :=
  let scores := fs.addBm25Scores P env query hits bm25Hits (vectorScores P env query hits)
  let execution := execution.recordPath .bm25 bm25Candidates bm25Hits.length
  let scores := fs.addPprScores P filter ppr scores
  let execution := if ppr.entries.isEmpty then execution
    else execution.recordPath .knowledgeGraphPpr ppr.entries.length
      (ppr.keys.filter fun cid => fs.accepts P filter cid).length
  let (scores, execution) := match env.graph with
    | none => (scores, execution)
    | some graph =>
      let (scores, execution) :=
        if isMultihopQuery P query || isTemporalQuery P query then
          let paths := discoverPaths P graph scores
          let (scores, accepted) := fs.addPathScores P filter limit paths scores
          (scores, if paths.isEmpty then execution
            else execution.recordPath .knowledgeGraphPathDiscovery paths.length accepted)
        else (scores, execution)
      let (scores, candidates, accepted) := addCausalScores P graph scores
      (scores, if candidates = 0 then execution
        else execution.recordPath .knowledgeGraphCausal candidates accepted)
  ((sortByScore P.f32 Sigma.snd scores.entries).map fun entry => (entry.1, entry.2), execution)

/-- Hybrid search: vectors and keywords with the graph's boosts, or the tags when both find nothing. -/
def searchHybrid (execution : SearchExecution) : DiagnosedSearch × Bool :=
  let (ppr, pprFailed) :=
    if isMultihopQuery P query || isTemporalQuery P query then
      (env.graph.map fun graph => pprBoost P graph query).getD (∅, false)
    else (∅, false)
  let execution := if pprFailed then execution.recordDegradation .knowledgeGraphPpr else execution
  let hits := fs.vectorHits P env limit filter
  let execution := match env.embedQuery with
    | .ok _ => { execution with embedding := .succeeded env.provider }.recordPath .vector hits.entries.length
        hits.entries.length
    | .error reason => { execution with embedding := .degraded env.provider reason }
  let bm25Raw := fs.bm25Search env query fs.bm25Index.entries.length
  let bm25Hits := bm25Raw.filter fun hit => fs.accepts P filter hit.1
  if hits.entries.isEmpty && bm25Hits.isEmpty then
    let (results, tagCandidates) := fs.searchByTagsWithFilter P query filter
    (⟨results, (execution.recordPath .bm25 bm25Raw.length 0).recordPath .tagFallback tagCandidates results.length⟩,
      false)
  else
    let (sorted, execution) := fs.rankCandidates P env query limit filter hits bm25Raw.length bm25Hits ppr execution
    fs.finishSearch P env query limit filter sorted execution

/-- A search that does not look into the cache. -/
def searchFresh : DiagnosedSearch × Bool :=
  let execution : SearchExecution := ⟨[], .notProbed env.provider⟩
  match if isTemporalQuery P query then env.graph else none with
  | none => fs.searchHybrid P env query limit filter execution
  | some graph =>
    let (results, candidates) := fs.searchTemporalViaKg P graph query limit filter
    let execution := if candidates = 0 then execution
      else execution.recordPath .knowledgeGraphTemporal candidates results.length
    if results.isEmpty then fs.searchHybrid P env query limit filter execution
    else (⟨results, execution⟩, false)

/-- The time a cached answer lives, in milliseconds, and the number of answers kept. -/
def searchCacheTtlMs : Nat := 300 * 1000

def searchCacheEntries : Nat := 256

/-- `make_key` for the filesystem. -/
def cacheKey : String :=
  query ++ ":" ++ toString limit ++ ":fs"

def cacheGet (cache : List SearchCacheEntry) (key : String) (mono : Nat) :
    List SearchCacheEntry × Option (List SearchResult) :=
  match cache.find? fun entry => entry.key == key with
  | none => (cache, none)
  | some entry =>
    let others := cache.filter fun entry => entry.key != key
    if mono - entry.createdAt < searchCacheTtlMs then (entry :: others, some entry.results) else (others, none)

def cachePut (cache : List SearchCacheEntry) (key : String) (results : List SearchResult) (mono : Nat) :
    List SearchCacheEntry :=
  (⟨key, results, mono⟩ :: cache.filter fun entry => entry.key != key).take searchCacheEntries

/-- The cache is asked only when it may be used. `mono` is the reading of the monotonic clock. -/
def cacheLookup (cached : Bool) (mono : Nat) : List SearchCacheEntry × Option (List SearchResult) :=
  if cached then cacheGet fs.searchCache (cacheKey query limit) mono else (fs.searchCache, none)

def searchWithFilterInternal (allowCache : Bool) (mono : Nat) : SemanticFS × DiagnosedSearch :=
  match fs.cacheLookup query limit (allowCache && filter.isCacheNeutral) mono with
  | (cache, some results) => ({ fs with searchCache := cache }, ⟨results, ⟨[], .notProbed env.provider⟩⟩)
  | (cache, none) =>
    let (diagnosed, complete) := fs.searchFresh P env query limit filter
    (if allowCache && filter.isCacheNeutral && complete then
      { fs with searchCache := cachePut cache (cacheKey query limit) diagnosed.results mono }
    else { fs with searchCache := cache }, diagnosed)

def searchWithFilter (mono : Nat) : SemanticFS × List SearchResult :=
  let (fs, diagnosed) := fs.searchWithFilterInternal P env query limit filter true mono
  (fs, diagnosed.results)

def searchVisibleWithDiagnostics
    (roleId namespace_ : String) (canReadAny : Bool) (mono : Nat) : SemanticFS × DiagnosedSearch :=
  fs.searchWithFilterInternal P env query limit (filter.withAccess roleId namespace_ canReadAny) false mono

/-! ## Direct reads -/

/-- `search_by_tags`: the objects of each tag in turn. -/
def searchByTags (tags : List String) (limit : Nat) : List SearchResult :=
  ((tags.flatMap fun tag => (fs.tagIndex.lookup tag).getD []).filterMap fun cid =>
    fs.resultOf P cid 0x3f4ccccd#32).take limit

/-- `search_by_tags_intersection`: the objects that have all the tags. -/
def searchByTagsIntersection (tags : List String) (limit : Nat) : List SearchResult :=
  match tags with
  | [] => []
  | tag :: tags =>
    ((((fs.tagIndex.lookup tag).getD []).dedup.filter fun cid =>
      tags.all fun other => ((fs.tagIndex.lookup other).getD []).contains cid).filterMap fun cid =>
        fs.resultOf P cid 0x3f666666#32).take limit

inductive Query where
  | byCid (cid : String)
  | byTags (tags : List String)
  | semantic (text : String) (filter : Option SearchFilter)
  | byType (contentType : String)
  | hybrid (tags : List String) (semantic : Option String) (contentType : Option String)

def listByFilter : List String :=
  (fs.searchIndex.entries.entries.filter fun entry => filter.isMatch entry.2.meta_).map Sigma.fst

/-- The CIDs a query names. -/
def queryCids : Query → List String
  | .byCid cid => [cid]
  | .byTags tags => resolveTags fs.tagIndex tags
  | .semantic text filter =>
    match env.embedQuery with
    | .ok query =>
      (fs.searchIndex.search P.f32 env.neighbours query 10 (filter.getD .default)).map (·.cid)
    | .error _ => resolveTags fs.tagIndex (splitWhitespace text)
  | .byType contentType => fs.listByFilter { SearchFilter.default with contentType := some contentType }
  | .hybrid tags semantic contentType =>
    let filter := { SearchFilter.default with requireTags := tags, contentType }
    match semantic, env.embedQuery with
    | some _, .ok query => (fs.searchIndex.search P.f32 env.neighbours query 10 filter).map (·.cid)
    | _, _ => fs.listByFilter filter

def read (query : Query) : Except IoError (List AIObject) :=
  match query with
  | .byCid cid => do
    let obj ← (fs.cas.get P.sha256 cid).mapError casNotFound
    pure [obj]
  | query => .ok ((fs.queryCids P env query).filterMap fun cid => (fs.cas.get P.sha256 cid).toOption)

end SemanticFS

end Plico.Fs
