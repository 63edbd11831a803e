import Plico.Framework.Log
import Plico.Proof.Fs.Search

/-!
# Search and the visibility boundary

The results of a search for a role stay within its bounds exactly when everything that may be ranked shows a document
within them. The vector index does not ask for the access constraint when the filter has no other criterion, and the
parent of a chunk is shown unchecked, so this is not always so.
-/

namespace Plico.Fs

open SearchHit HnswBackend SearchFilter AList List Plico.Cas

/-- What the filter asks of an object for a role in a namespace. -/
structure WithinBounds (filter : SearchFilter) (roleId namespace_ : String) (meta_ : AIObjectMeta) : Prop where
  inNamespace : meta_.tenantId = namespace_
  notForeign : meta_.scope = .private_ → meta_.createdBy = roleId
  required : ∀ tag ∈ filter.requireTags, tag ∈ meta_.tags
  excluded : ∀ tag ∈ filter.excludeTags, tag ∉ meta_.tags

variable {namespace_ roleId : String}

theorem withinBounds_of_isMatch {filter : SearchFilter} {meta_ : AIObjectMeta}
    (h : (filter.withAccess roleId namespace_ false).isMatch (indexMeta meta_) = true) :
    WithinBounds filter roleId namespace_ meta_ := by
  simp only [isMatch, withAccess, Option.all_some, SearchAccess.admits,
    Bool.false_or, Bool.and_eq_true, beq_iff_eq, Bool.or_eq_true, bne_iff_ne, all_eq_true,
    contains_iff_mem, Bool.not_eq_true', any_eq_false] at h
  obtain ⟨⟨⟨⟨⟨⟨⟨hnamespace, hscope⟩, hrequired⟩, hexcluded⟩, -⟩, -⟩, -⟩, -⟩ := h
  exact ⟨hnamespace, fun hprivate => hscope.resolve_left (not_not_intro hprivate), hrequired, hexcluded⟩

namespace SemanticFS

/-- Whatever may be ranked shows a document within the bounds: what the vector index admits, and, once ranking
starts, what passes the filter. -/
def Confined (sha256 : Bytes → String) (fs : SemanticFS) (filter : SearchFilter) (roleId namespace_ : String) : Prop :=
  ∀ cid obj, fs.cas.getRaw sha256 cid = .ok obj →
    (fs.Indexed (filter.withAccess roleId namespace_ false) cid ∨
      ((filter.withAccess roleId namespace_ false).isMatch (indexMeta obj.meta_) = true ∧
        Started sha256 fs (filter.withAccess roleId namespace_ false))) →
    Holds sha256 fs (shown sha256 fs cid obj.meta_.tags) (WithinBounds filter roleId namespace_)

variable {sha256 : Bytes → String} {env : SearchEnv} {fs : SemanticFS} {filter : SearchFilter} {query : String}
  {score : F32}

theorem holds_of_sourced (hconfined : Confined sha256 fs filter roleId namespace_)
    {r : SearchResult} (h : Sourced sha256 env fs (filter.withAccess roleId namespace_ false) r) :
    Holds sha256 fs r.cid (WithinBounds filter roleId namespace_) := by
  cases h with
  | accepted _ passes =>
    obtain ⟨obj, hobj, hmatch⟩ := passes
    exact ⟨obj, hobj, withinBounds_of_isMatch hmatch⟩
  | @ranked cid obj hstarted hranked hstored hshown =>
    rw [hshown]
    refine hconfined cid obj hstored ?_
    obtain hindexed | ⟨⟨obj', hobj', hmatch⟩, -⟩ := hranked
    · exact .inl hindexed
    · cases hstored.symm.trans hobj'
      exact .inr ⟨hmatch, hstarted⟩

/-! ## Bringing a candidate to the front

The other direction needs, for each document that may be ranked, a search that shows it. The graph's answers below
make it a candidate and raise its score above all others. -/

/-- The boost of causes. -/
def topScore : F32 := 0x3dcccccd#32

/-- An arithmetic in which only that boost counts. -/
def steeredOps : F32Ops where
  add := fun _ b => if b = topScore then topScore else 0
  sub := fun _ _ => 0
  mul := fun _ _ => 0
  div := fun _ _ => 0
  ofNat := fun _ => 0
  lt := fun a b => a != topScore && b == topScore
  cosine := fun _ _ => 0

def steeredPlatform (sha256 : Bytes → String) : SearchPlatform where
  sha256 := sha256
  fromUtf8 := fun _ => none
  fromUtf8Lossy := fun _ => ""
  toLowercase := id
  f32 := steeredOps
  charLowercase := fun c => [c]
  isAlphanumeric := fun _ => false
  isUppercase := fun _ => false

/-- A graph that leads to the document and lets it cause itself. -/
def steeredGraph (cid : String) : SearchGraph where
  events := none
  allNodeIds := []
  pagerank := fun _ => none
  nodeCids := fun _ => []
  nodesByCid := fun _ => ["first", "second"]
  weightedPath := fun _ _ => some [⟨some cid, []⟩]
  causes := fun c => if c = cid then [cid] else []

/-- The vectors and the words offer `start`; the graph leads to `cid`. -/
def steeredEnv (dim : Nat) (start cid : String) : SearchEnv where
  provider := ""
  embedQuery := .ok (List.replicate dim 0)
  neighbours := [(start, 0)]
  bm25 := fun _ => [(start, 0)]
  graph := some (steeredGraph cid)
  reranker := none
  rrfK := 0
  rrfOverride := some (0, 0)

/-- No other document has the top score. -/
def Low (cid : String) (scores : Scores) : Prop :=
  ∀ other score, scores.lookup other = some score → other ≠ cid → score ≠ topScore

section

variable {sha256 : Bytes → String} {cid : String} {scores : Scores}

theorem low_empty : Low cid ∅ := by
  intro other score h
  simp at h

variable {c : String} {limit : Nat} {α : Type} {l : List α}

theorem low_insert (h : Low cid scores) (hscore : c = cid ∨ score ≠ topScore) : Low cid (scores.insert c score) := by
  intro other score' hlookup hother
  obtain ⟨rfl, rfl⟩ | ⟨-, hlookup⟩ := lookup_insert_eq_some.mp hlookup
  · exact hscore.resolve_left hother
  · exact h other score' hlookup hother

theorem low_boost (h : Low cid scores) {amount : F32} (hamount : c = cid ∨ amount ≠ topScore) :
    Low cid (boost (steeredPlatform sha256) scores c amount) := by
  unfold boost
  split
  · refine low_insert h (hamount.imp_right fun hamount => ?_)
    show (if amount = topScore then topScore else 0) ≠ topScore
    rw [if_neg hamount]
    decide
  · exact low_insert h hamount

theorem low_foldl {f : Scores → α → Scores}
    (hf : ∀ scores, ∀ a ∈ l, Low cid scores → Low cid (f scores a)) (h : Low cid scores) : Low cid (l.foldl f scores) :=
  List.foldlRecOn l f h fun scores hscores a ha => hf scores a ha hscores

theorem rrf_steered {weight : F32} {rank : Nat} {chunk : Bool} :
    rrf (steeredPlatform sha256) env weight rank chunk ≠ topScore := by
  cases chunk
  · show 0 ≠ topScore
    decide
  · show (if (0x3e4ccccd#32) = topScore then topScore else 0) ≠ topScore
    decide

theorem low_vectorScores (env : SearchEnv) (query : String) (hits : AList (fun _ : String => SearchHit)) :
    Low cid (vectorScores (steeredPlatform sha256) env query hits) := by
  exact low_foldl (fun scores entry _ h => low_insert h (.inr rrf_steered)) low_empty

theorem low_addBm25Scores (h : Low cid scores) (env : SearchEnv) (fs : SemanticFS) (query : String)
    (hits : AList (fun _ : String => SearchHit)) (bm25Hits : List (String × F32)) :
    Low cid (fs.addBm25Scores (steeredPlatform sha256) env query hits bm25Hits scores) := by
  exact low_foldl (fun scores entry _ h => low_boost h (.inr rrf_steered)) h

theorem eq_of_names_steeredGraph (h : (steeredGraph cid).Names c) : c = cid := by
  obtain ⟨events, hevents, -⟩ | ⟨node, hnode⟩ | ⟨_, _, path, hpath, node, hnode, hc⟩ := h
  · cases hevents
  · cases hnode
  · cases hpath
    cases mem_singleton.mp hnode
    obtain hc | hc := hc
    · exact (Option.some.inj hc).symm
    · cases hc

theorem low_addPathScores (h : Low cid scores) :
    Low cid (fs.addPathScores (steeredPlatform sha256) filter limit
      (discoverPaths (steeredPlatform sha256) (steeredGraph cid) scores) scores).1 := by
  refine low_foldl (fun scores entry hentry h => low_boost h (.inl ?_)) h
  obtain ⟨hpath, -⟩ := mem_filter.mp (mem_of_mem_take hentry)
  exact eq_of_names_steeredGraph (names_of_discoverPaths hpath)

theorem lookup_boost_top : (boost (steeredPlatform sha256) scores c topScore).lookup c = some topScore := by
  unfold boost
  split
  · rw [lookup_insert]
    show some (if topScore = topScore then topScore else 0) = some topScore
    rw [if_pos rfl]
  · rw [lookup_insert]

/-- The document causes itself, so its score rises to the top. -/
theorem addCausalScores_steered (hmem : cid ∈ scores) (h : Low cid scores) :
    (addCausalScores (steeredPlatform sha256) (steeredGraph cid) scores).1.lookup cid = some topScore ∧
      Low cid (addCausalScores (steeredPlatform sha256) (steeredGraph cid) scores).1 := by
  unfold addCausalScores
  dsimp only
  obtain ⟨entry, hentry, hcid⟩ := mem_scores_iff.mp hmem
  generalize htop : (sortByScore (steeredPlatform sha256).f32 Sigma.snd scores.entries).map Sigma.fst = top
  have hin : cid ∈ top := htop ▸ mem_map.mpr ⟨entry, mem_sortByScore.mpr hentry, hcid⟩
  generalize hpairs : (top.flatMap fun c => ((steeredGraph cid).causes c).map (c, ·)).filter
    (fun pair => top.contains pair.2) = pairs
  have hall : ∀ pair ∈ pairs, pair = (cid, cid) := by
    rintro pair hpair
    rw [← hpairs] at hpair
    obtain ⟨c, -, hcause⟩ := mem_flatMap.mp (mem_filter.mp hpair).1
    by_cases hc : c = cid
    · subst hc
      simpa [steeredGraph] using hcause
    · simp [steeredGraph, hc] at hcause
  have hself : (cid, cid) ∈ pairs := by
    rw [← hpairs]
    refine mem_filter.mpr ⟨mem_flatMap.mpr ⟨cid, hin, ?_⟩, contains_iff_mem.mpr hin⟩
    simp [steeredGraph]
  refine ⟨?_, low_foldl (fun scores pair hpair h => ?_) h⟩
  · have hne : pairs ≠ [] := ne_nil_of_mem hself
    rw [← dropLast_append_getLast hne, foldl_append, hall _ (getLast_mem hne)]
    exact lookup_boost_top
  · obtain rfl := hall pair hpair
    exact low_boost (low_boost h (.inl rfl)) (.inl rfl)

/-- A document alone at the top comes first. -/
theorem sortByScore_steered (htop : scores.lookup cid = some topScore) (h : Low cid scores) :
    ∃ score rest, (sortByScore steeredOps Sigma.snd scores.entries).map (fun entry => (entry.1, entry.2)) =
      (cid, score) :: rest := by
  have hmem : (⟨cid, topScore⟩) ∈ sortByScore steeredOps Sigma.snd scores.entries :=
    mem_sortByScore.mpr (mem_lookup_iff.mp htop)
  have hsorted : (sortByScore steeredOps Sigma.snd scores.entries).Pairwise
      fun a b : Sigma fun _ => F32 => (!steeredOps.lt a.2 b.2) = true := by
    refine pairwise_mergeSort (fun a b c hab hbc => ?_) (fun a b => ?_) _
    · simp only [steeredOps] at hab hbc ⊢
      grind
    · simp only [steeredOps]
      grind
  cases hlist : sortByScore steeredOps Sigma.snd scores.entries with
  | nil =>
    rw [hlist] at hmem
    cases hmem
  | cons entry rest =>
    have hentry : entry.1 = cid := by
      by_contra hne
      rw [hlist] at hmem hsorted
      obtain rfl | hmem := mem_cons.mp hmem
      · exact hne rfl
      · have hin : entry ∈ scores.entries := mem_sortByScore.mp (hlist ▸ mem_cons_self)
        have hlow := h entry.1 entry.2 (lookup_of_mem_entries hin) hne
        have hle := rel_of_pairwise_cons hsorted hmem
        simp [steeredOps, hlow] at hle
    exact ⟨entry.2, rest.map fun entry => (entry.1, entry.2), by rw [map_cons, hentry]⟩

variable {start : String}

theorem two_le_pathSeeds (sha256 : Bytes → String) (cid : String) (h : start ∈ scores) :
    2 ≤ (pathSeeds (steeredPlatform sha256) (steeredGraph cid) scores).length := by
  have hseeds : ["first", "second"] ⊆ pathSeeds (steeredPlatform sha256) (steeredGraph cid) scores := by
    intro node hnode
    refine (foldl_iff (P := fun seeds => node ∈ seeds)
      (fun seeds c => ?_)).mpr (.inr ⟨node, ?_, rfl⟩)
    · split
      · grind
      · simp
    · obtain ⟨entry, hentry, -⟩ := mem_scores_iff.mp h
      have hne : sortByScore (steeredPlatform sha256).f32 Sigma.snd scores.entries ≠ [] :=
        ne_nil_of_mem (mem_sortByScore.mpr hentry)
      obtain ⟨first, rest, hlist⟩ := exists_cons_of_ne_nil hne
      rw [hlist]
      exact mem_flatMap.mpr ⟨first, mem_cons_self, hnode⟩
  exact (subperm_of_subset (by decide) hseeds).length_le

/-- The graph leads to a document that has no score yet. -/
theorem mem_discoverPaths_steered (sha256 : Bytes → String) (hstart : start ∈ scores) (hcid : cid ∉ scores) :
    ∃ score, (cid, score) ∈ discoverPaths (steeredPlatform sha256) (steeredGraph cid) scores := by
  have hseeds := two_le_pathSeeds sha256 cid hstart
  refine mem_discoverPaths.mpr ⟨hseeds, hcid, ?_⟩
  match pathSeeds (steeredPlatform sha256) (steeredGraph cid) scores, hseeds with
  | seed :: seed' :: seeds, _ =>
    have hpair : (seed, seed') ∈ (seedPairs (seed :: seed' :: seeds)).take 6 := by simp [seedPairs]
    exact ⟨(seed, seed'), hpair, _, rfl, ⟨some cid, []⟩, mem_singleton.mpr rfl, .inl rfl⟩

/-- Whatever has a score, or passes the filter, leads the ranking. -/
theorem ranking_steered (dim : Nat) (hstart : start ∈ scores)
    (hlow : Low cid scores) (hquery : isMultihopQuery (steeredPlatform sha256) query = true) (hlimit : 0 < limit)
    (hcid : cid ∈ scores ∨ fs.accepts (steeredPlatform sha256) filter cid = true) :
    ∃ score rest, (sortByScore (steeredPlatform sha256).f32 Sigma.snd (graphScores (steeredPlatform sha256)
      (steeredEnv dim start cid) fs query limit filter scores).entries).map (fun entry => (entry.1, entry.2)) =
        (cid, score) :: rest := by
  have hscored : cid ∈ (fs.addPathScores (steeredPlatform sha256) filter limit
      (discoverPaths (steeredPlatform sha256) (steeredGraph cid) scores) scores).1 := by
    rw [mem_addPathScores]
    by_cases hmem : cid ∈ scores
    · exact .inl hmem
    · obtain ⟨score, hpath⟩ := mem_discoverPaths_steered sha256 hstart hmem
      have hne : (discoverPaths (steeredPlatform sha256) (steeredGraph cid) scores).filter
          (fun entry => fs.accepts (steeredPlatform sha256) filter entry.1) ≠ [] :=
        ne_nil_of_mem (mem_filter.mpr ⟨hpath, hcid.resolve_left hmem⟩)
      obtain ⟨first, rest, hlist⟩ := exists_cons_of_ne_nil hne
      have hfirst := (mem_filter.mp (hlist ▸ mem_cons_self)).1
      refine .inr ⟨first, ?_, eq_of_names_steeredGraph (names_of_discoverPaths hfirst)⟩
      rw [hlist, take_cons hlimit]
      exact mem_cons_self
  obtain ⟨htop, hlow'⟩ := addCausalScores_steered hscored (low_addPathScores hlow)
  refine sortByScore_steered ?_ ?_
  all_goals simpa [graphScores, hquery] using ‹_›

end

/-! ## The first result -/

variable {start : String}

/-- The vector index returns what it admits when enough is asked for. -/
theorem mem_search_of_indexed (h : fs.Indexed filter start) (ops : F32Ops) {query : Embedding}
    (hdim : query.length = fs.searchIndex.dim) {k : Nat} (hk : fs.searchIndex.entries.entries.length < k) :
    ∃ hit ∈ fs.searchIndex.search ops [(start, 0)] query k filter, hit.cid = start := by
  obtain ⟨entry, hentry, hadmits⟩ := h
  unfold search
  rw [if_neg (not_not_intro hdim)]
  split
  · -- everything admitted is recalled and kept
    have hmem : (⟨start, entry⟩) ∈
        fs.searchIndex.entries.entries.filter fun entry => admits filter entry.2 :=
      mem_filter.mpr ⟨mem_lookup_iff.mp hentry, hadmits⟩
    have hlength := length_filter_le (fun entry : Sigma fun _ => HnswEntry =>
      admits filter entry.2) fs.searchIndex.entries.entries
    refine ⟨⟨start, ops.cosine query entry.embedding, entry.meta_⟩, ?_, rfl⟩
    rw [take_of_length_le (by simp only [sortByScore, length_mergeSort, length_map, length_take]; omega),
      mem_sortByScore, take_of_length_le (by rw [length_mergeSort]; omega)]
    exact mem_map.mpr ⟨⟨start, entry⟩, mem_mergeSort.mpr hmem, rfl⟩
  · refine ⟨⟨start, ops.sub 0x3f800000#32 0, entry.meta_⟩, ?_, rfl⟩
    rw [take_of_length_le (by grind)]
    exact mem_filterMap.mpr ⟨(start, 0), mem_singleton.mpr rfl, by simp [hentry, hadmits]⟩

variable {P : SearchPlatform} {limit : Nat} {cid : String} {obj : AIObject}

theorem exists_vectorHit {query : Embedding} (hquery : env.embedQuery = .ok query) {hit : SearchHit}
    (h : hit ∈ fs.searchIndex.search P.f32 env.neighbours query (limit * 10) filter) :
    ∃ hit' ∈ (fs.vectorHits P env limit filter).entries.map Sigma.snd, hit'.cid = hit.cid := by
  have hindex : fs.vectorHits P env limit filter = index cid id
      (fs.searchIndex.search P.f32 env.neighbours query (limit * 10) filter) := by
    rw [vectorHits, hquery]
    rfl
  have hmem := hindex ▸ (mem_index cid).mpr ⟨hit, h, rfl⟩
  obtain ⟨hit', hlookup⟩ := Option.isSome_iff_exists.mp (lookup_isSome.mpr hmem)
  refine ⟨hit', mem_map.mpr ⟨⟨hit.cid, hit'⟩, mem_lookup_iff.mp hlookup, rfl⟩, ?_⟩
  rw [hindex, lookup_index] at hlookup
  obtain ⟨last, hlast, rfl⟩ := Option.map_eq_some_iff.mp hlookup
  exact ((mem_stream cid).mp (mem_of_getLast? hlast)).2

theorem subset_mergeHits {merged : List SearchResult} {hits : List (String × F32)} :
    merged ⊆ fs.mergeHits P filter limit merged hits := by
  induction hits generalizing merged with
  | nil => exact List.Subset.refl _
  | cons hit hits ih =>
    unfold mergeHits
    split
    · exact ih
    · split
      · exact List.Subset.refl _
      · split
        · exact List.Subset.trans (subset_append_left ..) ih
        · exact ih

/-- The leading candidate is shown. -/
theorem shown_of_finishSearch (hreranker : env.reranker = none) (hlimit : 0 < limit) {rest : List (String × F32)}
    {execution : SearchExecution} (hobj : fs.cas.getRaw P.sha256 cid = .ok obj) :
    ∃ r ∈ (fs.finishSearch P env query limit filter ((cid, score) :: rest) execution).1.results,
      r.cid = shown P.sha256 fs cid obj.meta_.tags := by
  have hfirst : fs.resultOf P cid score = some ⟨cid, score, obj.meta_, snippetOf P maxSnippetLen obj⟩ := by
    unfold resultOf CASStorage.get
    rw [hobj]
  have hresolved : ∃ r ∈ fs.resolveParentChunks P [] ((((cid, score) :: rest).take limit).filterMap fun entry =>
      fs.resultOf P entry.1 entry.2), r.cid = shown P.sha256 fs cid obj.meta_.tags := by
    rw [take_cons hlimit, filterMap_cons, hfirst]
    unfold resolveParentChunks shown CASStorage.get
    cases parentCid obj.meta_.tags with
    | none => exact ⟨_, mem_cons_self, rfl⟩
    | some parent =>
      dsimp only
      cases fs.cas.getRaw P.sha256 parent <;> exact ⟨_, mem_cons_self, by simp [Except.toOption]⟩
  obtain ⟨r, hr, hcid⟩ := hresolved
  refine ⟨r, ?_, hcid⟩
  unfold finishSearch
  rw [hreranker]
  dsimp only [Option.map_none]
  split
  · split
    · unfold iterativeRetrieve
      dsimp only
      split
      · exact hr
      · exact subset_mergeHits hr
    · exact hr
  · exact hr

theorem isMultihopQuery_why (sha256 : Bytes → String) : isMultihopQuery (steeredPlatform sha256) "why" = true :=
  any_eq_true.mpr ⟨"why", mem_cons_self, decide_eq_true (infix_refl _)⟩

theorem mem_bm25Search_steered {dim : Nat} (h : start ∈ fs.bm25Index) :
    (start, 0) ∈ fs.bm25Search (steeredEnv dim start cid) "why" fs.bm25Index.entries.length := by
  have hindexed := lookup_isSome.mpr h
  obtain ⟨entry, hentry, -⟩ := mem_map.mp (mem_keys.mp h)
  have hlength := length_pos_of_mem hentry
  unfold bm25Search
  rw [take_of_length_le]
  · exact mem_filter.mpr ⟨mem_singleton.mpr rfl, hindexed⟩
  · exact (length_filter_le ..).trans hlength

section

variable
  (hstart : fs.Indexed filter start ∨
    (start ∈ fs.bm25Index ∧ Holds sha256 fs start fun meta_ => filter.isMatch (indexMeta meta_) = true))
include hstart

/-- The vectors or the words offer the first document. -/
theorem start_offered (hlimit : fs.searchIndex.entries.entries.length < limit) (cid : String) :
    (∃ hit ∈ (fs.vectorHits (steeredPlatform sha256) (steeredEnv fs.searchIndex.dim start cid) limit
      filter).entries.map Sigma.snd, hit.cid = start) ∨
    ∃ hit ∈ (fs.bm25Search (steeredEnv fs.searchIndex.dim start cid) "why" fs.bm25Index.entries.length).filter
      (fun hit => fs.accepts (steeredPlatform sha256) filter hit.1), hit.1 = start := by
  obtain hindexed | ⟨hbm25, hmatch⟩ := hstart
  · have hdim : (List.replicate fs.searchIndex.dim (0 : F32)).length = fs.searchIndex.dim := length_replicate
    obtain ⟨hit, hhit, rfl⟩ := mem_search_of_indexed hindexed steeredOps hdim
      (show fs.searchIndex.entries.entries.length < limit * 10 by omega)
    exact .inl (exists_vectorHit rfl hhit)
  · exact .inr ⟨(start, 0), mem_filter.mpr ⟨mem_bm25Search_steered hbm25, accepts_iff.mpr hmatch⟩, rfl⟩

/-- For each document that may be ranked there is a search that shows it. -/
theorem exists_search_showing (hobj : fs.cas.getRaw sha256 cid = .ok obj)
    (hcid : cid = start ∨ filter.isMatch (indexMeta obj.meta_) = true) :
    ∃ r ∈ (fs.searchFresh (steeredPlatform sha256) (steeredEnv fs.searchIndex.dim start cid) "why"
      (fs.searchIndex.entries.entries.length + 1) filter).1.results, r.cid = shown sha256 fs cid obj.meta_.tags := by
  have hlimit : fs.searchIndex.entries.entries.length < fs.searchIndex.entries.entries.length + 1 := Nat.lt_succ_self _
  generalize fs.searchIndex.entries.entries.length + 1 = limit at hlimit ⊢
  have hoffered := start_offered hstart hlimit cid
  have hhybrid execution :
      ∃ r ∈ (fs.searchHybrid (steeredPlatform sha256) (steeredEnv fs.searchIndex.dim start cid) "why" limit filter
        execution).1.results, r.cid = shown sha256 fs cid obj.meta_.tags := by
    unfold searchHybrid
    have hppr : (if isMultihopQuery (steeredPlatform sha256) "why" || isTemporalQuery (steeredPlatform sha256) "why"
        then ((steeredEnv fs.searchIndex.dim start cid).graph.map fun graph =>
          pprBoost (steeredPlatform sha256) graph "why").getD (∅, false)
        else (∅, false)) = (∅, false) := by
      simp [steeredEnv, pprBoost, seedNodes, steeredGraph]
    rw [hppr]
    dsimp only
    generalize (fs.bm25Search (steeredEnv fs.searchIndex.dim start cid) "why" fs.bm25Index.entries.length).filter
      (fun hit => fs.accepts (steeredPlatform sha256) filter hit.1) = bm25Hits at hoffered ⊢
    generalize fs.vectorHits (steeredPlatform sha256) (steeredEnv fs.searchIndex.dim start cid) limit filter = hits
      at hoffered ⊢
    have hsome : ¬ (hits.entries.isEmpty && bm25Hits.isEmpty) = true := by
      rw [Bool.and_eq_true, List.isEmpty_iff, List.isEmpty_iff]
      rintro ⟨hhits, rfl⟩
      simp [hhits] at hoffered
    rw [if_neg hsome]
    have hscored : start ∈ fs.addPprScores (steeredPlatform sha256) filter ∅ (fs.addBm25Scores (steeredPlatform sha256)
        (steeredEnv fs.searchIndex.dim start cid) "why" hits bm25Hits (vectorScores (steeredPlatform sha256)
          (steeredEnv fs.searchIndex.dim start cid) "why" hits)) :=
      mem_addPprScores.mpr (.inl (mem_addBm25Scores.mpr (hoffered.imp_left mem_vectorScores.mpr)))
    have hcandidate := hcid.imp (fun h => h.symm ▸ hscored) fun h =>
      (accepts_iff (P := steeredPlatform sha256)).mpr ⟨obj, hobj, h⟩
    obtain ⟨score, rest, hsorted⟩ := ranking_steered fs.searchIndex.dim hscored
      (low_addBm25Scores (low_vectorScores _ _ hits) _ fs _ _ _) (isMultihopQuery_why sha256) (Nat.zero_lt_of_lt hlimit)
      hcandidate
    rw [rankCandidates_fst, hsorted]
    exact shown_of_finishSearch rfl (Nat.zero_lt_of_lt hlimit) hobj
  unfold searchFresh
  split
  · exact hhybrid _
  · rename_i graph hgraph
    obtain rfl : steeredGraph cid = graph := by
      split at hgraph
      · exact Option.some.inj hgraph
      · cases hgraph
    exact hhybrid _

end

/-! ## The boundary -/

theorem results_of_access {allowCache : Bool} {mono : Nat} :
    (fs.searchWithFilterInternal P env query limit (filter.withAccess roleId namespace_ false) allowCache mono).2 =
      (fs.searchFresh P env query limit (filter.withAccess roleId namespace_ false)).1 := by
  have hneutral : (filter.withAccess roleId namespace_ false).isCacheNeutral = false := by
    simp [isCacheNeutral, withAccess]
  unfold searchWithFilterInternal cacheLookup
  rw [hneutral, Bool.and_false]
  rfl

/-- Every search for a role stays within its bounds, whatever the query, the answers from outside and the scores,
exactly when everything that may be ranked shows a document within them. -/
theorem search_within_bounds_iff (sha256 : Bytes → String) (fs : SemanticFS) (filter : SearchFilter)
    (roleId namespace_ : String) :
    (∀ (P : SearchPlatform) (env : SearchEnv) (query : String) (limit mono : Nat), P.sha256 = sha256 →
      (∀ r ∈ (fs.searchVisibleWithDiagnostics P env query limit filter roleId namespace_ false mono).2.results,
        Holds sha256 fs r.cid (WithinBounds filter roleId namespace_)) ∧
      ∀ r ∈ (fs.searchWithFilter P env query limit (filter.withAccess roleId namespace_ false) mono).2,
        Holds sha256 fs r.cid (WithinBounds filter roleId namespace_)) ↔
    Confined sha256 fs filter roleId namespace_ := by
  constructor
  · intro h cid obj hobj hcandidate
    have hshown {start : String} (hstart : fs.Indexed (filter.withAccess roleId namespace_ false) start ∨
        (start ∈ fs.bm25Index ∧ Holds sha256 fs start fun meta_ =>
          (filter.withAccess roleId namespace_ false).isMatch (indexMeta meta_) = true))
        (hcid : cid = start ∨ (filter.withAccess roleId namespace_ false).isMatch (indexMeta obj.meta_) = true) :
        Holds sha256 fs (shown sha256 fs cid obj.meta_.tags) (WithinBounds filter roleId namespace_) := by
      obtain ⟨r, hr, hrcid⟩ := exists_search_showing hstart hobj hcid
      have hvisible := (h (steeredPlatform sha256) (steeredEnv fs.searchIndex.dim start cid) "why"
        (fs.searchIndex.entries.entries.length + 1) 0 rfl).1
      exact hrcid ▸ hvisible r hr
    obtain hindexed | ⟨hmatch, start, hstart⟩ := hcandidate
    · exact hshown (.inl hindexed) (.inl rfl)
    · exact hshown hstart (.inr hmatch)
  · intro hconfined P env query limit mono hsha256
    subst hsha256
    have hresult : ∀ r ∈ (fs.searchFresh P env query limit (filter.withAccess roleId namespace_ false)).1.results,
        Holds P.sha256 fs r.cid (WithinBounds filter roleId namespace_) :=
      fun r hr => holds_of_sourced hconfined (sourced_of_searchFresh hr)
    unfold searchVisibleWithDiagnostics searchWithFilter
    dsimp only
    rw [results_of_access, results_of_access]
    exact ⟨hresult, hresult⟩

/-! ## A private note in another role's results -/

/-- The digest of the text "note". -/
def noteCid : String := "edb465624291e4053c6c5ea4b7eb320dec773e10a57d26b95dcf0564f8e310f8"

def memoCid : String := "9c225a950b92172f8c2afe8b682b7b86ce8f835578b546f9b8070cba309ad314"

/-- A platform that knows two texts. -/
def notePlatform : SearchPlatform where
  sha256 := fun data => if data = utf8 "note" then noteCid else memoCid
  fromUtf8 := fun data => some (if data = utf8 "note" then "note" else "memo")
  fromUtf8Lossy := fun data => if data = utf8 "note" then "note" else "memo"
  toLowercase := id
  f32 := ⟨fun a _ => a, fun a _ => a, fun a _ => a, fun a _ => a, fun _ => 0, fun _ _ => false, fun _ _ => 0⟩
  charLowercase := fun c => [c]
  isAlphanumeric := fun _ => true
  isUppercase := fun _ => false

def blankFs : SemanticFS where
  cas := ∅
  tagIndex := ∅
  tagIndexFile := none
  recycleBin := ∅
  recycleBinFile := none
  ctxLoader := ⟨∅, fun _ => none, fun _ => none⟩
  searchIndex := ⟨1, ∅⟩
  searchIndexFile := none
  bm25Index := ∅
  searchCache := []

/-- Bob's private note is stored and indexed. -/
def bobsFs : SemanticFS :=
  match blankFs.create notePlatform.toFsPlatform (utf8 "note") [] "bob" none .private_ 1 false
    (.embedded [0x3f800000#32]) with
  | .ok (fs, _) => fs
  | .error _ => blankFs

/-- The note is the nearest neighbour of the query; no word of the query is in the index. -/
def noteEnv : SearchEnv where
  provider := "local"
  embedQuery := .ok [0x3f800000#32]
  neighbours := [(noteCid, 0)]
  bm25 := fun _ => []
  graph := none
  reranker := none
  rrfK := 0x42700000#32
  rrfOverride := none

/-- Alice's search without further criteria returns Bob's private note. -/
theorem alice_finds_bobs_note :
    blankFs.create notePlatform.toFsPlatform (utf8 "note") [] "bob" none .private_ 1 false (.embedded [0x3f800000#32]) =
        .ok (bobsFs, noteCid) ∧
      (bobsFs.searchVisibleWithDiagnostics notePlatform noteEnv "memo" 5 .default "alice" "default" false
        0).2.results.map (·.cid) = [noteCid] ∧
      ¬ Holds notePlatform.sha256 bobsFs noteCid (WithinBounds .default "alice" "default") := by
  refine ⟨rfl, by decide +kernel, ?_⟩
  rintro ⟨obj, hobj, hbounds⟩
  cases hobj
  exact absurd (hbounds.notForeign rfl) (by decide)

end SemanticFS

end Plico.Fs
