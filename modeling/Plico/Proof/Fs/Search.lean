import Plico.Framework.Fold
import Plico.Framework.Run
import Plico.Model.Fs.Search

/-!
# Where search results come from

Each stage of a search is described by the documents it lets through. A result is a stored object that passed the
filter, or it stands for a ranked candidate: the candidate itself, or the parent that its tags name. The candidates
are what the vector index admits and what other stages found and the filter accepted.
-/

namespace Plico.Fs

open AList List Plico.Cas

variable {bm25Hits : List (String × F32)} {ppr : AList (fun _ : String => F32)}

/-- The stored object has the property. -/
def Holds (sha256 : Bytes → String) (fs : SemanticFS) (cid : String) (p : AIObjectMeta → Prop) : Prop :=
  ∃ obj, fs.cas.getRaw sha256 cid = .ok obj ∧ p obj.meta_

/-- The graph's answers name the document. -/
def SearchGraph.Names (graph : SearchGraph) (cid : String) : Prop :=
  (∃ events ∈ graph.events, ∃ event ∈ events, event.contentCid = some cid ∨ some cid ∈ event.follows) ∨
  (∃ node, cid ∈ graph.nodeCids node) ∨
  ∃ seed seed', ∃ path ∈ graph.weightedPath seed seed', ∃ node ∈ path, node.contentCid = some cid ∨ cid ∈ node.cids

/-- The components outside name the document: the graph, or the reranker when the document is not among the
candidates it is given. -/
def SearchEnv.Names (env : SearchEnv) (cid : String) : Prop :=
  (∃ graph ∈ env.graph, graph.Names cid) ∨
  ∃ rerank ∈ env.reranker, ∃ candidates, cid ∉ candidates.map Prod.fst ∧
    ∃ reranked ∈ rerank candidates, ∃ score, (cid, score) ∈ reranked

namespace SemanticFS

variable {P : SearchPlatform} {env : SearchEnv} {fs : SemanticFS} {filter : SearchFilter} {cid : String}

/-! ## Results for stored objects -/

theorem accepts_iff : fs.accepts P filter cid = true ↔
    Holds P.sha256 fs cid fun meta_ => filter.isMatch (indexMeta meta_) = true := by
  unfold accepts Holds
  cases fs.cas.getRaw P.sha256 cid <;> simp

variable {r : SearchResult} {relevance : F32} {α : Type} {hit : SearchHit} {l : List α} {a : α}

theorem resultOf_eq_some (h : fs.resultOf P cid relevance = some r) :
    r.cid = cid ∧ ∃ obj, fs.cas.getRaw P.sha256 cid = .ok obj ∧ r.meta_ = obj.meta_ := by
  unfold resultOf CASStorage.get at h
  cases hobj : fs.cas.getRaw P.sha256 cid with
  | error e => simp [hobj] at h
  | ok obj =>
    rw [hobj] at h
    cases h
    exact ⟨rfl, obj, rfl, rfl⟩

theorem accepts_of_acceptedResult (h : fs.acceptedResult P filter cid relevance = some r) :
    r.cid = cid ∧ fs.accepts P filter r.cid = true := by
  obtain ⟨hr, hmatch⟩ := Option.filter_eq_some_iff.mp h
  obtain ⟨rfl, obj, hobj, hmeta⟩ := resultOf_eq_some hr
  exact ⟨rfl, accepts_iff.mpr ⟨obj, hobj, hmeta ▸ hmatch⟩⟩

/-! ## Candidates of the vector index -/

/-- The vector index has an entry for the document that it may return under the filter. -/
def Indexed (fs : SemanticFS) (filter : SearchFilter) (cid : String) : Prop :=
  ∃ entry, fs.searchIndex.entries.lookup cid = some entry ∧ HnswBackend.admits filter entry = true

theorem lookup_of_mem_entries {β : String → Type} {m : AList β} {entry : Sigma β} (h : entry ∈ m.entries) :
    m.lookup entry.1 = some entry.2 :=
  mem_lookup_iff.mpr h

theorem mem_sortByScore {ops : F32Ops} {score : α → F32} : a ∈ sortByScore ops score l ↔ a ∈ l :=
  mem_mergeSort

theorem indexed_of_mem_search {query : Embedding} {k : Nat}
    (h : hit ∈ fs.searchIndex.search P.f32 env.neighbours query k filter) : fs.Indexed filter hit.cid := by
  unfold HnswBackend.search at h
  split at h
  · cases h
  · split at h
    · obtain ⟨entry, hentry, rfl⟩ := mem_map.mp (mem_sortByScore.mp (mem_of_mem_take h))
      obtain ⟨hmem, hadmits⟩ := mem_filter.mp (mem_mergeSort.mp (mem_of_mem_take hentry))
      exact ⟨entry.2, lookup_of_mem_entries hmem, hadmits⟩
    · obtain ⟨⟨cid, distance⟩, -, hsome⟩ := mem_filterMap.mp (mem_of_mem_take h)
      dsimp only at hsome
      split at hsome
      · cases hsome
      · rename_i entry hentry
        split at hsome
        · rename_i hadmits
          cases hsome
          exact ⟨entry, hentry, hadmits⟩
        · cases hsome

variable {limit : Nat} {results : List SearchResult} {candidates : Nat} {entry : String × F32}

/-- The table of the hits has one of the index's hits for each document it names. -/
theorem mem_vectorHits (h : hit ∈ (fs.vectorHits P env limit filter).entries.map Sigma.snd) :
    fs.Indexed filter hit.cid := by
  obtain ⟨entry, hentry, rfl⟩ := mem_map.mp h
  unfold vectorHits at hentry
  cases hquery : env.embedQuery with
  | error e => simp [hquery] at hentry
  | ok query =>
    rw [hquery] at hentry
    have hsource := foldl_source
      (P := fun hits : AList (fun _ => SearchHit) => hits.lookup entry.1 = some entry.2)
      (fun hits hit h => (lookup_insert_eq_some.mp h).elim (fun h => .inr h.2) fun h => .inl h.2)
      (lookup_of_mem_entries hentry)
    obtain hnil | ⟨hit, hhit, hentry⟩ := hsource
    · simp at hnil
    · exact hentry ▸ indexed_of_mem_search hhit

/-! ## Candidates with a score -/

section

variable {scores : Scores} {query : String} {limit : Nat}

theorem mem_boost {c : String} {amount : F32} : cid ∈ boost P scores c amount ↔ cid ∈ scores ∨ c = cid := by
  unfold boost
  split <;> rw [mem_insert, or_comm, eq_comm]

variable {hits : AList (fun _ : String => SearchHit)}

theorem mem_vectorScores : cid ∈ vectorScores P env query hits ↔ ∃ hit ∈ hits.entries.map Sigma.snd, hit.cid = cid := by
  unfold vectorScores
  rw [foldl_iff (P := fun scores => cid ∈ scores)
    (fun scores entry => by rw [mem_insert, or_comm])]
  constructor
  · rintro (hnil | ⟨⟨hit, rank⟩, hmem, rfl⟩)
    · simp at hnil
    · exact ⟨hit, mem_sortByScore.mp (fst_mem_of_mem_zipIdx hmem), rfl⟩
  · rintro ⟨hit, hmem, rfl⟩
    obtain ⟨rank, hrank⟩ := mem_iff_getElem?.mp (mem_sortByScore.mpr hmem)
    exact .inr ⟨(hit, rank), mk_mem_zipIdx_iff_getElem?.mpr hrank, rfl⟩

theorem mem_addBm25Scores :
    cid ∈ fs.addBm25Scores P env query hits bm25Hits scores ↔ cid ∈ scores ∨ ∃ hit ∈ bm25Hits, hit.1 = cid := by
  refine (foldl_iff (P := fun scores => cid ∈ scores)
    (Q := fun entry : (String × F32) × Nat => entry.1.1 = cid) (fun scores entry => mem_boost)).trans ?_
  constructor
  · rintro (h | ⟨⟨hit, rank⟩, hmem, rfl⟩)
    · exact .inl h
    · exact .inr ⟨hit, fst_mem_of_mem_zipIdx hmem, rfl⟩
  · rintro (h | ⟨hit, hmem, rfl⟩)
    · exact .inl h
    · obtain ⟨rank, hrank⟩ := mem_iff_getElem?.mp hmem
      exact .inr ⟨(hit, rank), mk_mem_zipIdx_iff_getElem?.mpr hrank, rfl⟩

theorem mem_addPprScores : cid ∈ fs.addPprScores P filter ppr scores ↔
    cid ∈ scores ∨ ∃ entry ∈ ppr.entries, fs.accepts P filter entry.1 = true ∧ entry.1 = cid := by
  refine foldl_iff (P := fun scores => cid ∈ scores) (fun scores entry => ?_)
  split
  · rename_i haccepts
    rw [mem_boost]
    simp [haccepts]
  · next haccepts => simp [haccepts]

theorem mem_addPathScores {paths : List (String × F32)} : cid ∈ (fs.addPathScores P filter limit paths scores).1 ↔
    cid ∈ scores ∨
      ∃ entry ∈ (paths.filter fun entry => fs.accepts P filter entry.1).take limit, entry.1 = cid := by
  exact foldl_iff (P := fun scores => cid ∈ scores)
    (fun scores entry => mem_boost)

theorem mem_scores_iff : cid ∈ scores ↔ ∃ entry ∈ scores.entries, entry.1 = cid := by
  exact mem_map

variable {graph : SearchGraph}

/-- The boost of causes concerns documents that have a score. -/
theorem mem_addCausalScores (h : cid ∈ (addCausalScores P graph scores).1) : cid ∈ scores := by
  have hscored {c : String} (h : c ∈ (sortByScore P.f32 Sigma.snd scores.entries).map Sigma.fst) : c ∈ scores := by
    obtain ⟨entry, hentry, rfl⟩ := mem_map.mp h
    exact mem_scores_iff.mpr ⟨entry, mem_sortByScore.mp hentry, rfl⟩
  unfold addCausalScores at h
  rw [foldl_iff (P := fun scores => cid ∈ scores)
    (fun scores pair => by rw [mem_boost, mem_boost, or_assoc])] at h
  obtain h | ⟨pair, hpair, hcid⟩ := h
  · exact h
  · obtain ⟨hmem, htop⟩ := mem_filter.mp hpair
    obtain ⟨c, hc, hcause⟩ := mem_flatMap.mp hmem
    obtain ⟨cause, -, rfl⟩ := mem_map.mp hcause
    obtain rfl | rfl := hcid
    · exact hscored hc
    · exact hscored (contains_iff_mem.mp htop)

theorem mem_bestBoosts {boosts : List (String × F32)} :
    cid ∈ boosts.foldl (fun (merged : Scores) entry =>
      match merged.lookup entry.1 with
      | some current => merged.insert entry.1 (if P.f32.lt current entry.2 then entry.2 else current)
      | none => merged.insert entry.1 entry.2) ∅ ↔ ∃ entry ∈ boosts, entry.1 = cid := by
  refine (foldl_iff (P := fun merged => cid ∈ merged) (Q := fun entry => entry.1 = cid)
    (fun merged entry => ?_)).trans ?_
  · split <;> rw [mem_insert, or_comm, eq_comm]
  · simp

/-- The documents that the paths lead to: those of their nodes that have no score yet. -/
theorem mem_discoverPaths : (∃ score, (cid, score) ∈ discoverPaths P graph scores) ↔
    2 ≤ (pathSeeds P graph scores).length ∧ cid ∉ scores ∧
      ∃ pair ∈ (seedPairs (pathSeeds P graph scores)).take 6, ∃ path ∈ graph.weightedPath pair.1 pair.2,
        ∃ node ∈ path, node.contentCid = some cid ∨ cid ∈ node.cids := by
  have hnodes {l : List (String × String)} {node : PathNode} :
      node ∈ (l.flatMap fun pair => (graph.weightedPath pair.1 pair.2).getD []) ↔
        ∃ pair ∈ l, ∃ path ∈ graph.weightedPath pair.1 pair.2, node ∈ path := by
    rw [mem_flatMap]
    refine exists_congr fun pair => and_congr_right fun _ => ?_
    cases graph.weightedPath pair.1 pair.2 <;> simp
  unfold discoverPaths
  dsimp only
  split
  · next hfew => simp [show ¬ 2 ≤ (pathSeeds P graph scores).length by omega]
  · have hsorted {merged : Scores} : (∃ score, (cid, score) ∈
        (sortByScore P.f32 Sigma.snd merged.entries).map fun entry => (entry.1, entry.2)) ↔ cid ∈ merged := by
      rw [mem_scores_iff]
      simp only [mem_map, mem_sortByScore, Prod.mk.injEq]
      exact ⟨fun ⟨_, entry, hentry, hcid, _⟩ => ⟨entry, hentry, hcid⟩,
        fun ⟨entry, hentry, hcid⟩ => ⟨entry.2, entry, hentry, hcid, rfl⟩⟩
    refine (hsorted.trans (mem_bestBoosts)).trans ?_
    have hnew : (scores.lookup cid).isNone = true ↔ cid ∉ scores := by
      rw [← lookup_isSome]
      simp
    constructor
    · rintro ⟨⟨c, amount⟩, hentry, rfl⟩
      obtain ⟨hboost, hscore⟩ := mem_filter.mp hentry
      obtain ⟨node, hnode, hboost⟩ := mem_flatMap.mp hboost
      obtain ⟨pair, hpair, path, hpath, hnode⟩ := hnodes.mp hnode
      refine ⟨by omega, hnew.mp hscore, pair, hpair, path, hpath, node, hnode, ?_⟩
      simpa using (mem_append.mp hboost).imp (mem_map_of_mem (f := Prod.fst)) (mem_map_of_mem (f := Prod.fst))
    · rintro ⟨-, hscore, pair, hpair, path, hpath, node, hnode, hcid⟩
      have hnode := hnodes.mpr ⟨pair, hpair, path, hpath, hnode⟩
      obtain hcid | hcid := hcid
      · refine ⟨(cid, 0x3e19999a#32), mem_filter.mpr ⟨mem_flatMap.mpr ⟨node, hnode, ?_⟩, hnew.mpr hscore⟩, rfl⟩
        exact mem_append_left _ (mem_map.mpr ⟨cid, Option.mem_toList.mpr hcid, rfl⟩)
      · refine ⟨(cid, 0x3dcccccd#32), mem_filter.mpr ⟨mem_flatMap.mpr ⟨node, hnode, ?_⟩, hnew.mpr hscore⟩, rfl⟩
        exact mem_append_right _ (mem_map.mpr ⟨cid, hcid, rfl⟩)

theorem names_of_discoverPaths (h : entry ∈ discoverPaths P graph scores) : graph.Names entry.1 := by
  obtain ⟨-, -, pair, -, path, hpath, node, hnode, hcid⟩ := mem_discoverPaths.mp ⟨entry.2, h⟩
  exact .inr (.inr ⟨pair.1, pair.2, path, hpath, node, hnode, hcid⟩)

theorem names_of_pprBoost (h : cid ∈ (pprBoost P graph query).1) : graph.Names cid := by
  unfold pprBoost at h
  dsimp only at h
  split at h
  · simp at h
  · split at h
    · simp at h
    · have hsource := foldl_source (P := fun boost : AList (fun _ => F32) => cid ∈ boost)
        (fun boost entry h => by
          rw [mem_insert] at h
          exact h.symm.imp_right Eq.symm) h
      obtain hnil | ⟨entry, hentry, rfl⟩ := hsource
      · simp at hnil
      · obtain ⟨node, -, hentry⟩ := mem_flatMap.mp hentry
        obtain ⟨c, hc, rfl⟩ := mem_map.mp hentry
        exact .inr (.inl ⟨node.1, hc⟩)

/-- The scores after the graph's boosts. -/
def graphScores (P : SearchPlatform) (env : SearchEnv) (fs : SemanticFS) (query : String) (limit : Nat)
    (filter : SearchFilter) (scores : Scores) : Scores :=
  match env.graph with
  | none => scores
  | some graph =>
    (addCausalScores P graph
      (if isMultihopQuery P query || isTemporalQuery P query then
        (fs.addPathScores P filter limit (discoverPaths P graph scores) scores).1
      else scores)).1

theorem rankCandidates_fst {execution : SearchExecution} :
    (fs.rankCandidates P env query limit filter hits candidates bm25Hits ppr execution).1 =
      (sortByScore P.f32 Sigma.snd (graphScores P env fs query limit filter (fs.addPprScores P filter ppr
        (fs.addBm25Scores P env query hits bm25Hits (vectorScores P env query hits)))).entries).map
          fun entry => (entry.1, entry.2) := by
  unfold rankCandidates graphScores
  cases env.graph with
  | none => rfl
  | some graph =>
    dsimp only
    split <;> rfl

theorem mem_graphScores (h : cid ∈ graphScores P env fs query limit filter scores) :
    cid ∈ scores ∨ (fs.accepts P filter cid = true ∧ ∃ graph ∈ env.graph, graph.Names cid) := by
  unfold graphScores at h
  cases hgraph : env.graph with
  | none =>
    rw [hgraph] at h
    exact .inl h
  | some graph =>
    rw [hgraph] at h
    replace h := mem_addCausalScores h
    split at h
    · obtain h | ⟨entry, hentry, rfl⟩ := mem_addPathScores.mp h
      · exact .inl h
      · obtain ⟨hpath, haccepts⟩ := mem_filter.mp (mem_of_mem_take hentry)
        exact .inr ⟨haccepts, graph, rfl, names_of_discoverPaths hpath⟩
    · exact .inl h

end

/-! ## Results -/

/-- The document that stands for a candidate in the results: the parent that its tags name, if it is stored. -/
def shown (sha256 : Bytes → String) (fs : SemanticFS) (cid : String) (tags : List String) : String :=
  match parentCid tags with
  | none => cid
  | some parent => if (fs.cas.getRaw sha256 parent).toOption.isSome then parent else cid

theorem mem_resolveParentChunks {seen : List String} (h : r ∈ fs.resolveParentChunks P seen results) :
    ∃ r' ∈ results, r.cid = shown P.sha256 fs r'.cid r'.meta_.tags := by
  induction results generalizing seen with
  | nil => cases h
  | cons r' results ih =>
    have hrest {seen : List String} (h : r ∈ fs.resolveParentChunks P seen results) :
        ∃ r'' ∈ r' :: results, r.cid = shown P.sha256 fs r''.cid r''.meta_.tags := by
      obtain ⟨r'', hmem, hcid⟩ := ih h
      exact ⟨r'', mem_cons_of_mem r' hmem, hcid⟩
    unfold resolveParentChunks CASStorage.get at h
    cases hparent : parentCid r'.meta_.tags with
    | none =>
      rw [hparent] at h
      obtain rfl | h := mem_cons.mp h
      · exact ⟨r, mem_cons_self, by rw [shown, hparent]⟩
      · exact hrest h
    | some parent =>
      rw [hparent] at h
      dsimp only at h
      split at h
      · exact hrest h
      · cases hobj : fs.cas.getRaw P.sha256 parent with
        | ok | error =>
          rw [hobj] at h
          obtain heq | h := mem_cons.mp h
          · refine ⟨r', mem_cons_self, ?_⟩
            simp [heq, shown, hparent, hobj, Except.toOption]
          · exact hrest h

theorem mem_mergeHits {merged : List SearchResult} {hits : List (String × F32)}
    (h : r ∈ fs.mergeHits P filter limit merged hits) :
    r ∈ merged ∨ (fs.accepts P filter r.cid = true ∧ ∃ hit ∈ hits, hit.1 = r.cid) := by
  induction hits generalizing merged with
  | nil => exact .inl h
  | cons hit hits ih =>
    have hrest {merged' : List SearchResult} h :
        r ∈ merged' ∨ (fs.accepts P filter r.cid = true ∧ ∃ hit' ∈ hit :: hits, hit'.1 = r.cid) :=
      (ih h).imp_right fun ⟨haccepts, hit', hmem, hcid⟩ => ⟨haccepts, hit', mem_cons_of_mem hit hmem, hcid⟩
    unfold mergeHits at h
    split at h
    · exact hrest h
    · split at h
      · exact .inl h
      · split at h
        · rename_i result hresult
          obtain hmem | hacc := hrest h
          · obtain hmem | rfl := mem_concat.mp hmem
            · exact .inl hmem
            · obtain ⟨hcid, haccepts⟩ := accepts_of_acceptedResult hresult
              exact .inr ⟨haccepts, hit, mem_cons_self, hcid.symm⟩
          · exact .inr hacc
        · exact hrest h

variable {query : String} {hit : String × F32}

theorem mem_bm25_of_bm25Search (h : hit ∈ fs.bm25Search env query limit) : hit.1 ∈ fs.bm25Index := by
  unfold bm25Search at h
  split at h
  · cases h
  · exact lookup_isSome.mp (mem_filter.mp (mem_of_mem_take h)).2

theorem accepted_of_bm25Hits (h : hit ∈ (fs.bm25Search env query limit).filter fun hit => fs.accepts P filter hit.1) :
    fs.accepts P filter hit.1 = true ∧ hit.1 ∈ fs.bm25Index := by
  obtain ⟨hmem, haccepts⟩ := mem_filter.mp h
  exact ⟨haccepts, mem_bm25_of_bm25Search hmem⟩

theorem mem_iterativeRetrieve {firstPass : List SearchResult}
    (h : r ∈ fs.iterativeRetrieve P env firstPass limit filter) :
    r ∈ firstPass ∨ (fs.accepts P filter r.cid = true ∧ r.cid ∈ fs.bm25Index) := by
  unfold iterativeRetrieve at h
  dsimp only at h
  split at h
  · exact .inl h
  · refine (mem_mergeHits h).imp_right fun ⟨haccepts, hit, hhit, hcid⟩ => ⟨haccepts, ?_⟩
    exact hcid ▸ mem_bm25_of_bm25Search hhit

theorem mem_tagFallbackLoop {cids : List String} (h : r ∈ (fs.tagFallbackLoop P filter results candidates cids).1) :
    r ∈ results ∨ (fs.accepts P filter r.cid = true ∧ r.cid ∈ cids) := by
  induction cids generalizing results candidates with
  | nil => exact .inl h
  | cons c cids ih =>
    unfold tagFallbackLoop at h
    split at h
    · exact .inl h
    · split at h
      · rename_i result hresult
        obtain hmem | ⟨haccepts, hmem⟩ := ih h
        · obtain hmem | rfl := mem_concat.mp hmem
          · exact .inl hmem
          · obtain ⟨hcid, haccepts⟩ := accepts_of_acceptedResult hresult
            exact .inr ⟨haccepts, hcid ▸ mem_cons_self⟩
        · exact .inr ⟨haccepts, mem_cons_of_mem c hmem⟩
      · exact (ih h).imp_right fun ⟨haccepts, hmem⟩ => ⟨haccepts, mem_cons_of_mem c hmem⟩

/-! ## The whole search -/

/-- The document has a place in one of the indexes of words and tags, or the components outside name it. -/
def Offered (env : SearchEnv) (fs : SemanticFS) (cid : String) : Prop :=
  cid ∈ fs.bm25Index ∨ (∃ entry ∈ fs.tagIndex.entries, cid ∈ entry.2) ∨ env.Names cid

/-- The document is ranked: the vector index admits it, or it was accepted on another path. -/
def Ranked (sha256 : Bytes → String) (env : SearchEnv) (fs : SemanticFS) (filter : SearchFilter) (cid : String) :
    Prop :=
  fs.Indexed filter cid ∨
    (Holds sha256 fs cid (fun meta_ => filter.isMatch (indexMeta meta_) = true) ∧
      (cid ∈ fs.bm25Index ∨ ∃ graph ∈ env.graph, graph.Names cid))

/-- Ranking takes place once the vectors or the words offer a document. -/
def Started (sha256 : Bytes → String) (fs : SemanticFS) (filter : SearchFilter) : Prop :=
  ∃ cid, fs.Indexed filter cid ∨
    (cid ∈ fs.bm25Index ∧ Holds sha256 fs cid fun meta_ => filter.isMatch (indexMeta meta_) = true)

/-- A result was accepted by the filter, or it stands for a ranked document. -/
inductive Sourced (sha256 : Bytes → String) (env : SearchEnv) (fs : SemanticFS) (filter : SearchFilter) :
    SearchResult → Prop
  | accepted {r : SearchResult} (offered : fs.Offered env r.cid ∨ Ranked sha256 env fs filter r.cid)
      (passes : Holds sha256 fs r.cid fun meta_ => filter.isMatch (indexMeta meta_) = true) :
      Sourced sha256 env fs filter r
  | ranked {r : SearchResult} {cid : String} {obj : AIObject} (started : Started sha256 fs filter)
      (ranked : Ranked sha256 env fs filter cid) (stored : fs.cas.getRaw sha256 cid = .ok obj)
      (shown : r.cid = shown sha256 fs cid obj.meta_.tags) : Sourced sha256 env fs filter r

variable {execution : SearchExecution}

theorem sourced_of_finishSearch {sorted : List (String × F32)} (hstarted : Started P.sha256 fs filter)
    (hranked : ∀ entry ∈ sorted, Ranked P.sha256 env fs filter entry.1)
    (h : r ∈ (fs.finishSearch P env query limit filter sorted execution).1.results) :
    Sourced P.sha256 env fs filter r := by
  have hresolved (h : r ∈ fs.resolveParentChunks P []
      ((sorted.take limit).filterMap fun entry => fs.resultOf P entry.1 entry.2)) :
      Sourced P.sha256 env fs filter r := by
    obtain ⟨r', hr', hcid⟩ := mem_resolveParentChunks h
    obtain ⟨entry, hentry, hresult⟩ := mem_filterMap.mp hr'
    obtain ⟨hcid', obj, hobj, hmeta⟩ := resultOf_eq_some hresult
    rw [hcid', hmeta] at hcid
    exact .ranked hstarted (hranked entry (mem_of_mem_take hentry)) hobj hcid
  unfold finishSearch at h
  dsimp only at h
  split at h
  · rename_i reranked hreranked
    obtain ⟨rerank, hrerank, hanswer⟩ := Option.map_eq_some_iff.mp hreranked
    obtain ⟨entry, hentry, hresult⟩ := mem_filterMap.mp h
    obtain ⟨hcid, haccepts⟩ := accepts_of_acceptedResult hresult
    refine .accepted ?_ (accepts_iff.mp haccepts)
    by_cases hgiven : r.cid ∈ (fs.rerankCandidates P limit sorted).map Prod.fst
    · obtain ⟨candidate, hcandidate, hname⟩ := mem_map.mp hgiven
      obtain ⟨entry, hentry, hmap⟩ := mem_filterMap.mp hcandidate
      obtain ⟨obj, -, rfl⟩ := Option.map_eq_some_iff.mp hmap
      exact .inr (hname ▸ hranked entry (mem_of_mem_take hentry))
    · refine .inl (.inr (.inr (.inr ⟨rerank, hrerank, _, hgiven, reranked, hanswer, entry.2, ?_⟩)))
      rw [hcid]
      exact mem_of_mem_take hentry
  · split at h
    · split at h
      · obtain h | ⟨haccepts, hbm25⟩ := mem_iterativeRetrieve h
        · exact hresolved h
        · exact .accepted (.inl (.inl hbm25)) (accepts_iff.mp haccepts)
      · exact hresolved h
    · exact hresolved h

section

variable (hbm25 : ∀ hit ∈ bm25Hits, fs.accepts P filter hit.1 = true ∧ hit.1 ∈ fs.bm25Index)
include hbm25

theorem ranked_of_rankCandidates (hppr : ∀ cid ∈ ppr, ∃ graph ∈ env.graph, graph.Names cid)
    (h : entry ∈ (fs.rankCandidates P env query limit filter (fs.vectorHits P env limit filter) candidates bm25Hits
      ppr execution).1) : Ranked P.sha256 env fs filter entry.1 := by
  rw [rankCandidates_fst] at h
  obtain ⟨scored, hscored, rfl⟩ := mem_map.mp h
  obtain h | ⟨haccepts, hnames⟩ := mem_graphScores (mem_scores_iff.mpr ⟨scored, mem_sortByScore.mp hscored, rfl⟩)
  · obtain h | ⟨entry, hentry, haccepts, hcid⟩ := mem_addPprScores.mp h
    · obtain h | ⟨hit, hhit, hcid⟩ := mem_addBm25Scores.mp h
      · obtain ⟨hit, hhit, hcid⟩ := mem_vectorScores.mp h
        exact .inl (hcid ▸ mem_vectorHits hhit)
      · obtain ⟨haccepts, hindexed⟩ := hbm25 hit hhit
        rw [hcid] at haccepts hindexed
        exact .inr ⟨accepts_iff.mp haccepts, .inl hindexed⟩
    · rw [hcid] at haccepts
      have hmem : scored.1 ∈ ppr := hcid ▸ mem_scores_iff.mpr ⟨entry, hentry, rfl⟩
      exact .inr ⟨accepts_iff.mp haccepts, .inr (hppr _ hmem)⟩
  · exact .inr ⟨accepts_iff.mp haccepts, .inr hnames⟩

/-- Ranking takes place only when there is a hit. -/
theorem started_of_hits (h : ((fs.vectorHits P env limit filter).entries.isEmpty && bm25Hits.isEmpty) = false) :
    Started P.sha256 fs filter := by
  cases hhits : (fs.vectorHits P env limit filter).entries with
  | cons entry entries =>
    have hmem : entry.2 ∈ (fs.vectorHits P env limit filter).entries.map Sigma.snd := by
      rw [hhits]
      exact mem_cons_self
    exact ⟨entry.2.cid, .inl (mem_vectorHits hmem)⟩
  | nil =>
    cases bm25Hits with
    | nil => simp [hhits] at h
    | cons hit hits =>
      obtain ⟨haccepts, hindexed⟩ := hbm25 hit mem_cons_self
      exact ⟨hit.1, .inr ⟨hindexed, accepts_iff.mp haccepts⟩⟩

end

theorem sourced_of_searchHybrid (h : r ∈ (fs.searchHybrid P env query limit filter execution).1.results) :
    Sourced P.sha256 env fs filter r := by
  unfold searchHybrid at h
  dsimp only at h
  split at h
  · obtain hnil | ⟨haccepts, hmem⟩ := mem_tagFallbackLoop h
    · cases hnil
    · obtain ⟨entry, hentry, hcid⟩ := mem_flatMap.mp hmem
      exact .accepted (.inl (.inr (.inl ⟨entry, (mem_filter.mp hentry).1, hcid⟩))) (accepts_iff.mp haccepts)
  · rename_i hhits
    have hstarted := started_of_hits (fun _ => accepted_of_bm25Hits) (Bool.not_eq_true _ ▸ hhits)
    refine sourced_of_finishSearch hstarted (fun entry hentry => ?_) h
    refine ranked_of_rankCandidates (fun _ => accepted_of_bm25Hits) (fun cid hcid => ?_) hentry
    split at hcid
    · cases hgraph : env.graph with
      | none => simp [hgraph] at hcid
      | some graph =>
        rw [hgraph] at hcid
        exact ⟨graph, rfl, names_of_pprBoost hcid⟩
    · simp at hcid

theorem mem_of_mem_distinct {l : List String}
    (h : cid ∈ l.foldl (fun cids cid => if cid ∈ cids then cids else cids ++ [cid]) []) : cid ∈ l := by
  obtain hnil | ⟨c, hc, rfl⟩ := foldl_source
    (fun cids c h => by
      split at h
      · exact .inl h
      · exact (mem_append.mp h).imp_right fun h => (mem_singleton.mp h).symm) h
  · cases hnil
  · exact hc

theorem sourced_of_searchTemporalViaKg {graph : SearchGraph} (hgraph : env.graph = some graph)
    (h : r ∈ (fs.searchTemporalViaKg P graph query limit filter).1) : Sourced P.sha256 env fs filter r := by
  unfold searchTemporalViaKg at h
  split at h
  · cases h
  · rename_i events hevents
    obtain ⟨i, hi, rfl⟩ := mem_mapIdx.mp h
    have hmem := mem_of_mem_take (getElem_mem hi)
    obtain ⟨cid, hcid, hresult⟩ := mem_filterMap.mp hmem
    obtain ⟨heq, haccepts⟩ := accepts_of_acceptedResult hresult
    refine .accepted (.inl (.inr (.inr (.inl ⟨graph, hgraph, .inl ⟨events, hevents, ?_⟩⟩)))) (accepts_iff.mp haccepts)
    -- the list of documents holds those of the events and of what follows them
    obtain ⟨event, hevent, hc⟩ := mem_flatMap.mp (mem_of_mem_distinct hcid)
    refine ⟨event, (mem_filter.mp (mem_mergeSort.mp hevent)).1, ?_⟩
    rw [heq]
    obtain hc | hc := mem_append.mp hc
    · exact .inl (Option.mem_toList.mp hc)
    · obtain ⟨o, ho, rfl⟩ := mem_filterMap.mp hc
      exact .inr ho

theorem sourced_of_searchFresh (h : r ∈ (fs.searchFresh P env query limit filter).1.results) :
    Sourced P.sha256 env fs filter r := by
  unfold searchFresh at h
  dsimp only at h
  split at h
  · exact sourced_of_searchHybrid h
  · rename_i graph hgraph
    have hgraph : env.graph = some graph := by
      split at hgraph
      · exact hgraph
      · cases hgraph
    split at h
    · exact sourced_of_searchHybrid h
    · exact sourced_of_searchTemporalViaKg hgraph h

end SemanticFS

end Plico.Fs
