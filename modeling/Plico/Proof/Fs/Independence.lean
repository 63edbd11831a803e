import Plico.Model.Kernel.Requests
import Plico.Proof.Cas.Storage
import Plico.Proof.Fs.Visibility

/-!
# What a search tells about objects that are private to other roles

Two filesystems that differ only in objects private to other roles (`SameFor`) are searched by the same role with the
same answers from outside. The filter keeps such objects from being accepted, but not from being counted: the report
has the number of candidates of the keyword index and of the tag index before the filter. Where the vector index
offers no such object and no readable chunk names one as its parent, the two searches agree for every query exactly
when the keyword indexes name the same documents and the tags lead to the same documents, equally far. The order of
the entries of a table is the order in which the source iterates over its hash map, so it is part of the stores that
are compared: `SameFor` does not ask for it, and the conditions say where an answer depends on it.
-/

namespace Plico.Fs.SemanticFS

open AList HnswBackend List Plico.Cas

variable {P : SearchPlatform} {env : SearchEnv} {fs fs₁ fs₂ : SemanticFS} {filter : SearchFilter}
  {roleId namespace_ cid query : String} {execution : SearchExecution} {candidates limit : Nat}
  {results : List SearchResult} {relevance : F32}

/-- The object is stored and is not private to another role. -/
def readable (sha256 : Bytes → String) (roleId : String) (fs : SemanticFS) (cid : String) : Bool :=
  match fs.cas.getRaw sha256 cid with
  | .ok obj => obj.meta_.scope != .private_ || obj.meta_.createdBy == roleId
  | .error _ => false

/-- The documents of the tags, tag by tag in the order of iteration. -/
def postings (fs : SemanticFS) (p : String → Bool) : List String :=
  (fs.tagIndex.entries.filter fun entry => p entry.1).flatMap Sigma.snd

/-- The filesystems differ only in objects that are private to other roles: the other objects and their entries in the
indexes are the same, in whatever order the indexes are iterated. -/
structure SameFor (sha256 : Bytes → String) (roleId : String) (fs₁ fs₂ : SemanticFS) : Prop where
  objects : ∀ cid, fs₁.cas.getRaw sha256 cid = fs₂.cas.getRaw sha256 cid ∨
    (readable sha256 roleId fs₁ cid = false ∧ readable sha256 roleId fs₂ cid = false)
  dim : fs₁.searchIndex.dim = fs₂.searchIndex.dim
  vectors : ∀ cid, readable sha256 roleId fs₁ cid = true →
    fs₁.searchIndex.entries.lookup cid = fs₂.searchIndex.entries.lookup cid
  words : ∀ cid, readable sha256 roleId fs₁ cid = true → (cid ∈ fs₁.bm25Index ↔ cid ∈ fs₂.bm25Index)
  tags : ∀ tag, ((fs₁.tagIndex.lookup tag).getD []).filter (readable sha256 roleId fs₁) =
    ((fs₂.tagIndex.lookup tag).getD []).filter (readable sha256 roleId fs₂)

/-- Every entry that the vector index offers under the filter is of a readable object. -/
def OffersReadable (sha256 : Bytes → String) (roleId : String) (filter : SearchFilter) (fs : SemanticFS) : Prop :=
  ∀ entry ∈ fs.searchIndex.entries.entries, admits filter entry.2 = true →
    readable sha256 roleId fs entry.1 = true

/-- The searches of the vector index agree: they offer readable objects only, the same ones in the same order of
iteration, by the same of the two algorithms. -/
structure SameVectors (sha256 : Bytes → String) (roleId : String) (filter : SearchFilter) (fs₁ fs₂ : SemanticFS) :
    Prop where
  readable : OffersReadable sha256 roleId filter fs₁
  order : fs₁.searchIndex.entries.entries.filter (fun entry => admits filter entry.2) =
    fs₂.searchIndex.entries.entries.filter fun entry => admits filter entry.2
  size : 1000 ≤ fs₁.searchIndex.entries.entries.length ↔ 1000 ≤ fs₂.searchIndex.entries.entries.length

/-- The parent that the tags of a readable object name is the same object in both. -/
def SameParents (sha256 : Bytes → String) (roleId : String) (fs₁ fs₂ : SemanticFS) : Prop :=
  ∀ cid obj, fs₁.cas.getRaw sha256 cid = .ok obj → readable sha256 roleId fs₁ cid = true →
    ∀ parent ∈ parentCid obj.meta_.tags, fs₁.cas.getRaw sha256 parent = fs₂.cas.getRaw sha256 parent

/-! ## Objects -/

section Objects

variable (hsame : SameFor P.sha256 roleId fs₁ fs₂)

include hsame

section

variable (h : readable P.sha256 roleId fs₁ cid = true)
include h

theorem SameFor.getRaw_eq : fs₁.cas.getRaw P.sha256 cid = fs₂.cas.getRaw P.sha256 cid := by
  obtain heq | ⟨h₁, -⟩ := hsame.objects cid
  · exact heq
  · rw [h] at h₁
    cases h₁

theorem SameFor.resultOf_eq : fs₁.resultOf P cid relevance = fs₂.resultOf P cid relevance := by
  simp only [resultOf, CASStorage.get, hsame.getRaw_eq h]

theorem SameFor.storedChunk_eq : fs₁.storedChunk P cid = fs₂.storedChunk P cid := by
  simp only [storedChunk, hsame.getRaw_eq h]

end

end Objects

/-- What the filter of a role accepts is readable. -/
theorem readable_of_accepts (haccess : filter.access = some ⟨roleId, namespace_, false⟩)
    (h : fs.accepts P filter cid = true) : readable P.sha256 roleId fs cid = true := by
  obtain ⟨obj, hobj, hmatch⟩ := accepts_iff.mp h
  simp only [SearchFilter.isMatch, haccess, SearchAccess.admits, Option.all_some, Bool.and_eq_true] at hmatch
  rw [readable, hobj]
  exact hmatch.1.1.1.1.1.1.2

theorem not_accepts (haccess : filter.access = some ⟨roleId, namespace_, false⟩)
    (h : readable P.sha256 roleId fs cid = false) : fs.accepts P filter cid = false := by
  by_contra hacc
  rw [readable_of_accepts haccess (Bool.not_eq_false _ ▸ hacc)] at h
  cases h

theorem acceptedResult_isSome : (fs.acceptedResult P filter cid relevance).isSome = fs.accepts P filter cid := by
  unfold acceptedResult resultOf accepts CASStorage.get
  cases fs.cas.getRaw P.sha256 cid with
  | error => rfl
  | ok obj => cases hmatch : filter.isMatch (indexMeta obj.meta_) <;> simp [hmatch]

theorem acceptedResult_eq_none (h : fs.accepts P filter cid = false) :
    fs.acceptedResult P filter cid relevance = none := by
  rw [← Option.not_isSome_iff_eq_none, acceptedResult_isSome, h]
  exact Bool.false_ne_true

section Accepted

variable (hsame : SameFor P.sha256 roleId fs₁ fs₂) (haccess : filter.access = some ⟨roleId, namespace_, false⟩)

include hsame haccess

theorem SameFor.accepts_eq (cid : String) : fs₁.accepts P filter cid = fs₂.accepts P filter cid := by
  obtain heq | ⟨h₁, h₂⟩ := hsame.objects cid
  · simp only [accepts, heq]
  · rw [not_accepts haccess h₁, not_accepts haccess h₂]

theorem SameFor.acceptedResult_eq (cid : String) (relevance : F32) :
    fs₁.acceptedResult P filter cid relevance = fs₂.acceptedResult P filter cid relevance := by
  have haccepts := hsame.accepts_eq haccess cid
  cases hacc : fs₁.accepts P filter cid with
  | true => simp only [acceptedResult, hsame.resultOf_eq (readable_of_accepts haccess hacc)]
  | false => rw [acceptedResult_eq_none hacc, acceptedResult_eq_none (haccepts ▸ hacc)]

theorem SameFor.mergeHits_eq {merged : List SearchResult} {hits : List (String × F32)} :
    fs₁.mergeHits P filter limit merged hits = fs₂.mergeHits P filter limit merged hits := by
  induction hits generalizing merged with
  | nil => rfl
  | cons hit hits ih => simp only [mergeHits, hsame.acceptedResult_eq haccess, ih]

end Accepted

/-! ## The vector index -/

section Vectors

variable (hvectors : SameVectors P.sha256 roleId filter fs₁ fs₂)

include hvectors

theorem SameVectors.lookup_offered (cid : String) :
    (fs₁.searchIndex.entries.lookup cid).filter (admits filter) =
      (fs₂.searchIndex.entries.lookup cid).filter (admits filter) := by
  have hmem (fs : SemanticFS) entry :
      (fs.searchIndex.entries.lookup cid).filter (admits filter) = some entry ↔
        (⟨cid, entry⟩) ∈
          fs.searchIndex.entries.entries.filter fun entry => admits filter entry.2 := by
    rw [Option.filter_eq_some_iff, mem_filter, ← mem_lookup_iff, Option.mem_def]
  refine Option.ext fun entry => ?_
  rw [hmem, hmem, hvectors.order]

variable (hdim : fs₁.searchIndex.dim = fs₂.searchIndex.dim)

include hdim

theorem SameVectors.search_eq (query : Embedding) (k : Nat) :
    fs₁.searchIndex.search P.f32 env.neighbours query k filter =
      fs₂.searchIndex.search P.f32 env.neighbours query k filter := by
  simp only [search, hdim, hvectors.size, hvectors.order]
  refine ite_congr rfl (fun _ => rfl) fun _ => ite_congr rfl (fun _ => rfl) fun _ =>
    congrArg (List.take k) (filterMap_congr fun near _ => ?_)
  have hoffered := hvectors.lookup_offered near.1
  cases h₁ : fs₁.searchIndex.entries.lookup near.1 <;> cases h₂ : fs₂.searchIndex.entries.lookup near.1
  all_goals
    grind [Option.filter]

theorem SameVectors.vectorHits_eq :
    fs₁.vectorHits P env limit filter = fs₂.vectorHits P env limit filter := by
  simp only [vectorHits, hvectors.search_eq hdim]

end Vectors

/-! ## The keyword index -/

/-- The keyword indexes name the same documents. -/
def SameWords (fs₁ fs₂ : SemanticFS) : Prop :=
  ∀ cid, cid ∈ fs₁.bm25Index ↔ cid ∈ fs₂.bm25Index

section Words

variable (hwords : SameWords fs₁ fs₂)

include hwords

theorem SameWords.length_eq : fs₁.bm25Index.entries.length = fs₂.bm25Index.entries.length := by
  have hkeys := (perm_ext_iff_of_nodup fs₁.bm25Index.nodupKeys fs₂.bm25Index.nodupKeys).mpr hwords
  simpa [AList.keys, List.keys] using hkeys.length_eq

theorem SameWords.bm25Search_eq :
    fs₁.bm25Search env query limit = fs₂.bm25Search env query limit := by
  have hsome cid : (fs₁.bm25Index.lookup cid).isSome = (fs₂.bm25Index.lookup cid).isSome := by
    rw [Bool.eq_iff_iff, lookup_isSome, lookup_isSome]
    exact hwords cid
  simp only [bm25Search, hsome]

end Words

/-! ## Ranking -/

section Ranking

variable (hsame : SameFor P.sha256 roleId fs₁ fs₂) {hits : AList (fun _ : String => SearchHit)}
  {bm25Hits : List (String × F32)}

include hsame

theorem SameFor.addBm25Scores_eq {query : String}
    (hreadable : ∀ hit ∈ bm25Hits, readable P.sha256 roleId fs₁ hit.1 = true) {scores : Scores} :
    fs₁.addBm25Scores P env query hits bm25Hits scores = fs₂.addBm25Scores P env query hits bm25Hits scores := by
  refine foldl_ext _ _ scores fun scores hit hhit => ?_
  simp only [hsame.storedChunk_eq (hreadable hit.1 (fst_mem_of_mem_zipIdx hhit))]

/-- Without a graph, the ranking is that of the vectors and the words. -/
theorem SameFor.rankCandidates_eq (hgraph : env.graph = none)
    (hreadable : ∀ hit ∈ bm25Hits, readable P.sha256 roleId fs₁ hit.1 = true) :
    fs₁.rankCandidates P env query limit filter hits candidates bm25Hits ∅ execution =
      fs₂.rankCandidates P env query limit filter hits candidates bm25Hits ∅ execution := by
  simp [rankCandidates, hgraph, addPprScores, hsame.addBm25Scores_eq hreadable]

end Ranking

/-! ## After ranking -/

theorem SameParents.resolveParentChunks_eq (hparents : SameParents P.sha256 roleId fs₁ fs₂)
    (hresults : ∀ r ∈ results, ∃ cid obj, fs₁.cas.getRaw P.sha256 cid = .ok obj ∧
      readable P.sha256 roleId fs₁ cid = true ∧ r.meta_ = obj.meta_) (seen : List String) :
    fs₁.resolveParentChunks P seen results = fs₂.resolveParentChunks P seen results := by
  induction results generalizing seen with
  | nil => rfl
  | cons r results ih =>
    have hrest := ih fun r' hr' => hresults r' (mem_cons_of_mem r hr')
    obtain ⟨cid, obj, hobj, hread, hmeta⟩ := hresults r mem_cons_self
    unfold resolveParentChunks
    cases hparent : parentCid r.meta_.tags with
    | none => simp only [hrest]
    | some parent =>
      simp only [CASStorage.get, hparents cid obj hobj hread parent (hmeta ▸ hparent), hrest]

section Finish

variable (hsame : SameFor P.sha256 roleId fs₁ fs₂) {sorted : List (String × F32)}
  (hsorted : ∀ entry ∈ sorted, readable P.sha256 roleId fs₁ entry.1 = true)

include hsame hsorted

theorem SameFor.rerankCandidates_eq :
    fs₁.rerankCandidates P limit sorted = fs₂.rerankCandidates P limit sorted := by
  refine filterMap_congr fun entry hentry => ?_
  simp only [CASStorage.get, hsame.getRaw_eq (hsorted entry (mem_of_mem_take hentry))]

theorem SameFor.results_eq :
    (sorted.take limit).filterMap (fun entry => fs₁.resultOf P entry.1 entry.2) =
      (sorted.take limit).filterMap fun entry => fs₂.resultOf P entry.1 entry.2 :=
  filterMap_congr fun entry hentry => hsame.resultOf_eq (hsorted entry (mem_of_mem_take hentry))

/-- The best candidates with their parents. -/
theorem SameFor.resolved_eq (hparents : SameParents P.sha256 roleId fs₁ fs₂) :
    fs₁.resolveParentChunks P [] ((sorted.take limit).filterMap fun entry => fs₁.resultOf P entry.1 entry.2) =
      fs₂.resolveParentChunks P [] ((sorted.take limit).filterMap fun entry => fs₂.resultOf P entry.1 entry.2) := by
  rw [← hsame.results_eq hsorted]
  refine hparents.resolveParentChunks_eq (fun r hr => ?_) []
  obtain ⟨entry, hentry, hresult⟩ := mem_filterMap.mp hr
  obtain ⟨-, obj, hobj, hmeta⟩ := resultOf_eq_some hresult
  exact ⟨entry.1, obj, hobj, hsorted entry (mem_of_mem_take hentry), hmeta⟩

theorem SameFor.finishSearch_eq (haccess : filter.access = some ⟨roleId, namespace_, false⟩)
    (hwords : SameWords fs₁ fs₂) (hparents : SameParents P.sha256 roleId fs₁ fs₂) :
    fs₁.finishSearch P env query limit filter sorted execution =
      fs₂.finishSearch P env query limit filter sorted execution := by
  have hretrieve firstPass :
      fs₁.iterativeRetrieve P env firstPass limit filter = fs₂.iterativeRetrieve P env firstPass limit filter := by
    simp only [iterativeRetrieve, hsame.mergeHits_eq haccess, hwords.bm25Search_eq]
  unfold finishSearch
  simp only [hsame.rerankCandidates_eq hsorted, hsame.acceptedResult_eq haccess, hsame.resolved_eq hsorted hparents,
    hretrieve]

end Finish

/-! ## The tags -/

/-- How many of the documents are looked at until `n` of them were accepted. -/
def followed (p : String → Bool) : Nat → List String → Nat
  | _, [] => 0
  | n, cid :: cids => if n = 0 then 0 else followed p (if p cid then n - 1 else n) cids + 1

theorem tagFallbackLoop_eq {cids : List String} :
    fs.tagFallbackLoop P filter results candidates cids =
      (results ++ ((cids.filter (fs.accepts P filter)).take (50 - results.length)).filterMap fun cid =>
          fs.acceptedResult P filter cid 0x3f4ccccd#32,
        candidates + followed (fs.accepts P filter) (50 - results.length) cids) := by
  induction cids generalizing results candidates with
  | nil => simp [tagFallbackLoop, followed]
  | cons cid cids ih =>
    by_cases hfull : 50 ≤ results.length
    · simp [tagFallbackLoop, followed, hfull]
    · have hroom : 50 - results.length ≠ 0 := by omega
      obtain ⟨n, hn⟩ := Nat.exists_eq_succ_of_ne_zero hroom
      have hsome : (fs.acceptedResult P filter cid 0x3f4ccccd#32).isSome = fs.accepts P filter cid :=
        acceptedResult_isSome
      cases hresult : fs.acceptedResult P filter cid 0x3f4ccccd#32 with
      | some result =>
        rw [hresult, Option.isSome_some] at hsome
        have hless : 50 - (results ++ [result]).length = n := by
          rw [length_append, length_singleton]
          omega
        simp only [tagFallbackLoop, if_neg hfull, hresult, ih, hless, followed, filter_cons, ← hsome, if_true, hn,
          Nat.succ_eq_add_one, Nat.add_one_ne_zero, if_false, Nat.add_sub_cancel, filterMap_cons, take_succ_cons,
          append_assoc, singleton_append, Prod.mk.injEq, true_and]
        omega
      | none =>
        rw [hresult, Option.isSome_none] at hsome
        simp only [tagFallbackLoop, if_neg hfull, hresult, ih, followed, if_neg hroom, filter_cons, ← hsome,
          Bool.false_eq_true, if_false, Prod.mk.injEq, true_and]
        omega

/-- The tags that a query meets. -/
def meets (P : SearchPlatform) (query tag : String) : Bool :=
  caseInsensitiveContains P tag (P.toLowercase query)

/-- The documents that the fallback accepts for a query, in the order of iteration, up to its limit. -/
def fallback (P : SearchPlatform) (filter : SearchFilter) (fs : SemanticFS) (query : String) : List String :=
  ((fs.postings (meets P query)).filter (fs.accepts P filter)).take 50

/-- For every query, the fallback accepts the same documents in the same order and looks at equally many. -/
def SameFallback (P : SearchPlatform) (filter : SearchFilter) (fs₁ fs₂ : SemanticFS) : Prop :=
  ∀ query, fallback P filter fs₁ query = fallback P filter fs₂ query ∧
    followed (fs₁.accepts P filter) 50 (fs₁.postings (meets P query)) =
      followed (fs₂.accepts P filter) 50 (fs₂.postings (meets P query))

theorem searchByTagsWithFilter_eq {query : String} :
    fs.searchByTagsWithFilter P query filter =
      ((fallback P filter fs query).filterMap fun cid => fs.acceptedResult P filter cid 0x3f4ccccd#32,
        followed (fs.accepts P filter) 50 (fs.postings (meets P query))) := by
  rw [searchByTagsWithFilter, tagFallbackLoop_eq]
  simp only [Nat.zero_add]
  rfl

theorem map_cid_acceptedResults {cids : List String} (h : ∀ cid ∈ cids, fs.accepts P filter cid = true) :
    (cids.filterMap fun cid => fs.acceptedResult P filter cid relevance).map (·.cid) = cids := by
  induction cids with
  | nil => rfl
  | cons cid cids ih =>
    have hsome : (fs.acceptedResult P filter cid relevance).isSome = true :=
      acceptedResult_isSome.trans (h cid mem_cons_self)
    obtain ⟨result, hresult⟩ := Option.isSome_iff_exists.mp hsome
    rw [filterMap_cons_some (f := fun cid => fs.acceptedResult P filter cid relevance) hresult, map_cons,
      ih fun c hc => h c (mem_cons_of_mem cid hc), (resultOf_eq_some (Option.filter_eq_some_iff.mp hresult).1).1]

/-! ## The search -/

theorem searchFresh_of_no_graph (hgraph : env.graph = none) :
    fs.searchFresh P env query limit filter =
      fs.searchHybrid P env query limit filter ⟨[], .notProbed env.provider⟩ := by
  simp [searchFresh, hgraph]

theorem SameFor.searchHybrid_eq (hsame : SameFor P.sha256 roleId fs₁ fs₂)
    (haccess : filter.access = some ⟨roleId, namespace_, false⟩)
    (hvectors : SameVectors P.sha256 roleId filter fs₁ fs₂) (hparents : SameParents P.sha256 roleId fs₁ fs₂)
    (hwords : SameWords fs₁ fs₂) (hfallback : SameFallback P filter fs₁ fs₂) (hgraph : env.graph = none) :
    fs₁.searchHybrid P env query limit filter execution = fs₂.searchHybrid P env query limit filter execution := by
  have htags : fs₁.searchByTagsWithFilter P query filter = fs₂.searchByTagsWithFilter P query filter := by
    simp only [searchByTagsWithFilter_eq, hfallback query, hsame.acceptedResult_eq haccess]
  have hraw : fs₁.bm25Search env query fs₁.bm25Index.entries.length =
      fs₂.bm25Search env query fs₂.bm25Index.entries.length := by
    rw [hwords.length_eq, hwords.bm25Search_eq]
  unfold searchHybrid
  simp only [hgraph, Option.map_none, Option.getD_none, ite_self, ← hvectors.vectorHits_eq hsame.dim, ← hraw, ← htags,
    ← hsame.accepts_eq haccess]
  split
  · rfl
  · rw [← hsame.rankCandidates_eq hgraph fun hit hhit => readable_of_accepts haccess (accepted_of_bm25Hits hhit).1]
    refine hsame.finishSearch_eq (fun entry hentry => ?_) haccess hwords hparents
    obtain ⟨found, hfound, hadmits⟩ | ⟨hholds, -⟩ := ranked_of_rankCandidates
      (fun _ => accepted_of_bm25Hits) (by simp) hentry
    · exact hvectors.readable ⟨entry.1, found⟩ (mem_lookup_iff.mp hfound) hadmits
    · exact readable_of_accepts haccess (accepts_iff.mpr hholds)

/-! ## What the report tells -/

/-- No provider answers, and the keyword library finds the listed documents. -/
def quietEnv (found : List (String × F32)) : SearchEnv where
  provider := "local"
  embedQuery := .error .providerUnavailable
  neighbours := []
  bm25 := fun _ => found
  graph := none
  reranker := none
  rrfK := 0
  rrfOverride := none

/-- When no document of the words is accepted, the answer has those of the tags, and the report the candidates of
both. -/
theorem searchFresh_quietEnv {found : List (String × F32)} (hfound : ∀ hit ∈ found, fs.accepts P filter hit.1 = false) :
    (fs.searchFresh P (quietEnv found) query limit filter).1.results = (fs.searchByTagsWithFilter P query filter).1 ∧
    (fs.searchFresh P (quietEnv found) query limit filter).1.execution.paths =
      [⟨.bm25, (fs.bm25Search (quietEnv found) query fs.bm25Index.entries.length).length, 0, false⟩,
        ⟨.tagFallback, followed (fs.accepts P filter) 50 (fs.postings (meets P query)),
          (fs.searchByTagsWithFilter P query filter).1.length, false⟩] := by
  have hhits : (fs.bm25Search (quietEnv found) query fs.bm25Index.entries.length).filter
      (fun hit => fs.accepts P filter hit.1) = [] := by
    refine List.filter_eq_nil_iff.mpr fun hit hhit => ?_
    have hmem : hit ∈ found := by
      unfold bm25Search at hhit
      split at hhit
      · cases hhit
      · exact mem_of_mem_filter (mem_of_mem_take hhit)
    rw [hfound hit hmem]
    exact Bool.false_ne_true
  have hvectors : fs.vectorHits P (quietEnv found) limit filter = ∅ := rfl
  rw [searchFresh_of_no_graph rfl]
  unfold searchHybrid
  simp only [hvectors, hhits]
  refine ⟨by simp [quietEnv], ?_⟩
  rw [searchByTagsWithFilter_eq]
  simp [quietEnv, SearchExecution.recordPath]

theorem length_bm25Search_quietEnv {query : String} (hquery : isBlank query = false) :
    (fs.bm25Search (quietEnv [(cid, 0)]) query fs.bm25Index.entries.length).length =
      if cid ∈ fs.bm25Index then 1 else 0 := by
  by_cases hmem : cid ∈ fs.bm25Index
  · have hlookup := lookup_isSome.mpr hmem
    have hlength : 0 < fs.bm25Index.entries.length := by
      obtain ⟨text, htext⟩ := Option.isSome_iff_exists.mp hlookup
      exact length_pos_of_mem (mem_lookup_iff.mp htext)
    simp [bm25Search, quietEnv, hquery, hlookup, hmem, Nat.min_eq_right hlength]
  · have hlookup : fs.bm25Index.lookup cid = none := lookup_eq_none.mpr hmem
    simp [bm25Search, quietEnv, hlookup, hmem]

/-- A document that only one of the keyword indexes names changes the number of candidates. -/
theorem SameFor.sameWords_of_paths (hsame : SameFor P.sha256 roleId fs₁ fs₂)
    (haccess : filter.access = some ⟨roleId, namespace_, false⟩)
    (h : ∀ found, (fs₁.searchFresh P (quietEnv found) "word" 1 filter).1.execution.paths =
      (fs₂.searchFresh P (quietEnv found) "word" 1 filter).1.execution.paths) : SameWords fs₁ fs₂ := by
  intro cid
  cases hread : readable P.sha256 roleId fs₁ cid with
  | true => exact hsame.words cid hread
  | false =>
    have hno₁ := not_accepts haccess hread
    have hno₂ : fs₂.accepts P filter cid = false := hsame.accepts_eq haccess cid ▸ hno₁
    have hpaths := h [(cid, 0)]
    have hblank : isBlank "word" = false := by decide +kernel
    rw [(searchFresh_quietEnv (by simpa using hno₁)).2, (searchFresh_quietEnv (by simpa using hno₂)).2,
      length_bm25Search_quietEnv hblank, length_bm25Search_quietEnv hblank] at hpaths
    by_cases h₁ : cid ∈ fs₁.bm25Index <;> by_cases h₂ : cid ∈ fs₂.bm25Index <;> simp_all

/-- When no word is found, the hits and the report are those of the fallback. -/
theorem sameFallback_of_answers
    (hhits : ∀ query, (fs₁.searchFresh P (quietEnv []) query 1 filter).1.results.map (·.cid) =
      (fs₂.searchFresh P (quietEnv []) query 1 filter).1.results.map (·.cid))
    (hpaths : ∀ query, (fs₁.searchFresh P (quietEnv []) query 1 filter).1.execution.paths =
      (fs₂.searchFresh P (quietEnv []) query 1 filter).1.execution.paths) : SameFallback P filter fs₁ fs₂ := by
  intro query
  have hcids (fs : SemanticFS) :
      (fs.searchFresh P (quietEnv []) query 1 filter).1.results.map (·.cid) = fallback P filter fs query := by
    rw [(searchFresh_quietEnv (by simp)).1, searchByTagsWithFilter_eq]
    exact map_cid_acceptedResults fun cid hcid => (mem_filter.mp (mem_of_mem_take hcid)).2
  have hpath := hpaths query
  rw [(searchFresh_quietEnv (by simp)).2, (searchFresh_quietEnv (by simp)).2] at hpath
  simp only [List.cons.injEq, SearchPathExecution.mk.injEq, true_and, and_true] at hpath
  exact ⟨by rw [← hcids, ← hcids, hhits], hpath.2.1⟩

end Plico.Fs.SemanticFS

namespace Plico.Kernel

open Plico.Cas Plico.Fs Plico.Fs.SemanticFS

/-- What a role learns from a search: the ids of the hits in their order, and the report. -/
def searchAnswer (diagnosed : DiagnosedSearch) : List String × SearchExecution :=
  (diagnosed.results.map (·.cid), diagnosed.execution)

/-- The filter that a role's request with these tags makes. -/
def roleFilter (roleId : String) (requireTags excludeTags : List String) : SearchFilter :=
  { SearchFilter.default with requireTags, excludeTags }.withAccess roleId Cas.defaultTenant false

namespace AIKernel

variable {P : SearchPlatform} {env : SearchEnv} {k : AIKernel} {roleId : String} {requireTags excludeTags : List String}
  {now mono : Nat} {fs₁ fs₂ : SemanticFS}

theorem check_read (ctx : PermissionContext) : k.check ctx .read now = .ok () := by
  unfold check PermissionGuard.check
  split_ifs <;> rfl

theorem semanticSearchDiagnosed_eq (hagent : k.permissions.canReadAny roleId now = false) {query : String}
    {limit : Nat} :
    k.semanticSearchDiagnosed P env query roleId limit requireTags excludeTags now mono =
      .ok (k.fs.searchFresh P env query limit (roleFilter roleId requireTags excludeTags)).1 := by
  simp only [semanticSearchDiagnosed, check_read, hagent]
  rfl

end AIKernel

/-! ## A note that is not indexed yet, and one that is -/

def kernelWith (fs : SemanticFS) : AIKernel :=
  ⟨⟨[], ∅⟩, fs, none⟩

section

variable {P : SearchPlatform} {fs₁ fs₂ : SemanticFS} {roleId cid : String} {obj : AIObject}
  (hcas : fs₂.cas = fs₁.cas.insert cid obj) (hscope : obj.meta_.scope = .private_)
  (hrole : obj.meta_.createdBy ≠ roleId) (hnew : fs₁.cas.lookup cid = none)

include hcas in
theorem getRaw_of_ne {other : String} (hne : other ≠ cid) :
    fs₂.cas.getRaw P.sha256 other = fs₁.cas.getRaw P.sha256 other := by
  simp only [CASStorage.getRaw, hcas, AList.lookup_insert_ne hne]

include hcas hscope hrole hnew

/-- A filesystem to which a private object of another role is added. -/
theorem sameFor_of_put (hdim : fs₁.searchIndex.dim = fs₂.searchIndex.dim)
    (hvectors : ∀ other, other ≠ cid →
      fs₁.searchIndex.entries.lookup other = fs₂.searchIndex.entries.lookup other)
    (hwords : ∀ other, other ≠ cid → (other ∈ fs₁.bm25Index ↔ other ∈ fs₂.bm25Index))
    (htags : fs₂.tagIndex = fs₁.tagIndex) : SameFor P.sha256 roleId fs₁ fs₂ := by
  have hunread₁ : readable P.sha256 roleId fs₁ cid = false := by
    simp only [readable, CASStorage.getRaw, hnew]
    cases validateCid cid <;> rfl
  have hunread₂ : readable P.sha256 roleId fs₂ cid = false := by
    unfold readable
    cases hget : fs₂.cas.getRaw P.sha256 cid with
    | error => rfl
    | ok found =>
      have hfound := lookup_of_getRaw hget
      rw [hcas, AList.lookup_insert] at hfound
      cases hfound
      simp [hscope, hrole]
  have hne {other} (h : readable P.sha256 roleId fs₁ other = true) : other ≠ cid := by
    rintro rfl
    exact Bool.false_ne_true (hunread₁.symm.trans h)
  have hread : readable P.sha256 roleId fs₁ = readable P.sha256 roleId fs₂ := by
    funext other
    by_cases h : other = cid
    · rw [h, hunread₁, hunread₂]
    · simp only [readable, getRaw_of_ne hcas h]
  refine ⟨fun other => ?_, hdim, fun other h => hvectors other (hne h), fun other h => hwords other (hne h),
    fun tag => by rw [hread, htags]⟩
  by_cases h : other = cid
  · exact .inr (h ▸ ⟨hunread₁, hunread₂⟩)
  · exact .inl (getRaw_of_ne hcas h).symm

end

/-- A filesystem with what is made in it. -/
def after (fs : SemanticFS) (result : Except IoError (SemanticFS × String)) : SemanticFS :=
  match result with
  | .ok (fs, _) => fs
  | .error _ => fs

/-- Alice's memo is stored, tagged and indexed. -/
def alicesFs : SemanticFS :=
  after blankFs (blankFs.create notePlatform.toFsPlatform (utf8 "memo") ["memo"] "alice" none .private_ 1 false
    (.embedded [0x3f800000#32]))

/-- Bob's private note is stored beside it and waits to be indexed. -/
def queuedFs : SemanticFS :=
  after alicesFs (alicesFs.create notePlatform.toFsPlatform (utf8 "note") [] "bob" none .private_ 1 true .failed)

end Plico.Kernel
