import Plico.Model.Fs.Context

/-!
# Where a loaded context comes from

The text of a layer is a cached text, the text of a file, or made from the object itself. `ContextLoader.source`
says of which object it is. Loading answers with a text of that object, and leaves the sources of all layers as they
are (`load_source`), and so does assembling (`assembleLoop_source`).
-/

namespace Plico.Fs.ContextLoader

open Option Plico.Cas

variable {P : FsPlatform} {summarizer : Option Summarizer} {cas : CASStorage} {loader loader' loader'' : ContextLoader}
  {cid : String}

/-- The object whose text the loader has for a layer. -/
def source (loader : ContextLoader) (cid : String) : ContextLayer → String
  | .l0 => (((loader.l0Cache.lookup cid).or (loader.l0File cid)).map (·.source)).getD cid
  | .l1 => ((loader.l1File cid).map (·.source)).getD cid
  | .l2 => cid

/-- The layers have the same sources. -/
def SameSources (loader loader' : ContextLoader) : Prop :=
  ∀ cid layer, loader'.source cid layer = loader.source cid layer

theorem SameSources.refl (loader : ContextLoader) : SameSources loader loader := fun _ _ => rfl

theorem SameSources.trans (h : SameSources loader loader') (h' : SameSources loader' loader'') :
    SameSources loader loader'' := fun cid layer => (h' cid layer).trans (h cid layer)

/-- Caching the text that L0 has keeps the sources. -/
theorem sameSources_cache {content : SourcedText} (hmiss : loader.l0Cache.lookup cid = none)
    (hsource : content.source = loader.source cid .l0) :
    SameSources loader { loader with l0Cache := loader.l0Cache.insert cid content } := by
  intro other layer
  cases layer with
  | l0 =>
    by_cases hne : other = cid
    · subst hne
      rw [← hsource]
      simp [source]
    · simp [source, AList.lookup_insert_ne hne]
  | l1 => rfl
  | l2 => rfl

/-- Writing the L1 text of an object that has no L1 file keeps the sources. -/
theorem sameSources_storeL1 (hnone : loader.l1File cid = none) {text : String} :
    SameSources loader (loader.storeL1 cid ⟨text, cid⟩) := by
  intro other layer
  cases layer with
  | l0 => rfl
  | l1 =>
    by_cases hne : other = cid
    · subst hne
      simp [source, storeL1, hnone]
    · simp [source, storeL1, hne]
  | l2 => rfl

variable {loaded : LoadedContext}

/-- The item is of the object, with the text that the loader has for the layer of it. -/
structure IsOf (loader : ContextLoader) (cid : String) (layer : ContextLayer) (loaded : LoadedContext) : Prop where
  source : loaded.content.source = loader.source cid layer
  cid : loaded.cid = cid

theorem loadL0_source (h : loader.loadL0 P summarizer cas cid = .ok (loader', loaded)) :
    loader.IsOf cid .l0 loaded ∧ SameSources loader loader' := by
  unfold loadL0 at h
  split at h
  · rename_i content hhit
    cases h
    exact ⟨⟨by simp [source, hhit], rfl⟩, .refl _⟩
  · rename_i hmiss
    obtain ⟨⟨⟩, -, h⟩ := of_seq h
    cases hfile : loader.l0File cid with
    | some content =>
      rw [hfile] at h
      cases h
      have hsource : content.source = loader.source cid .l0 := by simp [source, hmiss, hfile]
      exact ⟨⟨hsource, rfl⟩, sameSources_cache hmiss hsource⟩
    | none =>
      rw [hfile] at h
      cases h
      have hsource : cid = loader.source cid .l0 := by simp [source, hmiss, hfile]
      exact ⟨⟨hsource, rfl⟩, sameSources_cache hmiss hsource⟩

theorem loadL1_source (h : loader.loadL1 P summarizer cas cid = .ok (loader', loaded)) :
    loader.IsOf cid .l1 loaded ∧ SameSources loader loader' := by
  obtain ⟨⟨⟩, -, h⟩ := of_seq h
  cases hfile : loader.l1File cid with
  | some stored =>
    rw [hfile] at h
    cases h
    exact ⟨⟨by simp [source, hfile], rfl⟩, .refl _⟩
  | none =>
    rw [hfile] at h
    obtain ⟨⟨text, summarized⟩, -, h⟩ := of_seq h
    cases h
    refine ⟨⟨by simp [source, hfile], rfl⟩, ?_⟩
    -- only a summary is written to the file
    cases summarized with
    | true => exact sameSources_storeL1 hfile
    | false => exact .refl _

theorem loadL2_source (h : loader.loadL2 P cas cid = .ok (loader', loaded)) :
    loader.IsOf cid .l2 loaded ∧ SameSources loader loader' := by
  obtain ⟨obj, -, h⟩ := of_seq h
  cases h
  exact ⟨⟨rfl, rfl⟩, .refl _⟩

variable {layer : ContextLayer} {item : Option LoadedContext}

theorem load_source (h : loader.load P summarizer cas cid layer = .ok (loader', loaded)) :
    loader.IsOf cid layer loaded ∧ SameSources loader loader' := by
  cases layer with
  | l0 => exact loadL0_source h
  | l1 => exact loadL1_source h
  | l2 => exact loadL2_source h

/-! ## Assembling -/

theorem attempt_source (h : loader.attempt P summarizer cas cid layer = .ok (loader', item)) :
    (∀ loaded ∈ item, loader.IsOf cid layer loaded) ∧ SameSources loader loader' := by
  unfold attempt at h
  split at h
  · rename_i hload
    cases h
    obtain ⟨hsource, hsame⟩ := load_source hload
    refine ⟨?_, hsame⟩
    rintro loaded ⟨⟩
    exact hsource
  · cases h
    exact ⟨fun _ hloaded => (not_mem_none _ hloaded).elim, .refl _⟩
  · cases h

variable {remaining : Nat}

theorem pickLayer_source {layer : Option ContextLayer}
    (h : loader.pickLayer P summarizer cas cid remaining = .ok (loader', layer)) : SameSources loader loader' := by
  unfold pickLayer at h
  split at h
  · cases h
    exact .refl _
  obtain ⟨⟨loader₂, l2⟩, h2, h⟩ := of_seq h
  have hsame₂ := (attempt_source h2).2
  dsimp only at h
  split at h
  · cases h
    exact hsame₂
  split at h
  · cases h
    exact hsame₂
  obtain ⟨⟨loader₁, l1⟩, h1, h⟩ := of_seq h
  have hsame₁ := hsame₂.trans (attempt_source h1).2
  split at h
  · cases h
    exact hsame₁
  obtain ⟨⟨loader₀, l0⟩, h0, h⟩ := of_seq h
  have hsame₀ := hsame₁.trans (attempt_source h0).2
  split at h
  · cases h
    exact hsame₀
  · cases h
    exact hsame₀

/-- What is taken for an object is one item of it, within the tokens that remain. -/
theorem takeContext_source (h : loader.takeContext P summarizer cas cid layer remaining = .ok (loader', item)) :
    (∀ loaded ∈ item, loaded.tokensEstimate ≤ remaining ∧ ∃ layer, loader.IsOf cid layer loaded) ∧
      SameSources loader loader' := by
  obtain ⟨⟨loader₁, first⟩, hfirst, h⟩ := of_seq h
  obtain ⟨hsource, hsame⟩ := attempt_source hfirst
  cases first with
  | none =>
    cases h
    exact ⟨fun _ hloaded => (not_mem_none _ hloaded).elim, hsame⟩
  | some loaded =>
    dsimp only at h
    split at h
    · next hfits =>
      cases h
      refine ⟨?_, hsame⟩
      rintro _ ⟨⟩
      exact ⟨hfits, layer, hsource loaded rfl⟩
    split at h
    · cases h
      exact ⟨fun _ hloaded => (not_mem_none _ hloaded).elim, hsame⟩
    obtain ⟨⟨loader₀, l0⟩, h0, h⟩ := of_seq h
    cases h
    obtain ⟨hsource₀, hsame₀⟩ := attempt_source h0
    refine ⟨fun taken htaken => ?_, hsame.trans hsame₀⟩
    obtain ⟨hl0, hfits⟩ := mem_filter_iff.mp htaken
    have hof := hsource₀ taken hl0
    exact ⟨by simpa using hfits, .l0, hof.source.trans (hsame cid .l0), hof.cid⟩

/-- Every assembled item has the text that the loader had for some layer of a candidate. -/
theorem assembleLoop_source {items items' : List LoadedContext} {candidates : List String}
    (h : loader.assembleLoop P summarizer cas remaining items candidates = .ok (loader', items')) :
    ∀ item ∈ items', item ∈ items ∨ ∃ cid ∈ candidates, ∃ layer, item.content.source = loader.source cid layer := by
  induction candidates generalizing loader remaining items with
  | nil =>
    cases h
    exact fun _ => .inl
  | cons cid candidates ih =>
    unfold assembleLoop at h
    split at h
    · cases h
      exact fun _ => .inl
    obtain ⟨⟨loader₁, layer⟩, hpick, h⟩ := of_seq h
    have hsame := pickLayer_source hpick
    cases layer with
    | none =>
      intro item hitem
      rcases ih h item hitem with hin | ⟨other, hother, layer, hsource⟩
      · exact .inl hin
      · exact .inr ⟨other, List.mem_cons_of_mem _ hother, layer, hsource.trans (hsame other layer)⟩
    | some layer =>
      obtain ⟨⟨loader₂, taken⟩, htake, h⟩ := of_seq h
      obtain ⟨htaken, hsame₂⟩ := takeContext_source htake
      intro item hitem
      rcases ih h item hitem with hin | ⟨other, hother, layer, hsource⟩
      · rcases List.mem_append.mp hin with hold | hnew
        · exact .inl hold
        · obtain ⟨-, layer, hof⟩ := htaken item (mem_toList.mp hnew)
          exact .inr ⟨cid, List.mem_cons_self, layer, hof.source.trans (hsame cid layer)⟩
      · exact .inr ⟨other, List.mem_cons_of_mem _ hother, layer,
          hsource.trans ((hsame.trans hsame₂) other layer)⟩

/-! ## Keeping to the budget -/

/-- The loop takes no more tokens than remain, and at most one item for a candidate, in the candidates' order. -/
theorem assembleLoop_within {items items' : List LoadedContext} {candidates : List String}
    (h : loader.assembleLoop P summarizer cas remaining items candidates = .ok (loader', items')) :
    ∃ taken, items' = items ++ taken ∧ (taken.map (·.tokensEstimate)).sum ≤ remaining ∧
      (taken.map (·.cid)).Sublist candidates := by
  induction candidates generalizing loader remaining items with
  | nil =>
    cases h
    exact ⟨[], by simp⟩
  | cons cid candidates ih =>
    unfold assembleLoop at h
    split at h
    · cases h
      exact ⟨[], by simp⟩
    obtain ⟨⟨loader₁, layer⟩, -, h⟩ := of_seq h
    cases layer with
    | none =>
      obtain ⟨taken, hitems, hsum, hsub⟩ := ih h
      exact ⟨taken, hitems, hsum, hsub.cons _⟩
    | some layer =>
      obtain ⟨⟨loader₂, item⟩, htake, h⟩ := of_seq h
      obtain ⟨taken, hitems, hsum, hsub⟩ := ih h
      refine ⟨item.toList ++ taken, by simpa using hitems, ?_⟩
      cases item with
      | none => exact ⟨hsum, hsub.cons _⟩
      | some item =>
        obtain ⟨hfits, _, hof⟩ := (takeContext_source htake).1 item rfl
        refine ⟨Nat.add_le_of_le_sub' hfits hsum, ?_⟩
        rw [Option.toList_some, List.singleton_append, List.map_cons, hof.cid]
        exact hsub.cons_cons _

/-- What is assembled stays within the budget, and is of a part of the candidates, one item each and in their order. -/
theorem assemble_within_budget {candidates : List String} {budget : Nat} {a : BudgetAllocation}
    (h : assemble P summarizer cas loader candidates budget = .ok (loader', a)) :
    a.totalTokens = (a.items.map (·.tokensEstimate)).sum ∧ a.totalTokens ≤ budget ∧
      (a.items.map (·.cid)).Sublist candidates ∧ a.candidatesIncluded ≤ a.candidatesConsidered := by
  obtain ⟨⟨loader₁, items⟩, hloop, h⟩ := of_seq h
  cases h
  obtain ⟨taken, rfl, hsum, hsub⟩ := assembleLoop_within hloop
  exact ⟨rfl, hsum, hsub, by simpa using hsub.length_le⟩

theorem cached_text_within_budget :
    let loader : ContextLoader := ⟨(∅ : AList _).insert "ab" ⟨"b c", "ab"⟩, fun _ => none, fun _ => none⟩
    let result := assemble ⟨fun _ => "", fun _ => none, fun _ => "", id⟩ none ∅ loader ["xy", "ab"] 5
    ∃ loader' a, result = .ok (loader', a) ∧ a.items.map (·.cid) = ["ab"] ∧ a.totalTokens ≤ 5 := by
  intro loader result
  have h : result = .ok (_, _) := rfl
  exact ⟨_, _, h, rfl, (assemble_within_budget h).2.1⟩

end Plico.Fs.ContextLoader
