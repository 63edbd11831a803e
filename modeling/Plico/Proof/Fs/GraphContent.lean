import Plico.Proof.Fs.GraphRows

/-!
# The index of the nodes by content

A reference is added with every node and taken back only by `remove_node`, and only `open` builds the index from the
nodes. So the index is the inverse of the nodes as long as no id with content is given another one and no loaded tables
differ in their contents (`Keeps`), and one step outside that is enough to lose it.
-/

namespace Plico.Graph

open AList List CidRefs

variable {P : GraphPlatform} {refs : CidRefs} {f : String → Option String} {s : IndexedGraph}
  {nodes : AList (fun _ : String => KGNode)} {node : KGNode} {g : PetgraphBackend}

/-! ## References and contents -/

/-- The references are the inverse of a function from the ids to their contents. -/
structure Inverse (refs : CidRefs) (f : String → Option String) : Prop where
  mem : ∀ cid id, id ∈ refs.ids cid ↔ f id = some cid
  nonempty : ∀ cid, refs.lookup cid ≠ some ∅

section

variable (id cid : String) (content : Option String)

theorem mem_refer {x : String} :
    x ∈ (refs.refer id content).ids cid ↔ x ∈ refs.ids cid ∨ x = id ∧ content = some cid := by
  cases content with
  | none => simp [refer]
  | some c =>
    obtain rfl | hc := eq_or_ne cid c
    · simp [refer, ids, or_comm]
    · simp [refer, ids, lookup_insert_ne hc, hc.symm]

theorem refer_nonempty (h : ∀ cid, refs.lookup cid ≠ some ∅) : (refs.refer id content).lookup cid ≠ some ∅ := by
  cases content with
  | none => exact h cid
  | some c =>
    obtain rfl | hc := eq_or_ne cid c
    · simp [refer]
    · simpa [refer, lookup_insert_ne hc] using h cid

end

variable {id : String}

/-- A reference is added and none is taken back. -/
theorem inverse_refer_iff (h : Inverse refs f) {content : Option String} :
    Inverse (refs.refer id content) (Function.update f id content) ↔ ∀ cid ∈ f id, content = some cid := by
  constructor
  · intro h' cid hcid
    simpa using (h'.mem cid id).mp ((mem_refer ..).mpr (.inl ((h.mem cid id).mpr hcid)))
  · refine fun hsame => ⟨fun cid x => ?_, fun cid => refer_nonempty id cid content h.nonempty⟩
    rw [mem_refer, h.mem]
    by_cases hx : x = id
    · subst hx
      simpa using hsame cid
    · simp [hx]

/-- A set loses an id. -/
theorem Inverse.of_erased (h : Inverse refs f) {c : String} (hcontent : f id = some c) {refs' : CidRefs}
    (hids : refs'.ids c = (refs.ids c).erase id) (hnonempty : refs'.lookup c ≠ some ∅)
    (hothers : ∀ cid ≠ c, refs'.lookup cid = refs.lookup cid) : Inverse refs' (Function.update f id none) := by
  refine ⟨fun cid x => ?_, fun cid => ?_⟩
  · obtain rfl | hc := eq_or_ne cid c
    · rw [hids, Finset.mem_erase, h.mem]
      by_cases hx : x = id <;> simp [hx]
    · rw [ids, hothers cid hc, ← ids, h.mem]
      by_cases hx : x = id <;> simp [hx, hcontent, hc.symm]
  · obtain rfl | hc := eq_or_ne cid c
    · exact hnonempty
    · exact hothers cid hc ▸ h.nonempty cid

theorem Inverse.release (h : Inverse refs f) (id : String) :
    Inverse (refs.release id (f id)) (Function.update f id none) := by
  cases hcontent : f id with
  | none => rwa [← hcontent, Function.update_eq_self, hcontent]
  | some c =>
    unfold CidRefs.release
    dsimp only
    split
    · next hnone => simpa [ids, hnone] using (h.mem c id).mpr hcontent
    · rename_i set hset
      split
      · rename_i hempty
        exact h.of_erased hcontent (by simp [ids, hset, hempty]) (by simp) fun cid hc => lookup_erase_ne hc
      · exact h.of_erased hcontent (by simp [ids, hset]) (by simpa) fun cid hc => lookup_insert_ne hc

theorem inverse_ofNodes (nodes : AList (fun _ : String => KGNode)) : Inverse (.ofNodes nodes) (contentOf nodes) := by
  have hloop : ∀ (l : List (Sigma fun _ => KGNode)) (refs : CidRefs), (∀ cid, refs.lookup cid ≠ some ∅) →
      (∀ cid x, x ∈ (l.foldl (fun refs x => refs.refer x.1 x.2.contentCid) refs).ids cid ↔
        x ∈ refs.ids cid ∨ ∃ y ∈ l, y.1 = x ∧ y.2.contentCid = some cid) ∧
      ∀ cid, (l.foldl (fun refs x => refs.refer x.1 x.2.contentCid) refs).lookup cid ≠ some ∅ := by
    intro l
    induction l with
    | nil => simp
    | cons y l ih =>
      intro refs h
      obtain ⟨hmem, hnonempty⟩ := ih (refs.refer y.1 y.2.contentCid) fun cid => refer_nonempty _ cid _ h
      refine ⟨fun cid x => ?_, hnonempty⟩
      rw [foldl_cons, hmem, mem_refer, exists_mem_cons_iff, or_assoc, eq_comm]
  obtain ⟨hmem, hnonempty⟩ := hloop nodes.entries ∅ (by simp)
  refine ⟨fun cid x => ?_, hnonempty⟩
  rw [ofNodes, hmem, contentOf, Option.bind_eq_some_iff]
  simp only [ids, ← Option.mem_def, mem_lookup_iff]
  constructor
  · rintro (hx | ⟨⟨_, node⟩, hy, rfl, hcid⟩)
    · simp at hx
    · exact ⟨node, hy, hcid⟩
  · rintro ⟨node, hnode, hcid⟩
    exact .inr ⟨⟨x, node⟩, hnode, rfl, hcid⟩

/-! ## Steps and runs -/

/-- The index is the inverse of the nodes, and tells which contents have a node. -/
structure Indexed (s : IndexedGraph) : Prop extends Inverse s.cidRefs (contentOf s.graph.nodes) where
  asked : ∀ cid, hasNodeWithCid cid s = true ↔
    ∃ id node, s.graph.nodes.lookup id = some node ∧ node.contentCid = some cid

theorem indexed_iff : Indexed s ↔ Inverse s.cidRefs (contentOf s.graph.nodes) := by
  refine ⟨fun h => h.toInverse, fun h => ⟨h, fun cid => ?_⟩⟩
  have hmem := h.mem cid
  simp only [contentOf, Option.bind_eq_some_iff] at hmem
  simp only [← hmem, ids, hasNodeWithCid]
  cases s.cidRefs.lookup cid with
  | none => simp
  | some set => simpa [Finset.Nonempty] using (Finset.nonempty_iff_ne_empty).symm

/-- An operation neither gives an id that has content another content nor replaces the contents. -/
def Keeps (s : IndexedGraph) : IndexedOp → Prop
  | .graph (.addNode node) => ∀ cid ∈ contentOf s.graph.nodes node.id, node.contentCid = some cid
  | .upsertDocument cid .. => ∀ old ∈ contentOf s.graph.nodes cid, some cid = some old
  | .loadFromDisk nodes .. => contentOf nodes = contentOf s.graph.nodes
  | _ => True

theorem contentOf_insert : contentOf (nodes.insert id node) = Function.update (contentOf nodes) id node.contentCid := by
  funext x
  obtain rfl | hx := eq_or_ne x id
  · simp [contentOf]
  · simp [contentOf, hx]

theorem contentOf_erase : contentOf (nodes.erase id) = Function.update (contentOf nodes) id none := by
  funext x
  obtain rfl | hx := eq_or_ne x id
  · simp [contentOf]
  · simp [contentOf, hx]

@[simp] theorem persistNode_nodes : (persistNode P id node g).nodes = g.nodes := by
  unfold persistNode
  split <;> rfl

theorem contentOf_updateNode {label : Option String} {properties : Option Value} :
    contentOf (updateNode P id label properties g).1.nodes = contentOf g.nodes := by
  unfold updateNode
  cases hnode : g.nodes.lookup id with
  | none => rfl
  | some node =>
    rw [persistNode_nodes, contentOf_insert]
    simp [contentOf, hnode, KGNode.update]

theorem indexed_addNode_iff (h : Indexed s) (node : KGNode) : Indexed (s.applyGraph P (.addNode node)) ↔
    ∀ cid ∈ contentOf s.graph.nodes node.id, node.contentCid = some cid := by
  rw [indexed_iff, ← inverse_refer_iff h.toInverse, ← contentOf_insert]
  simp only [IndexedGraph.applyGraph, apply, addNode, persistNode_nodes]

theorem Indexed.of_contents (h : Indexed s) (hg : contentOf g.nodes = contentOf s.graph.nodes) :
    Indexed { s with graph := g } :=
  indexed_iff.mpr (hg ▸ h.toInverse)

theorem indexed_apply_iff (h : Indexed s) {op : IndexedOp} : Indexed (s.apply P op) ↔ Keeps s op := by
  cases op with
  | graph op =>
    cases op with
    | addNode node => exact indexed_addNode_iff h node
    | removeNode id => exact iff_of_true (indexed_iff.mpr (contentOf_erase ▸ h.release id)) trivial
    | reopen => exact iff_of_true (indexed_iff.mpr (inverse_ofNodes _)) trivial
    | updateNode id label properties => exact iff_of_true (h.of_contents (contentOf_updateNode ..)) trivial
    | addEdge e now => exact iff_of_true (h.of_contents rfl) trivial
    | removeEdge | invalidateEdge | compactEdges =>
      refine iff_of_true (h.of_contents ?_) trivial
      simp only [Graph.apply, removeEdge, invalidateEdge, compactEdges]
      split <;> rfl
  | upsertDocument cid tags agentId now associated =>
    refine Iff.trans ?_ (indexed_addNode_iff (P := P) h (documentNode cid tags agentId now))
    rw [IndexedGraph.apply]
    generalize s.applyGraph P _ = s'
    induction associated generalizing s' with
    | nil => rfl
    | cons x associated ih => rw [foldl_cons, ih, indexed_iff, indexed_iff]; rfl
  | loadFromDisk nodes outEdges inEdges =>
    refine ⟨fun h' => funext fun id => Option.ext fun cid => ?_, fun hsame => h.of_contents hsame⟩
    exact (h'.mem cid id).symm.trans (h.mem cid id)

/-- The index is exact at every point of a run exactly when every operation keeps the contents. -/
theorem indexed_iff_keeps (P : GraphPlatform) (ops : List IndexedOp) :
    (∀ pre, pre <+: ops → Indexed (runIndexed P .empty pre)) ↔
      ∀ pre op, pre ++ [op] <+: ops → Keeps (runIndexed P .empty pre) op := by
  constructor
  · intro h pre op hpre
    have h' := h _ hpre
    rw [runIndexed, foldl_concat] at h'
    exact (indexed_apply_iff (h pre ((prefix_append ..).trans hpre))).mp h'
  · intro h pre
    induction pre using reverseRecOn with
    | nil => exact fun _ => indexed_iff.mpr (inverse_ofNodes ∅)
    | append_singleton pre op ih =>
      intro hpre
      rw [runIndexed, foldl_concat]
      exact (indexed_apply_iff (ih ((prefix_append ..).trans hpre))).mpr (h pre op hpre)

/-- A node takes another content, and tables without nodes are loaded: the old content still has its reference. -/
theorem overwritten_reference :
    let node := fun cid => KGNode.mk "a" "a" .entity (some cid) .null "agent" "tenant" 1 none none none
    let run := runIndexed (listedRows [] []) .empty
    let s := run [.graph (.addNode (node "x")), .graph (.addNode (node "y"))]
    let s' := run [.graph (.addNode (node "x")), .loadFromDisk ∅ ∅ ∅]
    hasNodeWithCid "x" s = true ∧ s.graph.nodes.entries = [⟨"a", node "y"⟩] ∧ ¬ Indexed s ∧
      hasNodeWithCid "x" s' = true ∧ s'.graph.nodes = ∅ ∧ ¬ Indexed s' := by
  refine ⟨by decide +kernel, by decide +kernel, fun h => ?_, by decide +kernel, rfl, fun h => ?_⟩
  · exact absurd ((h.mem "x" "a").mp (by decide +kernel)) (by decide +kernel)
  · exact absurd ((h.mem "x" "a").mp (by decide +kernel)) (by decide +kernel)

end Plico.Graph
