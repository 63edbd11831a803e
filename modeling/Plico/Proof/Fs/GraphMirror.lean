import Plico.Framework.Run
import Plico.Proof.Fs.GraphVersions

/-!
# The two tables of edges mirror each other

Every operation but one does the same to the edges of a pair filed under the source and to those filed under the
destination, so the two lists stay equal. The one is `invalidate_edge`, which stamps the copies under the source only.
-/

namespace Plico.Graph

open Multimap List

variable {P : GraphPlatform} {g : PetgraphBackend} {m : EdgeMap} {edgeType : KGEdgeType} {src dst : String} {now : Nat}
  {ops : List GraphOp} {α : Type}

/-! ## The invariant -/

/-- Each edge is filed under its source with its destination, and the other table has the same edges for the pair. -/
structure Mirrored (g : PetgraphBackend) : Prop where
  filed : ∀ s d, ∀ e ∈ between g.outEdges s d, e.src = s ∧ e.dst = d
  pairs : ∀ s d, between g.outEdges s d = between g.inEdges d s

theorem Mirrored.empty : Mirrored .empty where
  filed _ _ _ he := absurd he not_mem_nil
  pairs _ _ := rfl

section

variable (h : Mirrored g)
include h

namespace Mirrored

variable {g' : PetgraphBackend}

/-- Two tables that are changed alike stay mirrored. -/
theorem of_change (f : String → String → List KGEdge → List KGEdge)
    (hf : ∀ s d l, (∀ e ∈ l, e.src = s ∧ e.dst = d) → ∀ e ∈ f s d l, e.src = s ∧ e.dst = d)
    (hboth : ∀ s d, between g'.outEdges s d = f s d (between g.outEdges s d) ∧
      between g'.inEdges d s = f s d (between g.inEdges d s)) : Mirrored g' where
  filed s d := by
    rw [(hboth s d).1]
    exact hf s d _ (h.filed s d)
  pairs s d := by rw [(hboth s d).1, (hboth s d).2, h.pairs]

theorem of_filter (keep : String → String → KGEdge → Bool)
    (hboth : ∀ s d, between g'.outEdges s d = (between g.outEdges s d).filter (keep s d) ∧
      between g'.inEdges d s = (between g.inEdges d s).filter (keep s d)) : Mirrored g' :=
  h.of_change (fun s d l => l.filter (keep s d)) (fun _ _ _ hl e he => hl e (mem_of_mem_filter he)) hboth

theorem addNode (node : KGNode) : Mirrored (addNode P node g) where
  filed := by simpa [Graph.addNode] using h.filed
  pairs := by simpa [Graph.addNode] using h.pairs

theorem updateNode (id : String) (label : Option String) (properties : Option Value) :
    Mirrored (updateNode P id label properties g).1 := by
  unfold Graph.updateNode
  split
  · exact h
  · exact ⟨by simpa using h.filed, by simpa using h.pairs⟩

theorem addEdge (e : KGEdge) (now : Nat) : Mirrored (addEdge P e now g) := by
  refine h.of_change (fun s d l => endTriple e.src e.dst e.edgeType now s d l ++
    if s = e.src ∧ d = e.dst then [e] else []) (fun s d l hl x hx => ?_) (between_addEdge e now g)
  rcases mem_append.mp hx with hx | hx
  · obtain ⟨y, hy, rfl⟩ := mem_map.mp hx
    split <;> exact hl y hy
  · split at hx
    · rename_i hsd
      cases mem_singleton.mp hx
      exact ⟨hsd.1.symm, hsd.2.symm⟩
    · exact absurd hx not_mem_nil

theorem aligned : Aligned g where
  filed s d v hv := by
    obtain ⟨e, he, rfl⟩ := mem_map.mp hv
    exact h.filed s d e he
  pairs s d := congrArg (List.map KGEdge.version) (h.pairs s d)

end Mirrored

/-! ### Ending an edge -/

/-- The call of `invalidate_edge` finds no edge to end. -/
def EndsNothing (g : PetgraphBackend) : GraphOp → Prop
  | .invalidateEdge src dst edgeType _ => ∀ x ∈ g.outEdges.values src, ¬ endable dst edgeType x
  | _ => True

instance (g : PetgraphBackend) (op : GraphOp) : Decidable (EndsNothing g op) := by
  unfold EndsNothing
  split <;> infer_instance

theorem Mirrored.invalidateEdge (hnothing : EndsNothing g (.invalidateEdge src dst edgeType now)) :
    Mirrored (invalidateEdge P src dst edgeType now g).1 := by
  refine h.of_change (fun _ _ l => l) (fun _ _ _ hl => hl) fun s d => ?_
  rw [invalidateEdge_tables]
  refine ⟨?_, rfl⟩
  rw [between_invalidate]
  refine (map_congr_left fun e he => if_neg ?_).trans (map_id _)
  rintro ⟨rfl, hend⟩
  exact hnothing _ (mem_between.mp he) hend

end

/-! ### Reopening -/

/-- What is read from the text of a value is the value, if it can be read at all. -/
def ReadsBack {α : Type} (c : Serde α) : Prop :=
  ∀ a bytes a', c.toVec a = some bytes → c.fromSlice bytes = some a' → a' = a

/-- The texts of the edges under their keys. -/
abbrev Encoded (P : GraphPlatform) : AList (fun _ : String => Bytes) → Prop :=
  Rows fun e b => P.edge.toVec e = some b

theorem readRow_filed (hcodec : ReadsBack P.edge) (hrows : Encoded P g.kgEdges)
    {row : Sigma fun _ : String => Bytes} (hrow : row ∈ g.kgEdges.entries) {x : String × String × KGEdge}
    (hread : readRow P row = some x) : x.2.2.src = x.1 ∧ x.2.2.dst = x.2.1 := by
  obtain ⟨e, hkey, hencoded⟩ := hrows row.1 row.2 (AList.mem_lookup_iff.mpr hrow)
  unfold readRow at hread
  split at hread
  · rename_i e' src dst _ _ hslice hsplit
    cases hread
    obtain rfl : e' = e := hcodec _ _ _ hencoded hslice
    obtain ⟨rfl, rfl, -⟩ := splitKey_eq_four (hkey ▸ hsplit)
    exact ⟨rfl, rfl⟩
  · cases hread

theorem between_loaded {key other : α → String} {edge : α → KGEdge} {l : List α} {a b : String} :
    between (l.foldl (fun m x => m.push (key x) (other x, edge x)) ∅) a b =
      (l.filter fun x => key x = a && other x = b).map edge := by
  unfold between
  rw [values_foldl_push, values_empty, nil_append, filter_map, map_map, filter_filter]
  simp only [Function.comp_def, Bool.and_comm]

theorem Mirrored.reopen (hrows : ∀ row ∈ g.kgEdges.entries, ∀ x, readRow P row = some x →
    x.2.2.src = x.1 ∧ x.2.2.dst = x.2.1) : Mirrored (reopen P g) where
  filed s d e he := by
    simp only [Graph.reopen, loadFromRedb, between_loaded, mem_map, mem_filter, mem_filterMap,
      Bool.and_eq_true, decide_eq_true_eq] at he
    obtain ⟨x, ⟨⟨row, hrow, hread⟩, rfl, rfl⟩, rfl⟩ := he
    exact hrows row hrow x hread
  pairs s d := by
    simp only [Graph.reopen, loadFromRedb, between_loaded, Bool.and_comm]

/-! ## Runs -/

theorem Encoded.apply (h : Encoded P g.kgEdges) (op : GraphOp) : Encoded P (apply P g op).kgEdges := by
  cases op with
  | addNode node => simpa [Graph.apply, addNode] using h
  | addEdge e now => exact h.putEdges fun _ _ _ hb => hb
  | updateNode id label properties =>
    show Encoded P (updateNode P id label properties g).1.kgEdges
    unfold updateNode
    split
    · exact h
    · simpa using h
  | removeNode id => exact h.removeEdges
  | removeEdge src dst edgeType =>
    show Encoded P (removeEdge src dst edgeType g).1.kgEdges
    unfold removeEdge
    dsimp only
    split
    · exact h
    · exact h.removeEdges
  | invalidateEdge src dst edgeType now =>
    show Encoded P (invalidateEdge P src dst edgeType now g).1.kgEdges
    unfold invalidateEdge
    dsimp only
    split
    · exact h
    · exact h.putEdges fun _ _ _ hb => hb
  | compactEdges now =>
    show Encoded P (compactEdges now g).1.kgEdges
    unfold compactEdges
    dsimp only
    split
    · exact h
    · exact h.removeEdges
  | reopen => exact h

theorem rows_run (h : Encoded P g.kgEdges) : Encoded P (runGraph P g ops).kgEdges := by
  induction ops generalizing g with
  | nil => exact h
  | cons op ops ih => exact ih (Encoded.apply h op)

theorem Mirrored.apply (hcodec : ReadsBack P.edge) (hrows : Encoded P g.kgEdges) (h : Mirrored g) {op : GraphOp}
    (hnothing : EndsNothing g op) : Mirrored (apply P g op) := by
  cases op with
  | addNode node => exact h.addNode node
  | addEdge e now => exact h.addEdge e now
  | updateNode id label properties => exact h.updateNode id label properties
  | removeNode id => exact h.of_filter _ (between_removeNode h.aligned id)
  | removeEdge src dst edgeType => exact h.of_filter _ (between_removeEdge src dst edgeType g)
  | invalidateEdge src dst edgeType now => exact h.invalidateEdge hnothing
  | compactEdges now => exact h.of_filter _ (between_compactEdges now g)
  | reopen => exact .reopen fun _ hrow _ => readRow_filed hcodec hrows hrow

/-! ## Multisets of records -/

/-- The two tables hold the same records, each under its own source in the first and its own destination in the
second. -/
structure MirrorImages (g : PetgraphBackend) : Prop where
  records : (g.outEdges.toList.map Prod.snd).Perm (g.inEdges.toList.map Prod.snd)
  bySource : ∀ s, ∀ x ∈ g.outEdges.values s, x.2.src = s ∧ x.2.dst = x.1
  byDestination : ∀ d, ∀ x ∈ g.inEdges.values d, x.2.dst = d ∧ x.2.src = x.1

/-- In a table in which every edge is filed under one of its endpoints, an edge is found by its endpoints. -/
theorem count_records {key other : KGEdge → String} (h : ∀ a, ∀ x ∈ m.values a, key x.2 = a ∧ other x.2 = x.1)
    {e : KGEdge} : (m.toList.map Prod.snd).count e = (between m (key e) (other e)).count e := by
  have hkey : ∀ a, ∀ x ∈ m.values a, (key ∘ Prod.snd) x = a := fun a x hx => (h a x hx).1
  have hself : m.values (key e) = m.toList.filter fun x => key x.2 = key e := (filter_toList hkey).symm
  rw [between, hself, count_eq_countP, count_eq_countP, countP_map, countP_map, filter_filter, countP_filter]
  refine countP_congr fun x hx => ?_
  obtain ⟨a, ha⟩ := mem_toList.mp hx
  simp only [Function.comp_apply, beq_iff_eq, Bool.and_eq_true, decide_eq_true_eq]
  constructor
  · rintro rfl
    exact ⟨rfl, (h a x ha).2.symm, rfl⟩
  · exact And.left

theorem Mirrored.mirrorImages (h : Mirrored g) : MirrorImages g := by
  have hout : ∀ s, ∀ x ∈ g.outEdges.values s, x.2.src = s ∧ x.2.dst = x.1 := fun s x hx =>
    h.filed s x.1 x.2 (mem_between.mpr hx)
  have hin : ∀ d, ∀ x ∈ g.inEdges.values d, x.2.dst = d ∧ x.2.src = x.1 := fun d x hx =>
    (h.filed x.1 d x.2 (by rw [h.pairs]; exact mem_between.mpr hx)).symm
  refine ⟨perm_iff_count.mpr fun e => ?_, hout, hin⟩
  rw [count_records hout, count_records hin, h.pairs]

/-- Tables with the same records have the same edges for each pair, seen from the endpoints they are filed under. -/
theorem perm_between_of_records {m' : EdgeMap} {key other key' other' : KGEdge → String}
    (h : ∀ a, ∀ x ∈ m.values a, key x.2 = a ∧ other x.2 = x.1)
    (h' : ∀ a, ∀ x ∈ m'.values a, key' x.2 = a ∧ other' x.2 = x.1)
    (hrecords : (m.toList.map Prod.snd).Perm (m'.toList.map Prod.snd)) {a b a' b' : String}
    (hab : ∀ e : KGEdge, key e = a ∧ other e = b ↔ key' e = a' ∧ other' e = b') :
    (between m a b).Perm (between m' a' b') := by
  refine perm_iff_count.mpr fun e => ?_
  by_cases he : key e = a ∧ other e = b
  · obtain ⟨rfl, rfl⟩ := (hab e).mp he
    obtain ⟨rfl, rfl⟩ := he
    rw [← count_records h, ← count_records h', perm_iff_count.mp hrecords]
  · rw [count_eq_zero_of_not_mem fun hmem => he (h a _ (mem_between.mp hmem)),
      count_eq_zero_of_not_mem fun hmem => he ((hab e).mpr (h' a' _ (mem_between.mp hmem)))]

/-- An edge that is ended is ended in one table only. -/
theorem not_mirrorImages_of_ended (h : Mirrored g) (hended : ¬ EndsNothing g (.invalidateEdge src dst edgeType now)) :
    ¬ MirrorImages (invalidateEdge P src dst edgeType now g).1 := by
  simp only [EndsNothing, not_forall, not_not] at hended
  obtain ⟨x, hx, hend⟩ := hended
  intro himages
  have hperm := perm_between_of_records himages.bySource himages.byDestination himages.records
    (fun e => And.comm (a := e.src = src) (b := e.dst = dst))
  rw [invalidateEdge_tables, between_invalidate, ← h.pairs] at hperm
  -- the source sees no active edge of the triple any more, and the destination sees the one that was ended
  have hdst : x.1 = dst := by
    have hfiled := (h.filed src x.1 x.2 (mem_between.mpr hx)).2
    simp only [endable, Bool.and_eq_true, decide_eq_true_eq] at hend
    rw [← hfiled, hend.1.1]
  have hmem := hperm.symm.subset (mem_between.mpr (show (dst, x.2) ∈ g.outEdges.values src from hdst ▸ hx))
  obtain ⟨e, -, he⟩ := mem_map.mp hmem
  have hactive : endable dst edgeType (dst, x.2) := hend
  rw [← he] at hactive
  split at hactive
  · simp [endable, invalidate] at hactive
  · next hnot => exact hnot ⟨rfl, hactive⟩

/-- Along a run in which `invalidate_edge` finds nothing to end the two tables are mirror images, and a further
operation keeps them so exactly when it is no such call that finds an edge to end. -/
theorem edges_mirrored_iff_nothing_ended (hcodec : ReadsBack P.edge) {ops : List GraphOp}
    (hrun : Throughout (apply P) EndsNothing .empty ops) :
    MirrorImages (runGraph P .empty ops) ∧
      (∀ s d, between (runGraph P .empty ops).outEdges s d = between (runGraph P .empty ops).inEdges d s) ∧
      ∀ op, MirrorImages (runGraph P .empty (ops ++ [op])) ↔ EndsNothing (runGraph P .empty ops) op := by
  have hrows : Encoded P PetgraphBackend.empty.kgEdges := fun k b h => by cases h
  have hmirrored : Mirrored (runGraph P .empty ops) :=
    (hrun.invariant (I := fun g => Encoded P g.kgEdges ∧ Mirrored g)
      (fun g op h hop => ⟨h.1.apply op, h.2.apply hcodec h.1 hop⟩) ⟨hrows, .empty⟩).2
  refine ⟨hmirrored.mirrorImages, hmirrored.pairs, fun op => ?_⟩
  rw [runGraph, foldl_append]
  constructor
  · intro himages
    by_contra hended
    cases op with
    | invalidateEdge src dst edgeType now => exact not_mirrorImages_of_ended hmirrored hended himages
    | _ => exact hended trivial
  · exact fun hnothing => (hmirrored.apply hcodec (rows_run hrows) hnothing).mirrorImages

theorem readsBack_listed [DecidableEq α] {text : α → Bytes} {values : List α}
    (h : Serde.Distinct text values) : ReadsBack (Serde.listed text values) := by
  intro a bytes a' hencoded hread
  rw [Serde.listed_roundTrips h a bytes hencoded] at hread
  exact (Option.some.inj hread).symm

/-- Two versions of one edge, and what the first becomes when the second is added. -/
def sampleEdges : List KGEdge :=
  [.new "a" "b" .relatedTo 1 5, .new "a" "b" .relatedTo 1 9, invalidate 9 (.new "a" "b" .relatedTo 1 5)]

def sampleRun : List GraphOp :=
  [.addEdge (.new "a" "b" .relatedTo 1 5) 5, .addEdge (.new "a" "b" .relatedTo 1 9) 9,
    .invalidateEdge "a" "b" .mentions 10, .reopen]

/-- Both versions come back from the rows in both tables, and ending the second would break the mirror. -/
theorem sample_edges_mirrored :
    MirrorImages (runGraph (listedRows [] sampleEdges) .empty sampleRun) ∧
      (runGraph (listedRows [] sampleEdges) .empty sampleRun).outEdges.toList.length = 2 ∧
      ¬ MirrorImages (runGraph (listedRows [] sampleEdges) .empty
        (sampleRun ++ [.invalidateEdge "a" "b" .relatedTo 11])) := by
  have hrun : Throughout (apply (listedRows [] sampleEdges)) EndsNothing .empty sampleRun :=
    ⟨trivial, trivial, by decide +kernel, trivial, trivial⟩
  have h := edges_mirrored_iff_nothing_ended (readsBack_listed (by decide +kernel)) hrun
  refine ⟨h.1, by decide +kernel, fun hend => ?_⟩
  exact absurd ((h.2.2 _).mp hend) (by decide +kernel)

/-- An edge that is added and ended: its source sees the end of it, its destination does not. -/
theorem ended_edge_still_active_at_destination :
    let g := runGraph (listedRows [] []) .empty
      [.addEdge (.new "a" "b" .relatedTo 1 5) 5, .invalidateEdge "a" "b" .relatedTo 9]
    g.outEdges.toList.map Prod.snd = [invalidate 9 (.new "a" "b" .relatedTo 1 5)] ∧
      g.inEdges.toList.map Prod.snd = [.new "a" "b" .relatedTo 1 5] ∧ ¬ MirrorImages g := by
  have hout : (runGraph (listedRows [] []) .empty [.addEdge (.new "a" "b" .relatedTo 1 5) 5,
      .invalidateEdge "a" "b" .relatedTo 9]).outEdges.toList.map Prod.snd =
      [invalidate 9 (.new "a" "b" .relatedTo 1 5)] := rfl
  have hin : (runGraph (listedRows [] []) .empty [.addEdge (.new "a" "b" .relatedTo 1 5) 5,
      .invalidateEdge "a" "b" .relatedTo 9]).inEdges.toList.map Prod.snd =
      [.new "a" "b" .relatedTo 1 5] := rfl
  refine ⟨hout, hin, fun h => ?_⟩
  have hperm := h.records
  exact absurd hperm (by decide)

end Plico.Graph
