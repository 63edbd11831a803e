import Mathlib.Data.List.Induction
import Plico.Proof.Fs.GraphRows

/-!
# The edges of a pair of nodes

What each operation does to the edges between two nodes, seen from the source and seen from the destination. The two
tables always have the same versions for a pair (`Aligned`), although the ends of the versions may differ. The path
search follows the edges of both tables (`findPaths_exact`).
-/

namespace Plico.Graph

open Multimap KGEdge List

variable {P : GraphPlatform} {g : PetgraphBackend} {m : EdgeMap}

/-! ## The edges of a pair -/

/-- The edges filed under `a` with the other endpoint `b`. -/
def between (m : EdgeMap) (a b : String) : List KGEdge :=
  ((m.values a).filter fun x => x.1 = b).map Prod.snd

variable {e : KGEdge} {b a : String} {p : String × KGEdge → Bool} {k c : String} {s d : String} {now : Nat}
  {edgeType : KGEdgeType} {node : KGNode} {src dst : String}

theorem mem_between : e ∈ between m a b ↔ (b, e) ∈ m.values a := by
  simp [between]

theorem between_push : between (m.push k (c, e)) a b = between m a b ++ if a = k ∧ b = c then [e] else [] := by
  unfold between
  by_cases ha : a = k
  · subst ha
    by_cases hb : b = c
    · simp [hb]
    · simp [hb, Ne.symm hb]
  · simp [ha]

theorem between_erase : between (m.erase k) a b = if a = k then [] else between m a b := by
  unfold between
  rw [values_erase]
  split <;> rfl

/-- A filter of the list of `a` filters the edges between `a` and `b`. -/
theorem map_filter_between {l : List (String × KGEdge)} :
    ((l.filter p).filter fun x => x.1 = b).map Prod.snd =
      ((l.filter fun x => x.1 = b).map Prod.snd).filter fun e => p (b, e) := by
  rw [filter_comm, filter_map]
  refine congrArg _ (filter_congr fun x hx => ?_)
  obtain rfl : x.1 = b := by simpa using (mem_filter.mp hx).2
  rfl

theorem between_filter :
    between (m.modify k (List.filter p)) a b = (between m a b).filter fun e => k ≠ a || p (b, e) := by
  unfold between
  rw [values_filter, map_filter_between]

theorem between_foldl_filter {α : Type} {key : α → String} {p : α → String × KGEdge → Bool} {l : List α} :
    between (l.foldl (fun m x => m.modify (key x) (List.filter (p x))) m) a b =
      (between m a b).filter fun e => l.all fun x => key x ≠ a || p x (b, e) := by
  unfold between
  rw [values_foldl_filter, map_filter_between]

theorem between_invalidate :
    between (m.modify k (invalidateWhere p now)) a b =
      (between m a b).map fun e => if a = k ∧ p (b, e) then invalidate now e else e := by
  unfold between
  rw [values_modify rfl]
  split
  · rename_i h
    subst h
    unfold invalidateWhere
    rw [filter_map, map_map, map_map]
    have hsame : ((fun x => decide (x.1 = b)) ∘ fun entry =>
        if p entry then (entry.1, invalidate now entry.2) else entry) = fun x => decide (x.1 = b) := by
      funext x
      simp only [Function.comp_apply]
      split <;> rfl
    rw [hsame]
    refine map_congr_left fun x hx => ?_
    obtain rfl : x.1 = b := by simpa using (mem_filter.mp hx).2
    simp only [Function.comp_apply, true_and]
    split <;> rfl
  · next h => simp [h]

/-! ## The versions of a pair

What an edge keeps when it is ended: its endpoints, its type and the time of its creation. -/

def KGEdge.version (e : KGEdge) : String × String × KGEdgeType × Nat := (e.src, e.dst, e.edgeType, e.createdAt)

def versions (m : EdgeMap) (a b : String) : List (String × String × KGEdgeType × Nat) :=
  (between m a b).map version

theorem versions_push :
    versions (m.push k (c, e)) a b = versions m a b ++ if a = k ∧ b = c then [e.version] else [] := by
  unfold versions
  rw [between_push, map_append]
  split <;> rfl

theorem versions_invalidate : versions (m.modify k (invalidateWhere p now)) a b = versions m a b := by
  unfold versions
  rw [between_invalidate, map_map]
  refine map_congr_left fun e _ => ?_
  simp only [Function.comp_apply]
  split <;> rfl

/-- Both tables have the same versions for each pair, and each is filed under its own endpoints. -/
structure Aligned (g : PetgraphBackend) : Prop where
  filed : ∀ s d, ∀ v ∈ versions g.outEdges s d, v.1 = s ∧ v.2.1 = d
  pairs : ∀ s d, versions g.outEdges s d = versions g.inEdges d s

theorem Aligned.out (h : Aligned g) (he : e ∈ between g.outEdges s d) : e.src = s ∧ e.dst = d :=
  h.filed s d _ (mem_map_of_mem he)

theorem Aligned.into (h : Aligned g) (he : e ∈ between g.inEdges d s) :
    ∃ e' ∈ between g.outEdges s d, e'.version = e.version := by
  have hv := mem_map_of_mem (f := version) he
  rw [show (between g.inEdges d s).map version = versions g.outEdges s d from (h.pairs s d).symm] at hv
  exact mem_map.mp hv

theorem Aligned.back (h : Aligned g) (he : e ∈ between g.outEdges s d) :
    ∃ e' ∈ between g.inEdges d s, e'.version = e.version := by
  have hv := mem_map_of_mem (f := version) he
  rw [show (between g.outEdges s d).map version = versions g.inEdges d s from h.pairs s d] at hv
  exact mem_map.mp hv

/-! ## What the operations do to a pair -/

@[simp] theorem persistNode_outEdges {id : String} : (persistNode P id node g).outEdges = g.outEdges := by
  unfold persistNode
  split <;> rfl

@[simp] theorem persistNode_inEdges {id : String} : (persistNode P id node g).inEdges = g.inEdges := by
  unfold persistNode
  split <;> rfl

@[simp] theorem persistNode_kgEdges {id : String} : (persistNode P id node g).kgEdges = g.kgEdges := by
  unfold persistNode
  split <;> rfl

/-- Each side looks for its own list first and for the other endpoint in it. -/
theorem guard_swap {s' d' : String} {p : Bool} : (s' ≠ s || !(d = d' && p)) = (d' ≠ d || !(s = s' && p)) := by
  simp only [eq_comm (a := d), eq_comm (a := s)]
  by_cases hs : s' = s <;> by_cases hd : d' = d <;> simp [hd]

/-- A version of a type that has no end yet. -/
def active (edgeType : KGEdgeType) (e : KGEdge) : Bool := e.edgeType = edgeType && e.invalidAt.isNone

/-- The active versions of a triple are ended. -/
def endTriple (src dst : String) (edgeType : KGEdgeType) (now : Nat) (s d : String) (l : List KGEdge) : List KGEdge :=
  l.map fun x => if (s = src ∧ d = dst) ∧ active edgeType x then invalidate now x else x

/-- A version after the stamping is a stamped one, or one that was not to be stamped. -/
theorem mem_endTriple {e : KGEdge} {edgeType : KGEdgeType} {now : Nat} {l : List KGEdge} :
    e ∈ endTriple src dst edgeType now s d l ↔
      (∃ x ∈ l, ((s = src ∧ d = dst) ∧ active edgeType x) ∧ e = invalidate now x) ∨
        e ∈ l ∧ ¬ ((s = src ∧ d = dst) ∧ active edgeType e) := by
  rw [endTriple, mem_map]
  constructor
  · rintro ⟨x, hx, rfl⟩
    split
    · exact .inl ⟨x, hx, ‹_›, rfl⟩
    · exact .inr ⟨hx, ‹_›⟩
  · rintro (⟨x, hx, hactive, rfl⟩ | ⟨he, hnot⟩)
    · exact ⟨x, hx, if_pos hactive⟩
    · exact ⟨e, he, if_neg hnot⟩

theorem between_addEdge (e : KGEdge) (now : Nat) (g : PetgraphBackend) (s d : String) :
    between (addEdge P e now g).outEdges s d = endTriple e.src e.dst e.edgeType now s d (between g.outEdges s d) ++
        (if s = e.src ∧ d = e.dst then [e] else []) ∧
      between (addEdge P e now g).inEdges d s = endTriple e.src e.dst e.edgeType now s d (between g.inEdges d s) ++
        (if s = e.src ∧ d = e.dst then [e] else []) := by
  simp only [addEdge, invalidateConflictsInternal, between_push, between_invalidate, conflicts, endTriple, active,
    Bool.and_eq_true, decide_eq_true_eq, and_assoc, and_left_comm, and_comm, and_self]

theorem removeEdge_tables {edgeType : Option KGEdgeType} :
    (removeEdge src dst edgeType g).1 = { g with
      outEdges := g.outEdges.modify src (List.filter fun entry => !removable dst edgeType entry)
      inEdges := g.inEdges.modify dst (List.filter fun entry => !removable src edgeType entry)
      kgEdges := removeEdges (((g.outEdges.values src).filter (removable dst edgeType)).map Prod.snd) g.kgEdges } := by
  unfold removeEdge
  dsimp only
  split
  · rename_i hnothing
    rw [hnothing]
    rfl
  · rfl

/-- The edges that `remove_edge` leaves between two nodes. -/
def keptByRemoveEdge (src dst : String) (edgeType : Option KGEdgeType) (s d : String) (x : KGEdge) : Bool :=
  src ≠ s || !(d = dst && edgeType.all (· = x.edgeType))

theorem between_removeEdge (src dst : String) (edgeType : Option KGEdgeType) (g : PetgraphBackend) (s d : String) :
    between (removeEdge src dst edgeType g).1.outEdges s d =
        (between g.outEdges s d).filter (keptByRemoveEdge src dst edgeType s d) ∧
      between (removeEdge src dst edgeType g).1.inEdges d s =
        (between g.inEdges d s).filter (keptByRemoveEdge src dst edgeType s d) := by
  rw [removeEdge_tables]
  exact ⟨between_filter .., (between_filter ..).trans (filter_congr fun x _ => (guard_swap ..).symm)⟩

/-- The edges between two nodes that compaction leaves, given those that are stale. -/
def keptByCompaction (stale : List KGEdge) (s d : String) (x : KGEdge) : Bool :=
  stale.all fun e => e.src ≠ s || !(d = e.dst && (x.edgeType = e.edgeType && x.createdAt = e.createdAt))

def stale (now : Nat) (g : PetgraphBackend) : List KGEdge := (g.outEdges.toList.map Prod.snd).filter (isStale now)

theorem compactEdges_tables : (compactEdges now g).1 = { g with
    outEdges := (stale now g).foldl (fun m e => m.modify e.src (List.filter (survives e.dst e))) g.outEdges
    inEdges := (stale now g).foldl (fun m e => m.modify e.dst (List.filter (survives e.src e))) g.inEdges
    kgEdges := removeEdges (stale now g) g.kgEdges } := by
  unfold compactEdges stale
  dsimp only
  split
  · rename_i hnothing
    rw [hnothing]
    rfl
  · rfl

theorem between_compactEdges (now : Nat) (g : PetgraphBackend) (s d : String) :
    between (compactEdges now g).1.outEdges s d =
        (between g.outEdges s d).filter (keptByCompaction (stale now g) s d) ∧
      between (compactEdges now g).1.inEdges d s =
        (between g.inEdges d s).filter (keptByCompaction (stale now g) s d) := by
  rw [compactEdges_tables]
  constructor
  · refine (between_foldl_filter ..).trans (filter_congr fun x _ => all_congr rfl fun e => ?_)
    simp only [survives, Bool.and_assoc]
  · refine (between_foldl_filter ..).trans (filter_congr fun x _ => all_congr rfl fun e => ?_)
    simp only [survives, Bool.and_assoc]
    exact (guard_swap ..).symm

theorem invalidateEdge_tables :
    (invalidateEdge P src dst edgeType now g).1 = { g with
      outEdges := g.outEdges.modify src (invalidateWhere (endable dst edgeType) now)
      kgEdges := putEdges P (invalidatedBy (endable dst edgeType) now (g.outEdges.values src)) g.kgEdges } := by
  unfold invalidateEdge
  dsimp only
  split
  · rename_i hnothing
    rw [hnothing]
    rfl
  · rfl

theorem between_invalidateEdge (h : Aligned g) :
    between (invalidateEdge P src dst edgeType now g).1.outEdges s d =
      endTriple src dst edgeType now s d (between g.outEdges s d) := by
  rw [invalidateEdge_tables, between_invalidate]
  refine map_congr_left fun e he => ?_
  simp only [endable, (h.out he).2, active, Bool.and_eq_true, decide_eq_true_eq, and_assoc]

/-! ### Removing a node -/

/-- The lists of the destinations lose the edges that leave the node. -/
theorem between_inEdges_of_removed (h : Aligned g) (id s d : String) :
    between ((g.outEdges.values id).foldl (fun m entry => m.modify entry.1 (List.filter fun e => e.1 ≠ id)) g.inEdges)
      d s = if s = id then [] else between g.inEdges d s := by
  rw [between_foldl_filter]
  split
  · rename_i hs
    subst hs
    refine filter_eq_nil_iff.mpr fun e he hall => ?_
    obtain ⟨e', he', -⟩ := h.into he
    simpa using all_eq_true.mp hall _ (mem_between.mp he')
  · next hs => exact filter_eq_self.mpr fun e _ => by simp [hs]

/-- The edges of the node are gone from both tables, and the others are as they were. -/
theorem between_removeNode (h : Aligned g) (id s d : String) :
    between (removeNode id g).outEdges s d = (between g.outEdges s d).filter (fun _ => !(s = id || d = id)) ∧
      between (removeNode id g).inEdges d s = (between g.inEdges d s).filter fun _ => !(s = id || d = id) := by
  have hkeep : ∀ l : List KGEdge, (l.filter fun _ => !(s = id || d = id)) = if s = id ∨ d = id then [] else l := by
    by_cases hs : s = id <;> by_cases hd : d = id <;> simp [hs, hd]
  rw [hkeep, hkeep]
  constructor
  · unfold removeNode
    rw [between_foldl_filter, between_erase]
    by_cases hs : s = id
    · simp [hs]
    by_cases hd : d = id
    · rw [if_neg hs, if_pos (.inr hd), hd]
      refine filter_eq_nil_iff.mpr fun e he hall => ?_
      obtain ⟨e', he', -⟩ := h.back he
      have hremoved := between_inEdges_of_removed h id s id
      rw [if_neg hs] at hremoved
      rw [← hremoved] at he'
      simpa using all_eq_true.mp hall _ (mem_between.mp he')
    · rw [if_neg hs, if_neg (by simp [hs, hd])]
      exact filter_eq_self.mpr fun e _ => by simp [hd]
  · unfold removeNode
    rw [between_erase, between_inEdges_of_removed h]
    by_cases hd : d = id <;> by_cases hs : s = id <;> simp [hd]

/-! ## The versions stay aligned -/

theorem map_version_filter {q : String × String × KGEdgeType × Nat → Bool} {l : List KGEdge} :
    (l.filter fun e => q e.version).map version = (l.map version).filter q :=
  filter_map.symm

section

variable (h : Aligned g)
include h

namespace Aligned

/-- Versions are taken away from both tables. -/
theorem remove {g' : PetgraphBackend} (q : String → String → String × String × KGEdgeType × Nat → Bool)
    (hboth : ∀ s d, between g'.outEdges s d = (between g.outEdges s d).filter (fun e => q s d e.version) ∧
      between g'.inEdges d s = (between g.inEdges d s).filter fun e => q s d e.version) : Aligned g' := by
  have hout : ∀ s d, versions g'.outEdges s d = (versions g.outEdges s d).filter (q s d) := fun s d => by
    rw [versions, (hboth s d).1, map_version_filter]
    rfl
  have hin : ∀ s d, versions g'.inEdges d s = (versions g.inEdges d s).filter (q s d) := fun s d => by
    rw [versions, (hboth s d).2, map_version_filter]
    rfl
  exact ⟨fun s d v hv => h.filed s d v (mem_of_mem_filter (hout s d ▸ hv)), fun s d => by rw [hout, hin, h.pairs]⟩

theorem addEdge (e : KGEdge) (now : Nat) : Aligned (addEdge P e now g) := by
  have hout : ∀ s d, versions (Graph.addEdge P e now g).outEdges s d =
      versions g.outEdges s d ++ if s = e.src ∧ d = e.dst then [e.version] else [] := fun s d => by
    simp only [Graph.addEdge, invalidateConflictsInternal, versions_push, versions_invalidate]
  have hin : ∀ s d, versions (Graph.addEdge P e now g).inEdges d s =
      versions g.inEdges d s ++ if s = e.src ∧ d = e.dst then [e.version] else [] := fun s d => by
    simp only [Graph.addEdge, invalidateConflictsInternal, versions_push, versions_invalidate, and_comm]
  refine ⟨fun s d v hv => ?_, fun s d => by rw [hout, hin, h.pairs]⟩
  rw [hout] at hv
  rcases mem_append.mp hv with hv | hv
  · exact h.filed s d v hv
  · split at hv
    · rename_i hsd
      cases mem_singleton.mp hv
      exact ⟨hsd.1.symm, hsd.2.symm⟩
    · exact absurd hv not_mem_nil

theorem removeEdge (src dst : String) (edgeType : Option KGEdgeType) : Aligned (removeEdge src dst edgeType g).1 :=
  h.remove (fun s d v => src ≠ s || !(d = dst && edgeType.all (· = v.2.2.1))) (between_removeEdge src dst edgeType g)

theorem compactEdges (now : Nat) : Aligned (compactEdges now g).1 :=
  h.remove (fun s d v => (stale now g).all fun e =>
    e.src ≠ s || !(d = e.dst && (v.2.2.1 = e.edgeType && v.2.2.2 = e.createdAt))) (between_compactEdges now g)

theorem removeNode (id : String) : Aligned (removeNode id g) :=
  h.remove (fun s d _ => !(s = id || d = id)) (between_removeNode h id)

theorem invalidateEdge (src dst : String) (edgeType : KGEdgeType) (now : Nat) :
    Aligned (invalidateEdge P src dst edgeType now g).1 := by
  rw [invalidateEdge_tables]
  exact ⟨by simpa only [versions_invalidate] using h.filed, by simpa only [versions_invalidate] using h.pairs⟩

end Aligned

end

/-! ## Paths -/

/-- A path of ids along edges, whichever way they point, with no id twice and at most `maxDepth` ids (or one). -/
structure Joins (g : PetgraphBackend) (src dst : String) (maxDepth : Nat) (path : List String) : Prop where
  starts : path.head? = some src
  ends : path.getLast? = some dst
  edges : path.IsChain fun a b => ∃ e, e ∈ between g.outEdges a b ∨ e ∈ between g.inEdges a b
  simple : path.Nodup
  short : path.length ≤ max maxDepth 1

theorem mem_neighborIds : b ∈ neighborIds g a ↔ ∃ e, e ∈ between g.outEdges a b ∨ e ∈ between g.inEdges a b := by
  simp [neighborIds, mem_between, exists_or]

theorem isPath_iff {maxDepth : Nat} {path : List String} :
    (pathQuery dst maxDepth g).IsPath src path ↔ Joins g src dst maxDepth path := by
  have hedges : (fun a b => b ∈ (pathQuery dst maxDepth g).adj a) =
      fun a b => ∃ e, e ∈ between g.outEdges a b ∨ e ∈ between g.inEdges a b :=
    funext₂ fun _ _ => propext mem_neighborIds
  exact ⟨fun h => ⟨h.starts, h.ends, hedges ▸ h.adjacent, h.simple, h.short⟩,
    fun h => ⟨h.starts, h.ends, hedges ▸ h.edges, h.simple, h.short⟩⟩

/-- The search ends, with at most twenty answers. They are the node records on paths of ids, where an id without a
record is left out; and if there are fewer than twenty, no path is missing. -/
theorem findPaths_exact (src dst : String) (maxDepth : Nat) (g : PetgraphBackend) :
    ∃ (turns : Nat) (found : List (List String)),
      findPaths src dst maxDepth g turns = some (found.map fun path => path.filterMap g.nodes.lookup) ∧
      found.length ≤ 20 ∧ (∀ path ∈ found, Joins g src dst maxDepth path) ∧
      (found.length < 20 → ∀ path, Joins g src dst maxDepth path → path ∈ found) := by
  obtain ⟨turns, found, hturns, hspec⟩ := (pathQuery dst maxDepth g).search_spec src
  simp only [isPath_iff] at hspec
  exact ⟨turns, found, by simp [findPaths, hturns, nodePath], hspec⟩

end Plico.Graph
