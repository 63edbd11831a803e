import Plico.Proof.Fs.GraphMirror

/-!
# A restart of the graph

The rows and the edges in memory are the same set as long as every edge has a key of its own that can be split again
(`EdgeRows`). Every operation keeps that except the addition of an edge with a bar in an endpoint, or of a second edge
of one triple with the same time of creation; and exactly those additions make a restart lose an edge. An edge that
`invalidate_edge` ended, which the table of the destinations still has as active, is loaded into both tables as ended.
-/

namespace Plico.Graph

open AList KGEdge List

variable {P : GraphPlatform} {g : PetgraphBackend} {out out' : EdgeMap} {table : AList (fun _ : String => Bytes)}

variable {e : KGEdge} {e' : KGEdge}

theorem key_of_version (h : e.version = e'.version) : e.key = e'.key := by
  simp only [version, Prod.mk.injEq] at h
  simp only [key, h]

theorem version_of_key (h : e.Plain) (h' : e'.Plain) (hkey : e.key = e'.key) : e.version = e'.version := by
  obtain ⟨hsrc, hdst, htype, hcreated⟩ := key_inj h h' hkey
  simp only [version, hsrc, hdst, htype, hcreated]

/-! ## Edges and their rows -/

/-- The rows are those of the edges in memory, and each edge has a row of its own that is read back. -/
structure EdgeRows (P : GraphPlatform) (out : EdgeMap) (table : AList (fun _ : String => Bytes)) : Prop where
  filed : ∀ s d, ∀ e ∈ between out s d, e.src = s ∧ e.dst = d
  plain : ∀ s d, ∀ e ∈ between out s d, e.Plain
  written : ∀ s d, ∀ e ∈ between out s d, Written P.edge e
  distinct : ∀ s d, (versions out s d).Nodup
  rows : ∀ k b, table.lookup k = some b ↔ ∃ s d, ∃ e ∈ between out s d, e.key = k ∧ P.edge.toVec e = some b

/-- Edges with one key are one edge. -/
theorem EdgeRows.unique (h : EdgeRows P out table) {s d s' d' : String} (he : e ∈ between out s d)
    (he' : e' ∈ between out s' d') (hkey : e.key = e'.key) : s = s' ∧ d = d' ∧ e = e' := by
  have hversion := version_of_key (h.plain _ _ e he) (h.plain _ _ e' he') hkey
  obtain ⟨rfl, rfl⟩ := h.filed _ _ e he
  obtain ⟨rfl, rfl⟩ := h.filed _ _ e' he'
  obtain ⟨hsrc, hdst⟩ : e.src = e'.src ∧ e.dst = e'.dst := by
    simp only [version, Prod.mk.injEq] at hversion
    exact ⟨hversion.1, hversion.2.1⟩
  refine ⟨hsrc, hdst, ?_⟩
  rw [hsrc, hdst] at he
  exact inj_on_of_nodup_map (h.distinct _ _) he he' hversion

theorem EdgeRows.nodup_keys (h : EdgeRows P out table) (s d : String) : ((between out s d).map key).Nodup := by
  refine List.Nodup.map_on (fun e he e' he' hkey => (h.unique he he' hkey).2.2) ?_
  exact List.Nodup.of_map _ (h.distinct s d)

/-- Edges are taken away together with their rows. -/
theorem EdgeRows.remove (h : EdgeRows P out table) (keep : String → String → KGEdge → Bool) {removed : List KGEdge}
    (hout : ∀ s d, between out' s d = (between out s d).filter (keep s d))
    (hgone : ∀ r ∈ removed, ∃ s d, ∃ e ∈ between out s d, e.key = r.key ∧ keep s d e = false)
    (hall : ∀ s d, ∀ e ∈ between out s d, keep s d e = false → ∃ r ∈ removed, r.key = e.key) :
    EdgeRows P out' (removeEdges removed table) where
  filed s d e he := h.filed s d e (mem_of_mem_filter (hout s d ▸ he))
  plain s d e he := h.plain s d e (mem_of_mem_filter (hout s d ▸ he))
  written s d e he := h.written s d e (mem_of_mem_filter (hout s d ▸ he))
  distinct s d := by
    unfold versions
    rw [hout]
    exact (h.distinct s d).sublist (filter_sublist.map _)
  rows k b := by
    rw [lookup_removeEdges, h.rows]
    constructor
    · rintro ⟨hnone, s, d, e, he, rfl, hb⟩
      refine ⟨s, d, e, ?_, rfl, hb⟩
      rw [hout, mem_filter]
      refine ⟨he, Bool.of_not_eq_false fun hdrop => ?_⟩
      obtain ⟨r, hr, hkey⟩ := hall s d e he hdrop
      exact hnone r hr hkey
    · rintro ⟨s, d, e, he, rfl, hb⟩
      rw [hout, mem_filter] at he
      refine ⟨fun r hr hkey => ?_, s, d, e, he.1, rfl, hb⟩
      obtain ⟨s', d', e', he', hkey', hdrop⟩ := hgone r hr
      obtain ⟨rfl, rfl, rfl⟩ := h.unique he' he.1 (hkey'.trans hkey)
      exact Bool.false_ne_true (hdrop.symm.trans he.2)

variable {edgeType : KGEdgeType} {now : Nat} {row : Sigma fun _ : String => Bytes} {x : String × String × KGEdge}
  {dst src : String}

section

variable (h : EdgeRows P out table)
include h

/-- The active versions of a triple are stamped, in memory and in their rows. -/
theorem EdgeRows.stamp (hout : ∀ s d, between out' s d = endTriple src dst edgeType now s d (between out s d))
    (hwritten : ∀ e ∈ between out src dst, active edgeType e → Written P.edge (invalidate now e)) :
    EdgeRows P out'
      (putEdges P (((between out src dst).filter (active edgeType)).map (invalidate now)) table) where
  filed s d e he := by
    obtain ⟨x, hx, -, rfl⟩ | ⟨he, -⟩ := mem_endTriple.mp (hout s d ▸ he)
    · exact h.filed s d x hx
    · exact h.filed s d e he
  plain s d e he := by
    obtain ⟨x, hx, -, rfl⟩ | ⟨he, -⟩ := mem_endTriple.mp (hout s d ▸ he)
    · exact h.plain s d x hx
    · exact h.plain s d e he
  written s d e he := by
    obtain ⟨x, hx, ⟨⟨rfl, rfl⟩, hactive⟩, rfl⟩ | ⟨he, -⟩ := mem_endTriple.mp (hout s d ▸ he)
    · exact hwritten x hx hactive
    · exact h.written s d e he
  distinct s d := by
    unfold versions
    rw [hout, endTriple, map_map, show version ∘ (fun e => if (s = src ∧ d = dst) ∧ active edgeType e then
      invalidate now e else e) = version from funext fun e => by simp only [Function.comp_apply]; split <;> rfl]
    exact h.distinct s d
  rows k b := by
    have hstamped x : x ∈ ((between out src dst).filter (active edgeType)).map (invalidate now) ↔
        ∃ e ∈ between out src dst, active edgeType e ∧ x = invalidate now e := by
      simp only [mem_map, mem_filter, and_assoc, eq_comm]
    rw [lookup_putEdges]
    · simp only [hout, mem_endTriple, hstamped]
      constructor
      · rintro (⟨_, ⟨e, he, hactive, rfl⟩, rfl, hb⟩ | ⟨hnone, hrow⟩)
        · exact ⟨src, dst, _, .inl ⟨e, he, ⟨⟨rfl, rfl⟩, hactive⟩, rfl⟩, rfl, hb⟩
        · obtain ⟨s, d, e, he, rfl, hb⟩ := (h.rows _ _).mp hrow
          refine ⟨s, d, e, .inr ⟨he, ?_⟩, rfl, hb⟩
          rintro ⟨⟨rfl, rfl⟩, hactive⟩
          exact hnone _ ⟨e, he, hactive, rfl⟩ rfl
      · rintro ⟨s, d, x, ⟨e, he, ⟨⟨rfl, rfl⟩, hactive⟩, rfl⟩ | ⟨hx, hnot⟩, rfl, hb⟩
        · exact .inl ⟨_, ⟨e, he, hactive, rfl⟩, rfl, hb⟩
        · refine .inr ⟨?_, (h.rows _ _).mpr ⟨s, d, x, hx, rfl, hb⟩⟩
          rintro _ ⟨e, he, hactive, rfl⟩ hkey
          obtain ⟨rfl, rfl, rfl⟩ := h.unique he hx hkey
          exact hnot ⟨⟨rfl, rfl⟩, hactive⟩
    · intro x hx
      obtain ⟨e, he, hactive, rfl⟩ := (hstamped x).mp hx
      exact hwritten e he hactive
    · rw [map_map]
      exact (h.nodup_keys src dst).sublist (filter_sublist.map _)

/-- A new edge with a version of its own is added together with its row. -/
theorem EdgeRows.push (hplain : e.Plain) (hwritten : Written P.edge e) (hfresh : e.version ∉ versions out e.src e.dst) :
    EdgeRows P (out.push e.src (e.dst, e)) (putEdges P [e] table) := by
  have hmem : ∀ s d x, x ∈ between (out.push e.src (e.dst, e)) s d ↔
      x ∈ between out s d ∨ (s = e.src ∧ d = e.dst ∧ x = e) := by
    intro s d x
    rw [between_push]
    by_cases hsd : s = e.src ∧ d = e.dst
    · simp [hsd]
    · rw [← and_assoc]
      simp [hsd]
  refine ⟨fun s d x hx => ?_, fun s d x hx => ?_, fun s d x hx => ?_, fun s d => ?_, fun k b => ?_⟩
  · obtain hx | ⟨rfl, rfl, rfl⟩ := (hmem s d x).mp hx
    · exact h.filed s d x hx
    · exact ⟨rfl, rfl⟩
  · obtain hx | ⟨-, -, rfl⟩ := (hmem s d x).mp hx
    · exact h.plain s d x hx
    · exact hplain
  · obtain hx | ⟨-, -, rfl⟩ := (hmem s d x).mp hx
    · exact h.written s d x hx
    · exact hwritten
  · rw [versions_push]
    split
    · rename_i hsd
      obtain ⟨rfl, rfl⟩ := hsd
      exact nodup_append.mpr ⟨h.distinct _ _, nodup_singleton _, fun v hv v' hv' heq =>
        hfresh (mem_singleton.mp hv' ▸ heq ▸ hv)⟩
    · rw [append_nil]
      exact h.distinct s d
  · rw [lookup_putEdges (forall_mem_singleton.mpr hwritten) (nodup_singleton _)]
    simp only [mem_singleton, exists_eq_left, forall_eq, h.rows, hmem]
    constructor
    · rintro (⟨rfl, hb⟩ | ⟨-, s, d, x, hx, rfl, hb⟩)
      · exact ⟨e.src, e.dst, e, .inr ⟨rfl, rfl, rfl⟩, rfl, hb⟩
      · exact ⟨s, d, x, .inl hx, rfl, hb⟩
    · rintro ⟨s, d, x, hx | ⟨rfl, rfl, rfl⟩, rfl, hb⟩
      · refine .inr ⟨fun hkey => hfresh ?_, s, d, x, hx, rfl, hb⟩
        have hversion := version_of_key hplain (h.plain s d x hx) hkey
        obtain ⟨rfl, rfl⟩ := h.filed s d x hx
        rw [hversion, show e.src = x.src from congrArg Prod.fst hversion,
          show e.dst = x.dst from congrArg (·.2.1) hversion]
        exact mem_map_of_mem hx
      · exact .inl ⟨rfl, hb⟩

/-! ## Reading the rows -/

theorem EdgeRows.readRow (hrow : row ∈ table.entries) :
    ∃ s d, ∃ e ∈ between out s d, e.key = row.1 ∧ readRow P row = some (s, d, e) := by
  obtain ⟨s, d, e, he, hkey, hencoded⟩ := (h.rows row.1 row.2).mp (mem_lookup_iff.mpr hrow)
  obtain ⟨bytes, hbytes, hread⟩ := h.written s d e he
  cases hencoded.symm.trans hbytes
  refine ⟨s, d, e, he, hkey, ?_⟩
  unfold Graph.readRow
  obtain ⟨rfl, rfl⟩ := h.filed s d e he
  rw [hread, ← hkey, splitKey_of_plain (h.plain _ _ e he)]

theorem EdgeRows.mem_loaded : x ∈ table.entries.filterMap (Graph.readRow P) ↔ x.2.2 ∈ between out x.1 x.2.1 := by
  rw [mem_filterMap]
  constructor
  · rintro ⟨row, hrow, hread⟩
    obtain ⟨s, d, e, he, -, hread'⟩ := h.readRow hrow
    cases hread'.symm.trans hread
    exact he
  · intro he
    obtain ⟨bytes, hbytes, -⟩ := h.written _ _ _ he
    have hlookup := (h.rows _ bytes).mpr ⟨_, _, _, he, rfl, hbytes⟩
    refine ⟨⟨x.2.2.key, bytes⟩, mem_lookup_iff.mp hlookup, ?_⟩
    obtain ⟨s, d, e, he', hkey, hread⟩ := h.readRow (mem_lookup_iff.mp hlookup)
    obtain ⟨rfl, rfl, rfl⟩ := h.unique he' he hkey
    exact hread

theorem EdgeRows.nodup_loaded : (table.entries.filterMap (Graph.readRow P)).Nodup := by
  refine pairwise_filterMap.mpr ((nodupKeys_iff_pairwise.mp table.nodupKeys).imp_of_mem ?_)
  rintro row row' hrow hrow' hne x hread _ hread' rfl
  obtain ⟨s, d, e, -, hkey, hx⟩ := h.readRow hrow
  obtain ⟨s', d', e', -, hkey', hx'⟩ := h.readRow hrow'
  cases hx.symm.trans hread
  obtain ⟨rfl, rfl, rfl⟩ : s' = s ∧ d' = d ∧ e' = e := by
    simpa using Option.some.inj (hx'.symm.trans hread')
  exact hne (hkey.symm.trans hkey')

end

theorem between_reopen_eq {s d : String} : between (reopen P g).outEdges s d =
    ((g.kgEdges.entries.filterMap (readRow P)).filter fun x => x.1 = s && x.2.1 = d).map fun x => x.2.2 :=
  between_loaded ..

/-- The edges of a pair are the same after a restart, in some order. -/
theorem EdgeRows.between_reopen (h : EdgeRows P g.outEdges g.kgEdges) (s d : String) :
    (between (reopen P g).outEdges s d).Perm (between g.outEdges s d) := by
  rw [between_reopen_eq]
  refine (perm_ext_iff_of_nodup ?_ (List.Nodup.of_map _ (h.distinct s d))).mpr fun e => ?_
  · refine (h.nodup_loaded.filter _).map_on fun x hx y hy hxy => ?_
    simp only [mem_filter, Bool.and_eq_true, decide_eq_true_eq] at hx hy
    exact Prod.ext (hx.2.1.trans hy.2.1.symm) (Prod.ext (hx.2.2.trans hy.2.2.symm) hxy)
  · simp only [mem_map, mem_filter, h.mem_loaded, Bool.and_eq_true, decide_eq_true_eq]
    constructor
    · rintro ⟨x, ⟨hx, rfl, rfl⟩, rfl⟩
      exact hx
    · exact fun he => ⟨(s, d, e), ⟨he, rfl, rfl⟩, rfl⟩

variable {id : String} {nodes : AList (fun _ : String => KGNode)} {node : KGNode}

theorem EdgeRows.of_perm (h : EdgeRows P out table) (hperm : ∀ s d, (between out' s d).Perm (between out s d)) :
    EdgeRows P out' table where
  filed s d e he := h.filed s d e ((hperm s d).mem_iff.mp he)
  plain s d e he := h.plain s d e ((hperm s d).mem_iff.mp he)
  written s d e he := h.written s d e ((hperm s d).mem_iff.mp he)
  distinct s d := ((hperm s d).map _).nodup_iff.mpr (h.distinct s d)
  rows k b := by simp only [h.rows, (hperm _ _).mem_iff]

/-! ## Nodes and their rows -/

structure NodeRows (P : GraphPlatform) (nodes : AList (fun _ : String => KGNode))
    (table : AList (fun _ : String => Bytes)) : Prop where
  written : ∀ id node, nodes.lookup id = some node → Written P.node node
  rows : ∀ id, table.lookup id = (nodes.lookup id).bind P.node.toVec

theorem NodeRows.insert (h : NodeRows P nodes table) {bytes : Bytes} (hbytes : P.node.toVec node = some bytes)
    (hread : P.node.fromSlice bytes = some node) : NodeRows P (nodes.insert id node) (table.insert id bytes) where
  written k n hk := by
    obtain ⟨-, rfl⟩ | ⟨-, hk⟩ := lookup_insert_eq_some.mp hk
    · exact ⟨bytes, hbytes, hread⟩
    · exact h.written k n hk
  rows k := by
    by_cases hk : k = id
    · subst hk
      rw [lookup_insert, lookup_insert, Option.bind_some, hbytes]
    · rw [lookup_insert_ne hk, lookup_insert_ne hk, h.rows]

theorem NodeRows.erase (h : NodeRows P nodes table) (id : String) :
    NodeRows P (nodes.erase id) (table.erase id) where
  written k n hk := h.written k n (lookup_erase_eq_some.mp hk).2
  rows k := by
    by_cases hk : k = id
    · subst hk
      rw [lookup_erase, lookup_erase, Option.bind_none]
    · rw [lookup_erase_ne hk, lookup_erase_ne hk, h.rows]

theorem NodeRows.lookup_reopen (h : NodeRows P g.nodes g.kgNodes) (id : String) :
    (reopen P g).nodes.lookup id = g.nodes.lookup id := by
  have hnodup : ((g.kgNodes.entries.filterMap (readNode P)).map Prod.fst).Nodup := by
    refine pairwise_map.mpr (pairwise_filterMap.mpr ((nodupKeys_iff_pairwise.mp g.kgNodes.nodupKeys).imp ?_))
    intro row row' hne x hread x' hread' hkey
    obtain ⟨_, _, rfl⟩ := Option.map_eq_some_iff.mp hread
    obtain ⟨_, _, rfl⟩ := Option.map_eq_some_iff.mp hread'
    exact hne hkey
  refine Option.ext fun node => ?_
  refine (lookup_index_of_nodup Prod.fst hnodup).trans ?_
  simp only [mem_filterMap, readNode, Option.map_eq_some_iff]
  constructor
  · rintro ⟨_, ⟨row, hrow, node, hread, rfl⟩, rfl, rfl⟩
    have hlookup := mem_lookup_iff.mpr hrow
    rw [h.rows] at hlookup
    obtain ⟨node', hnode', hbytes'⟩ := Option.bind_eq_some_iff.mp hlookup
    obtain ⟨bytes, hbytes, hback⟩ := h.written _ _ hnode'
    cases hbytes'.symm.trans hbytes
    rw [hnode', Option.some.inj (hback.symm.trans hread)]
  · intro hnode
    obtain ⟨bytes, hbytes, hback⟩ := h.written _ _ hnode
    have hlookup : g.kgNodes.lookup id = some bytes := by rw [h.rows, hnode, Option.bind_some, hbytes]
    exact ⟨(id, node), ⟨⟨id, bytes⟩, mem_lookup_iff.mp hlookup, node, hback, rfl⟩, rfl, rfl⟩

/-! ### Reading the rows of edges -/

/-- The rows are those of edges that are read back from them. -/
abbrev Readable (P : GraphPlatform) : AList (fun _ : String => Bytes) → Prop :=
  Rows fun e b => P.edge.fromSlice b = some e

theorem readRow_of_readable (h : Readable P table) (hrow : row ∈ table.entries) (hread : readRow P row = some x) :
    x.2.2.key = row.1 ∧ x.2.2.Plain ∧ x.2.2.src = x.1 ∧ x.2.2.dst = x.2.1 := by
  obtain ⟨e, hkey, hslice⟩ := h row.1 row.2 (mem_lookup_iff.mpr hrow)
  unfold readRow at hread
  rw [hslice] at hread
  split at hread
  · rename_i e' src dst _ _ he hsplit
    cases he
    cases hread
    obtain ⟨rfl, rfl, hplain⟩ := splitKey_eq_four (hkey ▸ hsplit)
    exact ⟨hkey, hplain, rfl, rfl⟩
  · cases hread

theorem EdgeRows.readable (h : EdgeRows P out table) : Readable P table := by
  intro k b hk
  obtain ⟨s, d, e, he, hkey, hb⟩ := (h.rows k b).mp hk
  obtain ⟨bytes, hbytes, hread⟩ := h.written s d e he
  cases hb.symm.trans hbytes
  exact ⟨e, hkey, hread⟩

theorem Readable.putEdges (h : Readable P table) {l : List KGEdge} (hl : ∀ x ∈ l, Written P.edge x) :
    Readable P (putEdges P l table) := by
  refine Rows.putEdges h fun x hx b hb => ?_
  obtain ⟨bytes, hbytes, hslice⟩ := hl x hx
  rwa [Option.some.inj (hb.symm.trans hbytes)]

/-! ## Steps -/

/-- Every row that the operation writes is read back. -/
def ReadsRows (P : GraphPlatform) (g : PetgraphBackend) : GraphOp → Prop
  | .addNode node => Written P.node node
  | .updateNode id label properties => ∀ node ∈ g.nodes.lookup id, Written P.node (node.update label properties)
  | .addEdge e now =>
      ∀ x ∈ invalidatedBy (conflicts e.dst e.edgeType) now (g.outEdges.values e.src) ++ [e], Written P.edge x
  | .invalidateEdge src dst edgeType now =>
      ∀ x ∈ invalidatedBy (endable dst edgeType) now (g.outEdges.values src), Written P.edge x
  | _ => True

/-- An added edge has no bar in its endpoints, and no version of its triple was created at the same time. -/
def OwnKey (g : PetgraphBackend) : GraphOp → Prop
  | .addEdge e _ => e.Plain ∧ ∀ x ∈ between g.outEdges e.src e.dst, x.edgeType = e.edgeType → x.createdAt ≠ e.createdAt
  | _ => True

structure Stored (P : GraphPlatform) (g : PetgraphBackend) : Prop where
  nodes : NodeRows P g.nodes g.kgNodes
  edges : EdgeRows P g.outEdges g.kgEdges
  mirrored : Mirrored g

theorem Stored.empty : Stored P .empty where
  nodes := ⟨fun _ _ h => (by cases h), fun _ => rfl⟩
  edges := {
    filed := fun _ _ _ h => by cases h
    plain := fun _ _ _ h => by cases h
    written := fun _ _ _ h => by cases h
    distinct := fun _ _ => nodup_nil
    rows := fun _ _ => ⟨fun h => (by cases h), fun ⟨_, _, _, h, _⟩ => (by cases h)⟩ }
  mirrored := .empty

theorem NodeRows.persistNode (h : NodeRows P g.nodes g.kgNodes) (hwritten : Written P.node node) :
    NodeRows P (persistNode P id node { g with nodes := g.nodes.insert id node }).nodes
      (persistNode P id node { g with nodes := g.nodes.insert id node }).kgNodes := by
  obtain ⟨bytes, hbytes, hread⟩ := hwritten
  unfold Graph.persistNode
  rw [hbytes]
  exact h.insert hbytes hread

theorem Stored.persistNode (h : Stored P g) (hwritten : Written P.node node) :
    Stored P (persistNode P id node { g with nodes := g.nodes.insert id node }) where
  nodes := h.nodes.persistNode hwritten
  edges := by simpa using h.edges
  mirrored := ⟨by simpa using h.mirrored.filed, by simpa using h.mirrored.pairs⟩

theorem Stored.updateNode (h : Stored P g) {label : Option String} {properties : Option Value}
    (hread : ReadsRows P g (.updateNode id label properties)) : Stored P (updateNode P id label properties g).1 := by
  unfold Graph.updateNode
  split
  · exact h
  · next node hnode => exact h.persistNode (hread node hnode)

/-- The loop that stamps the active versions of a triple in the table of the sources, with their rows. -/
theorem EdgeRows.invalidateConflicts (h : EdgeRows P out table)
    (hwritten : ∀ x ∈ invalidatedBy (conflicts dst edgeType) now (out.values src), Written P.edge x) :
    EdgeRows P (out.modify src (invalidateWhere (conflicts dst edgeType) now))
      (putEdges P (invalidatedBy (conflicts dst edgeType) now (out.values src)) table) := by
  have hconflicts : conflicts dst edgeType = fun x => decide (x.1 = dst) && active edgeType x.2 :=
    funext fun x => Bool.and_assoc ..
  have hstamped : invalidatedBy (conflicts dst edgeType) now (out.values src) =
      ((between out src dst).filter (active edgeType)).map (invalidate now) := by
    unfold invalidatedBy between
    simp only [filter_map, map_map, filter_filter, hconflicts, Function.comp_def, Bool.and_comm]
  rw [hstamped] at hwritten ⊢
  refine h.stamp (fun s d => ?_) fun e he hactive => hwritten _ (mem_map_of_mem (mem_filter.mpr ⟨he, hactive⟩))
  simp only [between_invalidate, hconflicts, Bool.and_eq_true, decide_eq_true_eq, endTriple, ← and_assoc]

section

variable (h : Stored P g)
include h

theorem Stored.addEdge (hread : ReadsRows P g (.addEdge e now)) (hown : OwnKey g (.addEdge e now)) :
    Stored P (addEdge P e now g) where
  nodes := h.nodes
  edges := by
    obtain ⟨hstamped, hlast⟩ := forall_mem_append.mp hread
    unfold Graph.addEdge invalidateConflictsInternal
    dsimp only
    rw [putEdges_append hstamped hlast]
    refine (h.edges.invalidateConflicts hstamped).push hown.1 (forall_mem_singleton.mp hlast) fun hversion => ?_
    rw [versions_invalidate] at hversion
    obtain ⟨x, hx, hsame⟩ := mem_map.mp hversion
    simp only [version, Prod.mk.injEq] at hsame
    exact hown.2 x hx hsame.2.2.1 hsame.2.2.2
  mirrored := h.mirrored.addEdge e now

theorem Stored.invalidateEdge (hnothing : EndsNothing g (.invalidateEdge src dst edgeType now)) :
    Stored P (invalidateEdge P src dst edgeType now g).1 := by
  have hmirrored := h.mirrored.invalidateEdge (P := P) hnothing
  have hbetween (s d : String) : between (Graph.invalidateEdge P src dst edgeType now g).1.outEdges s d =
      between g.outEdges s d := by
    rw [hmirrored.pairs, h.mirrored.pairs, invalidateEdge_tables]
  rw [invalidateEdge_tables] at hmirrored hbetween ⊢
  refine ⟨h.nodes, ?_, hmirrored⟩
  have hrows : invalidatedBy (endable dst edgeType) now (g.outEdges.values src) = [] := by
    simpa [invalidatedBy, EndsNothing] using hnothing
  simp only [hrows]
  exact h.edges.of_perm fun s d => .of_eq (hbetween s d)

/-! ### Removals -/

theorem Stored.removeEdge (src dst : String) (edgeType : Option KGEdgeType) :
    Stored P (removeEdge src dst edgeType g).1 := by
  have hbetween := fun s d => (between_removeEdge src dst edgeType g s d).1
  have hmirrored := h.mirrored.of_filter _ (between_removeEdge src dst edgeType g)
  rw [removeEdge_tables] at hmirrored hbetween ⊢
  refine ⟨h.nodes, h.edges.remove _ hbetween ?_ ?_, hmirrored⟩
  · intro r hr
    obtain ⟨x, hx, rfl⟩ := mem_map.mp hr
    rw [mem_filter] at hx
    have hremovable := hx.2
    unfold removable at hremovable
    exact ⟨src, x.1, x.2, mem_between.mpr hx.1, rfl, by simp [keptByRemoveEdge, hremovable]⟩
  · intro s d e he hdrop
    simp only [keptByRemoveEdge, Bool.or_eq_false_iff, decide_eq_false_iff_not, ne_eq, not_not, Bool.not_eq_eq_eq_not,
      Bool.not_false] at hdrop
    obtain ⟨rfl, hremovable⟩ := hdrop
    exact ⟨e, mem_map.mpr ⟨(d, e), mem_filter.mpr ⟨mem_between.mp he, hremovable⟩, rfl⟩, rfl⟩

theorem Stored.compactEdges (now : Nat) : Stored P (compactEdges now g).1 := by
  have hbetween := fun s d => (between_compactEdges now g s d).1
  have hmirrored := h.mirrored.of_filter _ (between_compactEdges now g)
  rw [compactEdges_tables] at hmirrored hbetween ⊢
  refine ⟨h.nodes, h.edges.remove _ hbetween ?_ ?_, hmirrored⟩
  · intro r hr
    obtain ⟨x, hx, rfl⟩ := mem_map.mp (mem_of_mem_filter hr)
    obtain ⟨s, hx⟩ := Multimap.mem_toList.mp hx
    obtain ⟨hs, hd⟩ := h.edges.filed s x.1 x.2 (mem_between.mpr hx)
    refine ⟨s, x.1, x.2, mem_between.mpr hx, rfl, all_eq_false.mpr ⟨x.2, hr, ?_⟩⟩
    simp [hs, hd]
  · -- the entries are compared by their version, and so are the keys of their rows
    intro s d e he hdrop
    obtain ⟨r, hr, hdrop⟩ := all_eq_false.mp hdrop
    refine ⟨r, hr, ?_⟩
    simp only [ne_eq, Bool.or_eq_true, decide_eq_true_eq, Bool.not_eq_true', not_or, not_not, Bool.not_eq_false,
      Bool.and_eq_true] at hdrop
    obtain ⟨hs, hd⟩ := h.edges.filed s d e he
    simp only [key, hs, hd, hdrop]

theorem Stored.removeNode (id : String) : Stored P (removeNode id g) := by
  have haligned := h.mirrored.aligned
  have hbetween := between_removeNode haligned id
  refine ⟨h.nodes.erase id, h.edges.remove _ (fun s d => (hbetween s d).1) ?_ ?_, h.mirrored.of_filter _ hbetween⟩
  · intro r hr
    rcases mem_append.mp hr with hr | hr
    · obtain ⟨x, hx, rfl⟩ := mem_map.mp hr
      exact ⟨id, x.1, x.2, mem_between.mpr hx, rfl, by simp⟩
    · -- an edge that comes to the node: the table of the sources has it too
      obtain ⟨x, hx, rfl⟩ := mem_map.mp hr
      have hin := mem_between.mpr hx
      rw [between_inEdges_of_removed haligned] at hin
      split at hin
      · exact absurd hin not_mem_nil
      · exact ⟨x.1, id, x.2, by rwa [h.mirrored.pairs], rfl, by simp⟩
  · intro s d e he hdrop
    simp only [Bool.not_eq_false', Bool.or_eq_true, decide_eq_true_eq] at hdrop
    by_cases hs : s = id
    · subst hs
      exact ⟨e, mem_append_left _ (mem_map_of_mem (mem_between.mp he)), rfl⟩
    · obtain rfl := hdrop.resolve_left hs
      have hin := between_inEdges_of_removed haligned d s d
      rw [if_neg hs] at hin
      rw [h.mirrored.pairs, ← hin] at he
      exact ⟨e, mem_append_right _ (mem_map_of_mem (mem_between.mp he)), rfl⟩

theorem Stored.reopen : Stored P (reopen P g) where
  nodes := {
    written := fun id node hnode => h.nodes.written id node ((h.nodes.lookup_reopen id).symm.trans hnode)
    rows := fun id => by rw [h.nodes.lookup_reopen]; exact h.nodes.rows id }
  edges := h.edges.of_perm h.edges.between_reopen
  mirrored := .reopen fun _ hrow _ hread => (readRow_of_readable h.edges.readable hrow hread).2.2

/-- An added edge has a key of its own, and no active edge is ended by `invalidate_edge`. -/
def Keepable (g : PetgraphBackend) (op : GraphOp) : Prop := OwnKey g op ∧ EndsNothing g op

theorem Stored.apply {op : GraphOp} (hread : ReadsRows P g op) (hkeep : Keepable g op) : Stored P (apply P g op) := by
  cases op with
  | addNode node => exact h.persistNode hread
  | addEdge e now => exact h.addEdge hread hkeep.1
  | updateNode id label properties => exact h.updateNode hread
  | removeNode id => exact h.removeNode id
  | removeEdge src dst edgeType => exact h.removeEdge src dst edgeType
  | invalidateEdge src dst edgeType now => exact h.invalidateEdge hkeep.2
  | compactEdges now => exact h.compactEdges now
  | reopen => exact h.reopen

/-! ## Runs -/

/-- The nodes and the multisets of edges, seen from the sources and from the destinations, are the same after a
restart. -/
structure RestartKeeps (P : GraphPlatform) (g : PetgraphBackend) : Prop where
  nodes : ∀ id, (reopen P g).nodes.lookup id = g.nodes.lookup id
  edges : ((reopen P g).outEdges.toList.map Prod.snd).Perm (g.outEdges.toList.map Prod.snd)
  incoming : ((reopen P g).inEdges.toList.map Prod.snd).Perm (g.inEdges.toList.map Prod.snd)

theorem Stored.restartKeeps : RestartKeeps P g := by
  have himages := h.mirrored.mirrorImages
  have hloaded := h.reopen.mirrored.mirrorImages
  have hedges : ((Graph.reopen P g).outEdges.toList.map Prod.snd).Perm (g.outEdges.toList.map Prod.snd) := by
    refine perm_iff_count.mpr fun e => ?_
    rw [count_records himages.bySource, count_records hloaded.bySource]
    exact perm_iff_count.mp (h.edges.between_reopen e.src e.dst) e
  exact ⟨h.nodes.lookup_reopen, hedges, hloaded.records.symm.trans (hedges.trans himages.records)⟩

end

/-! ## What a restart cannot keep -/

/-- Edges that a restart keeps have keys of their own that can be split. -/
theorem RestartKeeps.own_keys (h : RestartKeeps P g) (hrows : Readable P g.kgEdges) (hmirrored : Mirrored g)
    {s d : String} : (∀ e ∈ between g.outEdges s d, e.Plain) ∧ ((between g.outEdges s d).map key).Nodup := by
  have hloaded : Mirrored (reopen P g) := .reopen fun _ hrow _ hread => (readRow_of_readable hrows hrow hread).2.2
  have hperm : (between (reopen P g).outEdges s d).Perm (between g.outEdges s d) :=
    perm_between_of_records hloaded.mirrorImages.bySource hmirrored.mirrorImages.bySource h.edges fun _ => Iff.rfl
  constructor
  · intro e he
    rw [← hperm.mem_iff, between_reopen_eq] at he
    obtain ⟨x, hx, rfl⟩ := mem_map.mp he
    obtain ⟨row, hrow, hread⟩ := mem_filterMap.mp (mem_of_mem_filter hx)
    exact (readRow_of_readable hrows hrow hread).2.1
  · refine ((hperm.map _).nodup_iff).mp ?_
    rw [between_reopen_eq, map_map]
    refine List.Nodup.sublist (filter_sublist.map _) ?_
    refine pairwise_map.mpr (pairwise_filterMap.mpr
      ((nodupKeys_iff_pairwise.mp g.kgEdges.nodupKeys).imp_of_mem ?_))
    intro row row' hrow hrow' hne x hread x' hread' hkey
    exact hne ((readRow_of_readable hrows hrow hread).1.symm.trans
      (hkey.trans (readRow_of_readable hrows hrow' hread').1))

theorem Stored.ownKey_of_restartKeeps (h : Stored P g) (hread : ReadsRows P g (.addEdge e now))
    (hkeeps : RestartKeeps P (Graph.addEdge P e now g)) : OwnKey g (.addEdge e now) := by
  obtain ⟨hplain, hnodup⟩ := hkeeps.own_keys (h.edges.readable.putEdges hread) (h.mirrored.addEdge e now)
  have hbetween : between (Graph.addEdge P e now g).outEdges e.src e.dst =
      between (g.outEdges.modify e.src (Graph.invalidateWhere (conflicts e.dst e.edgeType) now)) e.src e.dst ++
        [e] := by
    simp only [Graph.addEdge, invalidateConflictsInternal, between_push, and_self, if_true]
  rw [hbetween] at hplain hnodup
  refine ⟨hplain e (mem_append_right _ (mem_singleton.mpr rfl)), fun x hx htype hcreated => ?_⟩
  have hversion : e.version ∈ versions (g.outEdges.modify e.src
      (Graph.invalidateWhere (conflicts e.dst e.edgeType) now)) e.src e.dst := by
    rw [versions_invalidate]
    obtain ⟨hsrc, hdst⟩ := h.edges.filed _ _ x hx
    exact mem_map.mpr ⟨x, hx, by simp only [version, hsrc, hdst, htype, hcreated]⟩
  obtain ⟨y, hy, hsame⟩ := mem_map.mp hversion
  rw [map_append, nodup_append] at hnodup
  exact hnodup.2.2 _ (mem_map_of_mem hy) _ (mem_map_of_mem (mem_singleton.mpr rfl)) (key_of_version hsame)

/-- The row of an ended edge is loaded into both tables, and only the table of the sources had it ended. -/
theorem Stored.endsNothing_of_restartKeeps (h : Stored P g)
    (hread : ReadsRows P g (.invalidateEdge src dst edgeType now))
    (hkeeps : RestartKeeps P (Graph.invalidateEdge P src dst edgeType now g).1) :
    EndsNothing g (.invalidateEdge src dst edgeType now) := by
  by_contra hended
  have haligned := h.mirrored.aligned.invalidateEdge (P := P) src dst edgeType now
  have hrows : Readable P (Graph.invalidateEdge P src dst edgeType now g).1.kgEdges := by
    rw [invalidateEdge_tables]
    exact h.edges.readable.putEdges hread
  have hloaded : Mirrored (Graph.reopen P (Graph.invalidateEdge P src dst edgeType now g).1) :=
    .reopen fun _ hrow _ hread => (readRow_of_readable hrows hrow hread).2.2
  refine not_mirrorImages_of_ended h.mirrored hended (P := P) ⟨?_, ?_, ?_⟩
  · exact hkeeps.edges.symm.trans (hloaded.mirrorImages.records.trans hkeeps.incoming)
  · exact fun s x hx => haligned.out (mem_between.mpr hx)
  · rw [invalidateEdge_tables]
    exact h.mirrored.mirrorImages.byDestination

instance (P : GraphPlatform) (g : PetgraphBackend) : (op : GraphOp) → Decidable (ReadsRows P g op)
  | .addNode node => inferInstanceAs (Decidable (Written P.node node))
  | .updateNode .. => inferInstanceAs (Decidable (∀ node ∈ _, Written P.node _))
  | .addEdge .. | .invalidateEdge .. => inferInstanceAs (Decidable (∀ x ∈ _, Written P.edge x))
  | .removeNode _ | .removeEdge .. | .compactEdges _ | .reopen => .isTrue trivial

instance (g : PetgraphBackend) (op : GraphOp) : Decidable (OwnKey g op) := by
  unfold OwnKey Plain
  split <;> infer_instance

instance (g : PetgraphBackend) (op : GraphOp) : Decidable (Keepable g op) :=
  inferInstanceAs (Decidable (_ ∧ _))

def sampleNode (label : String) : KGNode :=
  ⟨"a", label, .entity, none, .null, "agent", "tenant", 1, some 1, none, none⟩

def sampleRows : GraphPlatform :=
  listedRows [sampleNode "A", sampleNode "B"] (sampleEdges ++ [invalidate 11 (.new "a" "b" .relatedTo 1 9)])

/-- A node is relabelled and an edge replaced, and no edge of another type is there to be ended. -/
def storedRun : List GraphOp :=
  [.addNode (sampleNode "A"), .addEdge (.new "a" "b" .relatedTo 1 5) 5, .updateNode "a" (some "B") none,
    .addEdge (.new "a" "b" .relatedTo 1 9) 9, .invalidateEdge "a" "b" .mentions 11, .compactEdges 12]

end Plico.Graph
