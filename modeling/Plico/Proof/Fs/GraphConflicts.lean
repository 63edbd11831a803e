import Plico.Proof.Fs.GraphRestart
import Plico.Proof.Fs.GraphTime

/-!
# The repair of conflicts

Two edges in force with one source and one type are in conflict. An insertion ends the version before it, so a triple
has one version without an end (`OneActive`), and ending the older edges of a group leaves the newest one alone.
-/

namespace Plico.Graph

open Multimap List

variable {P : GraphPlatform} {g g' : PetgraphBackend} {e : KGEdge}

/-! ## One version without an end -/

structure OneActive (g : PetgraphBackend) : Prop where
  aligned : Aligned g
  single : ∀ s d ty, (triple g s d ty).countP (·.invalidAt.isNone) ≤ 1

theorem OneActive.empty : OneActive .empty :=
  ⟨InOrder.empty.aligned, fun _ _ _ => Nat.zero_le _⟩

theorem OneActive.addEdge (h : OneActive g) (e : KGEdge) (now : Nat) : OneActive (addEdge P e now g) := by
  refine ⟨h.aligned.addEdge e now, fun s d ty => ?_⟩
  rw [triple_addEdge]
  split
  · rename_i hsame
    obtain ⟨⟨rfl, rfl⟩, rfl⟩ := hsame
    have hended : (endTriple e.src e.dst e.edgeType now e.src e.dst (triple g e.src e.dst e.edgeType)).countP
        (·.invalidAt.isNone) = 0 := by
      refine countP_eq_zero.mpr fun x hx => ?_
      obtain ⟨y, hy, rfl⟩ := mem_map.mp hx
      split
      · simp [invalidate]
      · next hinactive => simpa [active, type_of_mem_triple y hy] using hinactive
    rw [countP_append, hended, Nat.zero_add]
    exact countP_le_length
  · rename_i hne
    rw [endTriple_of_ne type_of_mem_triple hne, append_nil]
    exact h.single s d ty

theorem OneActive.invalidateEdge (h : OneActive g) (src dst : String) (edgeType : KGEdgeType) (now : Nat) :
    OneActive (invalidateEdge P src dst edgeType now g).1 := by
  refine ⟨h.aligned.invalidateEdge src dst edgeType now, fun s d ty => ?_⟩
  rw [triple_invalidateEdge h.aligned, endTriple, countP_map]
  refine (countP_mono_left fun x _ hx => ?_).trans (h.single s d ty)
  simp only [Function.comp_apply] at hx
  split at hx
  · cases hx
  · exact hx

theorem OneActive.apply (h : OneActive g) {op : GraphOp} (hop : op ≠ .reopen) : OneActive (apply P g op) := by
  have hthinned := thinned_apply (P := P) h.aligned op
  cases op with
  | addEdge e now => exact h.addEdge e now
  | invalidateEdge src dst edgeType now => exact h.invalidateEdge src dst edgeType now
  | reopen => exact absurd rfl hop
  | _ => exact ⟨hthinned.aligned, fun s d ty => (hthinned.triples s d ty).countP_le.trans (h.single s d ty)⟩

theorem OneActive.run (h : OneActive g) {ops : List GraphOp} (hops : .reopen ∉ ops) : OneActive (runGraph P g ops) := by
  induction ops generalizing g with
  | nil => exact h
  | cons op ops ih =>
    rw [mem_cons, not_or] at hops
    exact ih (h.apply (Ne.symm hops.1)) hops.2

/-! ## Groups -/

def owns (g : PetgraphBackend) (agentId src : String) : Bool := !(g.nodes.lookup src).all (·.agentId ≠ agentId)

/-- The agent's edges in force with one source and one type. -/
def group (agentId src : String) (edgeType : KGEdgeType) (g : PetgraphBackend) : List KGEdge :=
  ((g.outEdges.values src).map Prod.snd).filter fun e => owns g agentId src && e.inForce && e.edgeType = edgeType

theorem groupKey_eq_iff {e' : KGEdge} : e.groupKey = e'.groupKey ↔ e.src = e'.src ∧ e.edgeType = e'.edgeType := by
  refine ⟨fun h => ?_, fun ⟨hs, ht⟩ => by rw [KGEdge.groupKey, hs, ht]; rfl⟩
  have hkey : ∀ e : KGEdge, e.groupKey.toList = e.src.toList ++ '|' :: e.edgeType.debug.toList := fun e => by
    simp [KGEdge.groupKey]
  have hparts := congrArg (List.splitOn '|') ((hkey e).symm.trans ((congrArg String.toList h).trans (hkey e')))
  simp only [splitOn_append_cons_self, splitOn_eq_singleton bar_notMem_debug] at hparts
  have hdebug := String.toList_inj.mp (singleton_inj.mp (append_inj' hparts rfl).2)
  rw [KGEdge.groupKey, KGEdge.groupKey, hdebug] at h
  exact ⟨by simpa using h, debug_inj hdebug⟩

/-- The key of an edge finds its group. -/
theorem filter_groupKey (h : Aligned g) (agentId : String) (e : KGEdge) :
    ((listEdges agentId g).filter KGEdge.inForce).filter (fun x => x.groupKey = e.groupKey) =
      group agentId e.src e.edgeType g := by
  have hfiled : ∀ k, ∀ b ∈ g.outEdges.values k, b.2.src = k := fun k b hb => (h.out (mem_between.mpr hb)).1
  rw [group, listEdges, ← filter_toList hfiled, toList]
  simp only [filter_flatMap, map_flatMap, filter_filter, groupKey_eq_iff]
  refine flatMap_congr fun x hx => ?_
  have hsrc : ∀ b ∈ x.2, b.2.src = x.1 := fun b hb =>
    hfiled x.1 b (by rw [values, AList.mem_lookup_iff.mpr hx]; exact hb)
  split
  · rename_i hother
    refine (filter_eq_nil_iff.mpr fun y hy hkept => ?_).symm
    obtain ⟨b, hb, rfl⟩ := mem_map.mp hy
    obtain ⟨hb, hs⟩ := mem_filter.mp hb
    rw [← of_decide_eq_true hs, hsrc b hb, owns, hother] at hkept
    cases hkept
  · rename_i hown
    simp only [filter_map, filter_filter]
    refine congrArg _ (filter_congr fun b hb => ?_)
    have hself := hsrc b hb
    by_cases hs : b.2.src = e.src
    · have howns : owns g agentId e.src = true := by rw [owns, ← hs, hself]; simpa using hown
      cases b.2.expiredAt <;> simp [hs, howns, KGEdge.inForce, Bool.and_comm]
    · simp [hs]

variable {agentId : String} {now : Nat}

theorem mem_conflictGroups {x : Sigma fun _ : String => List KGEdge} : x ∈ conflictGroups agentId g ↔
    x.2 = ((listEdges agentId g).filter KGEdge.inForce).filter (fun e => e.groupKey = x.1) ∧ x.2.length > 1 := by
  unfold conflictGroups
  rw [mem_filter, decide_eq_true_eq, ← AList.mem_lookup_iff]
  refine and_congr_left fun hlength => ?_
  have hvalues := values_foldl_push KGEdge.groupKey (fun e => e)
    ((listEdges agentId g).filter KGEdge.inForce) ∅ x.1
  rw [values_empty, nil_append, map_id', values] at hvalues
  rw [← hvalues, Option.mem_def]
  generalize AList.lookup x.1 _ = found
  cases found with
  | none => exact ⟨fun hx => absurd hx (by simp), fun hx => absurd hlength (by simp [hx])⟩
  | some l => rw [Option.some.injEq, Option.getD_some, eq_comm]

/-- An edge is ended if it is not the first of its group. -/
theorem mem_olderEdges (h : Aligned g) :
    e ∈ olderEdges agentId g ↔ e ∈ (newestFirst (group agentId e.src e.edgeType g)).tail := by
  rw [olderEdges, mem_flatMap]
  constructor
  · rintro ⟨x, hx, he⟩
    have hgroup := (mem_conflictGroups.mp hx).1
    have hkey := (mem_filter.mp (hgroup ▸ mem_mergeSort.mp (mem_of_mem_tail he))).2
    rw [← of_decide_eq_true hkey, filter_groupKey h] at hgroup
    rwa [← hgroup]
  · intro he
    refine ⟨⟨e.groupKey, _⟩, mem_conflictGroups.mpr ⟨(filter_groupKey h ..).symm, ?_⟩, he⟩
    have htail := length_pos_of_mem he
    rw [length_tail, newestFirst, length_mergeSort] at htail
    exact Nat.lt_of_sub_pos htail

/-! ## The loop -/

/-- What ending some edges leaves. -/
structure Ended (older : List KGEdge) (g g' : PetgraphBackend) : Prop where
  nodes : g'.nodes = g.nodes
  inEdges : g'.inEdges = g.inEdges
  aligned : Aligned g'
  groups : ∀ agentId src edgeType, group agentId src edgeType g' = (group agentId src edgeType g).filter fun e =>
    older.all fun o => !(o.src = src && o.dst = e.dst && o.edgeType = edgeType)
  others : ∀ src, (∀ o ∈ older, o.src ≠ src) → g'.outEdges.values src = g.outEdges.values src

theorem group_invalidateWhere {owned : Bool} {dst : String} {ty edgeType : KGEdgeType}
    {l : List (String × KGEdge)} : ((invalidateWhere (endable dst ty) now l).map Prod.snd).filter
        (fun e => owned && e.inForce && e.edgeType = edgeType) =
      ((l.map Prod.snd).filter fun e => owned && e.inForce && e.edgeType = edgeType).filter fun e =>
        !(dst = e.dst && ty = edgeType) := by
  induction l with
  | nil => rfl
  | cons x l ih =>
    unfold invalidateWhere at ih ⊢
    rw [map_cons, map_cons, filter_cons, ih]
    simp only [endable, KGEdge.inForce, invalidate]
    grind

theorem Ended.cons {o : KGEdge} {older : List KGEdge}
    (hrest : Ended older (invalidateEdge P o.src o.dst o.edgeType now g).1 g') : Ended (o :: older) g g' := by
  obtain ⟨hnodes, hin, haligned, hgroups, hothers⟩ := hrest
  rw [invalidateEdge_tables] at hnodes hin hgroups hothers
  refine ⟨hnodes, hin, haligned, fun agentId src edgeType => ?_, fun src hs => ?_⟩
  · rw [hgroups, group, group, values_modify rfl]
    split
    · rename_i hs
      rw [group_invalidateWhere, filter_filter]
      simp [owns, hs, Bool.and_comm]
    · next hs => simp [owns, Ne.symm hs]
  · obtain ⟨ho, hs⟩ := forall_mem_cons.mp hs
    rw [hothers src hs, values_modify rfl, if_neg (Ne.symm ho)]

theorem ended_detectAndRepair (h : Aligned g) (debug : List String → String) (agentId : String)
    (duplicates : List DetectedConflict) (now : Nat) (clock : Nat → Nat) :
    Ended (olderEdges agentId g) g (detectAndRepair P debug agentId duplicates now clock g).1 := by
  have hnil : ∀ g, Aligned g → Ended [] g g := fun g h => ⟨rfl, rfl, h, by simp, fun _ _ => rfl⟩
  have hloop : ∀ (l : List (KGEdge × Nat)) (g : PetgraphBackend) repairs, Aligned g →
      Ended (l.map Prod.fst) g (l.foldl (fun x older =>
        let result := invalidateEdge P older.1.src older.1.dst older.1.edgeType (clock older.2) x.1
        (result.1, if result.2 then x.2 + 1 else x.2)) (g, repairs)).1 := by
    intro l
    induction l with
    | nil => exact fun g _ h => hnil g h
    | cons o l ih => exact fun g _ h => .cons (ih _ _ (h.invalidateEdge ..))
  unfold detectAndRepair
  dsimp only
  split
  · simpa using hloop (olderEdges agentId g).zipIdx g 0 h
  · rename_i hnone
    have hempty : conflictGroups agentId g = [] := eq_nil_iff_forall_not_mem.mpr fun x hx =>
      hnone (any_eq_true.mpr ⟨_, mem_append_left _ (mem_map_of_mem hx), by simp⟩)
    rw [olderEdges, hempty]
    exact hnil g h

/-! ## What is left -/

/-- No two edges of a group have the same destination. -/
theorem OneActive.nodup_group (h : OneActive g) : ((group agentId src edgeType g).map (·.dst)).Nodup := by
  refine nodup_iff_count_le_one.mpr fun d => Nat.le_trans ?_ (h.single src d edgeType)
  simp only [group, triple, between, List.count, countP_map, countP_filter]
  refine countP_mono_left fun x hx hkept => ?_
  have hdst := (h.aligned.out (mem_between.mpr hx)).2
  simp_all [KGEdge.inForce]

theorem mem_group (h : Aligned g) (he : e ∈ group agentId src edgeType g) : e.src = src ∧ e.edgeType = edgeType := by
  obtain ⟨he, hkept⟩ := mem_filter.mp he
  obtain ⟨b, hb, rfl⟩ := mem_map.mp he
  rw [Bool.and_eq_true, decide_eq_true_eq] at hkept
  exact ⟨(h.out (mem_between.mpr hb)).1, hkept.2⟩

/-- The newest edge of a group is left, and no other. -/
theorem group_of_ended (h : OneActive g) (hended : Ended (olderEdges agentId g) g g')
    (hgroup : group agentId src edgeType g ≠ []) : ∃ winner ∈ group agentId src edgeType g,
      group agentId src edgeType g' =
      [winner] ∧ ∀ e ∈ group agentId src edgeType g, e.createdAt ≤ winner.createdAt := by
  have hperm : (newestFirst (group agentId src edgeType g)).Perm (group agentId src edgeType g) :=
    mergeSort_perm ..
  have hsorted : (newestFirst (group agentId src edgeType g)).Pairwise fun a b => b.createdAt ≤ a.createdAt := by
    refine (pairwise_mergeSort (fun a b c hab hbc => ?_) (fun a b => ?_) _).imp fun hab => by simpa using hab
    · simp only [decide_eq_true_eq] at hab hbc ⊢
      exact hbc.trans hab
    · simpa using Nat.le_total ..
  cases hlist : newestFirst (group agentId src edgeType g) with
  | nil => exact absurd (nil_perm.mp (hlist ▸ hperm)) hgroup
  | cons winner rest =>
    rw [hlist] at hperm hsorted
    have hwinner := hperm.subset mem_cons_self
    refine ⟨winner, hwinner, ?_, fun e he => ?_⟩
    · have hnodup : ((winner :: rest).map (·.dst)).Nodup := (hperm.map _).nodup_iff.mpr h.nodup_group
      have hrest : ∀ o : KGEdge, o.src = src → o.edgeType = edgeType → (o ∈ olderEdges agentId g ↔ o ∈ rest) := by
        rintro o rfl rfl
        rw [mem_olderEdges h.aligned, hlist, tail_cons]
      rw [hended.groups]
      refine perm_singleton.mp ((hperm.symm.filter _).trans ?_)
      rw [filter_cons_of_pos, filter_eq_nil_iff.mpr fun o ho hkept => ?_]
      · obtain ⟨hs, ht⟩ := mem_group h.aligned (hperm.subset (mem_cons_of_mem _ ho))
        simpa [hs, ht] using all_eq_true.mp hkept o ((hrest o hs ht).mpr ho)
      · refine all_eq_true.mpr fun o ho => ?_
        by_contra hsame
        simp only [Bool.not_eq_true', Bool.not_eq_false, Bool.and_eq_true, decide_eq_true_eq] at hsame
        obtain ⟨⟨hs, hd⟩, ht⟩ := hsame
        have ho := mem_map_of_mem (f := KGEdge.dst) ((hrest o hs ht).mp ho)
        rw [hd] at ho
        exact (nodup_cons.mp hnodup).1 ho
    · rcases mem_cons.mp (hperm.symm.subset he) with rfl | he
      · exact Nat.le_refl _
      · exact (pairwise_cons.mp hsorted).1 e he

/-! ## Convergence -/

/-- After the repair of the agent's conflicts: none is detected, each group keeps its newest edge alone, edges that
leave nodes of others are as they were, and another repair does nothing. -/
structure Converged (P : GraphPlatform) (agentId : String) (g g' : PetgraphBackend) : Prop where
  detected : ∀ debug now, detectTemporalConflicts debug agentId now g' = []
  kept : ∀ src edgeType, group agentId src edgeType g ≠ [] → ∃ winner ∈ group agentId src edgeType g,
    group agentId src edgeType g' = [winner] ∧ ∀ e ∈ group agentId src edgeType g, e.createdAt ≤ winner.createdAt
  nodes : g'.nodes = g.nodes
  inEdges : g'.inEdges = g.inEdges
  others : ∀ src, owns g agentId src = false → g'.outEdges.values src = g.outEdges.values src
  repeated : ∀ debug duplicates now clock, (detectAndRepair P debug agentId duplicates now clock g').1 = g' ∧
    (detectAndRepair P debug agentId duplicates now clock g').2.2 = 0

/-- One repair converges from every state that the operations reach. -/
theorem repair_converges (P : GraphPlatform) {ops : List GraphOp} (hops : .reopen ∉ ops)
    (debug : List String → String) (agentId : String) (duplicates : List DetectedConflict) (now : Nat)
    (clock : Nat → Nat) : Converged P agentId (runGraph P .empty ops)
      (detectAndRepair P debug agentId duplicates now clock (runGraph P .empty ops)).1 := by
  have h := OneActive.empty.run (P := P) hops
  have hended := ended_detectAndRepair (P := P) h.aligned debug agentId duplicates now clock
  generalize runGraph P .empty ops = g at h hended ⊢
  generalize (detectAndRepair P debug agentId duplicates now clock g).1 = g' at hended ⊢
  have hempty : conflictGroups agentId g' = [] := by
    refine eq_nil_iff_forall_not_mem.mpr fun x hx => ?_
    obtain ⟨hgroup, hlength⟩ := mem_conflictGroups.mp hx
    obtain ⟨e, he⟩ := exists_mem_of_length_pos (Nat.lt_of_succ_lt hlength)
    have hkey := (mem_filter.mp (hgroup ▸ he)).2
    rw [← of_decide_eq_true hkey, filter_groupKey hended.aligned] at hgroup
    have hbefore : group agentId e.src e.edgeType g ≠ [] := by
      rw [hgroup, hended.groups] at he
      exact ne_nil_of_mem (mem_of_mem_filter he)
    obtain ⟨winner, -, hone, -⟩ := group_of_ended h hended hbefore
    rw [hgroup, hone] at hlength
    cases Nat.lt_irrefl _ hlength
  refine ⟨fun debug now => ?_, fun src edgeType => group_of_ended h hended, hended.nodes, hended.inEdges,
    fun src hsrc => hended.others src fun o ho hs => ?_, fun debug duplicates now clock => ?_⟩
  · rw [detectTemporalConflicts, hempty]
    rfl
  · have hmem := mem_mergeSort.mp (mem_of_mem_tail ((mem_olderEdges h.aligned).mp ho))
    simp [group, hs, hsrc] at hmem
  · unfold detectAndRepair
    rw [olderEdges, hempty]
    dsimp only
    split <;> exact ⟨rfl, rfl⟩

/-- Of two edges in conflict the newer one is left. -/
theorem repaired_conflict :
    let g := runGraph sampleRows .empty [.addNode (sampleNode "A"),
      .addEdge (.new "a" "b" .relatedTo 1 5) 5, .addEdge (.new "a" "c" .relatedTo 1 9) 9]
    let g' := (detectAndRepair sampleRows (fun _ => "") "agent" [] 10 (fun _ => 10) g).1
    (conflictGroups "agent" g).length = 1 ∧ Converged sampleRows "agent" g g' ∧
      group "agent" "a" .relatedTo g' = [.new "a" "c" .relatedTo 1 9] := by
  intro g g'
  have h : Converged sampleRows "agent" g g' :=
    repair_converges sampleRows (by simp) (fun _ => "") "agent" [] 10 fun _ => 10
  have hgroup : group "agent" "a" .relatedTo g = [.new "a" "b" .relatedTo 1 5, .new "a" "c" .relatedTo 1 9] := by
    decide +kernel
  refine ⟨by decide +kernel, h, ?_⟩
  obtain ⟨winner, hwinner, hleft, hnewest⟩ := h.kept "a" .relatedTo (by simp [hgroup])
  simp only [hgroup, mem_cons, not_mem_nil, or_false] at hwinner hnewest
  rcases hwinner with rfl | rfl
  · exact absurd (hnewest _ (.inr rfl)) (by decide)
  · exact hleft

end Plico.Graph
