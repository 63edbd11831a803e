import Plico.Proof.Fs.GraphVersions

/-!
# One version of a fact at a time

A version of a triple begins when it is built and its predecessor ends when it is inserted. When every edge is inserted
in the millisecond in which it was built, the versions of a triple follow each other without overlap (`InOrder`), and
the last one stays until it is ended or removed (`Latest`).
-/

namespace Plico.Graph

open KGEdge List

variable {P : GraphPlatform} {g : PetgraphBackend} {clock : Nat}

/-! ## The versions of a triple -/

def triple (g : PetgraphBackend) (src dst : String) (edgeType : KGEdgeType) : List KGEdge :=
  (between g.outEdges src dst).filter fun e => e.edgeType = edgeType

/-- The versions of a triple that are valid at a time. -/
def validVersions (g : PetgraphBackend) (src dst : String) (edgeType : KGEdgeType) (t : Nat) : List KGEdge :=
  (triple g src dst edgeType).filter fun e => e.isValidAt t

variable {src dst : String} {edgeType : KGEdgeType} {e : KGEdge} {t : Nat}

theorem mem_triple : e ∈ triple g src dst edgeType ↔ e ∈ between g.outEdges src dst ∧ e.edgeType = edgeType := by
  simp [triple]

/-- The first ends before the second begins. -/
def Precedes (x y : KGEdge) : Prop := ∃ i v, x.invalidAt = some i ∧ y.validAt = some v ∧ i ≤ v

theorem Precedes.not_both_valid {x y : KGEdge} (h : Precedes x y) : ¬ (x.isValidAt t ∧ y.isValidAt t) := by
  obtain ⟨i, v, hi, hv, hle⟩ := h
  simp only [isValidAt, hi, hv, Option.all_some, Bool.and_eq_true, decide_eq_true_eq]
  omega

variable {l : List KGEdge} {s d : String} {ty : KGEdgeType} {now : Nat}

theorem length_le_one_of_pairwise (h : l.Pairwise Precedes) : (l.filter fun e => e.isValidAt t).length ≤ 1 := by
  have hpair := h.filter fun e => e.isValidAt t
  have hvalid : ∀ e ∈ l.filter fun e => e.isValidAt t, e.isValidAt t := fun e he =>
    (mem_filter.mp he).2
  generalize l.filter (fun e => e.isValidAt t) = l' at hpair hvalid
  match l', hpair, hvalid with
  | [], _, _ => exact Nat.zero_le _
  | [_], _, _ => exact Nat.le_refl _
  | x :: y :: rest, hpair, hvalid =>
    have hxy := (pairwise_cons.mp hpair).1 y mem_cons_self
    exact absurd ⟨hvalid x mem_cons_self, hvalid y (mem_cons_of_mem _ mem_cons_self)⟩
      hxy.not_both_valid

/-! ## Timely runs -/

/-- An edge is added in the millisecond it was built, no version of its triple was built in the same one, and the clock
does not go back. -/
def TimelyOp (clock : Nat) (g : PetgraphBackend) : GraphOp → Prop
  | .addEdge e now => clock ≤ now ∧ e.validAt = some now ∧ e.invalidAt = none ∧ e.expiredAt = none ∧
      ∀ x ∈ triple g e.src e.dst e.edgeType, x.createdAt ≠ e.createdAt
  | .invalidateEdge _ _ _ now => clock ≤ now
  | .compactEdges now => clock ≤ now
  | .reopen => False
  | _ => True

/-- The last reading of the clock. -/
def GraphOp.read (clock : Nat) : GraphOp → Nat
  | .addEdge _ now => now
  | .invalidateEdge _ _ _ now => now
  | .compactEdges now => now
  | _ => clock

def Timely (P : GraphPlatform) : Nat → PetgraphBackend → List GraphOp → Prop
  | _, _, [] => True
  | clock, g, op :: ops => TimelyOp clock g op ∧ Timely P (op.read clock) (apply P g op) ops

/-! ## What an operation does to a triple -/

theorem filter_endTriple : (endTriple src dst edgeType now s d l).filter (fun e => e.edgeType = ty) =
      endTriple src dst edgeType now s d (l.filter fun e => e.edgeType = ty) := by
  unfold endTriple
  rw [filter_map]
  refine congrArg _ (filter_congr fun e _ => ?_)
  simp only [Function.comp_apply]
  split <;> rfl

theorem triple_addEdge :
    triple (addEdge P e now g) s d ty = endTriple e.src e.dst e.edgeType now s d (triple g s d ty) ++
      if (s = e.src ∧ d = e.dst) ∧ ty = e.edgeType then [e] else [] := by
  unfold triple
  rw [(between_addEdge e now g s d).1, filter_append, filter_endTriple]
  by_cases hsd : s = e.src ∧ d = e.dst
  · by_cases hty : ty = e.edgeType
    · simp [hsd, hty]
    · simp [hsd, hty, Ne.symm hty]
  · simp [hsd]

variable {now : Nat} {ty : KGEdgeType}

/-- Nothing of another triple is ended. -/
theorem endTriple_of_ne (hl : ∀ x ∈ l, x.edgeType = ty) (hne : ¬ ((s = src ∧ d = dst) ∧ ty = edgeType)) :
    endTriple src dst edgeType now s d l = l := by
  refine (map_congr_left fun x hx => if_neg ?_).trans (map_id _)
  rintro ⟨hsd, hactive⟩
  simp only [active, Bool.and_eq_true, decide_eq_true_eq] at hactive
  exact hne ⟨hsd, (hl x hx).symm.trans hactive.1⟩

variable {g' : PetgraphBackend} {keep : KGEdge → Bool} {op : GraphOp} {e' : KGEdge}

/-- A triple after an operation that is not an addition: its active versions may be ended, and some taken away. -/
theorem triple_of_filter (h : between g'.outEdges s d = (between g.outEdges s d).filter keep) :
    triple g' s d ty = (triple g s d ty).filter keep := by
  unfold triple
  rw [h, filter_comm]

/-! ## Versions in order -/

/-- The versions of each triple follow each other, and none has an end that is still to come. -/
structure InOrder (clock : Nat) (g : PetgraphBackend) : Prop where
  aligned : Aligned g
  ordered : ∀ s d ty, (triple g s d ty).Pairwise Precedes
  ended : ∀ s d ty, ∀ x ∈ triple g s d ty, ∀ i, x.invalidAt = some i → i ≤ clock

theorem InOrder.empty : InOrder 0 .empty where
  aligned := ⟨fun _ _ _ h => (by cases h), fun _ _ => rfl⟩
  ordered _ _ _ := List.Pairwise.nil
  ended _ _ _ _ h := by cases h

/-- A version that is followed by another has an end already, so it is not stamped again. -/
theorem pairwise_endTriple (h : l.Pairwise Precedes) (src dst : String) (edgeType : KGEdgeType) (now : Nat)
    (s d : String) : (endTriple src dst edgeType now s d l).Pairwise Precedes := by
  refine pairwise_map.mpr (h.imp fun {x y} hxy => ?_)
  obtain ⟨i, v, hi, hv, hle⟩ := hxy
  rw [if_neg (by simp [active, hi])]
  refine ⟨i, v, hi, ?_, hle⟩
  split <;> exact hv

theorem ended_endTriple (hclock : clock ≤ now) (h : ∀ x ∈ l, ∀ i, x.invalidAt = some i → i ≤ clock) :
    ∀ x ∈ endTriple src dst edgeType now s d l, ∀ i, x.invalidAt = some i → i ≤ now := by
  intro x hx i hi
  obtain ⟨y, -, -, rfl⟩ | ⟨hx, -⟩ := mem_endTriple.mp hx
  · exact Nat.le_of_eq (Option.some.inj hi).symm
  · exact Nat.le_trans (h x hx i hi) hclock

/-- All versions of the triple have an end after the active ones are stamped. -/
theorem exists_end_of_endTriple (hclock : clock ≤ now) (htype : ∀ x ∈ l, x.edgeType = edgeType)
    (h : ∀ x ∈ l, ∀ i, x.invalidAt = some i → i ≤ clock) :
    ∀ x ∈ endTriple src dst edgeType now src dst l, ∃ i, x.invalidAt = some i ∧ i ≤ now := by
  intro x hx
  obtain ⟨y, -, -, rfl⟩ | ⟨hx, hinactive⟩ := mem_endTriple.mp hx
  · exact ⟨now, rfl, Nat.le_refl _⟩
  · simp only [active, htype x hx, decide_true, Bool.true_and, true_and, Option.isNone_iff_eq_none] at hinactive
    obtain ⟨i, hi⟩ := Option.ne_none_iff_exists'.mp hinactive
    exact ⟨i, hi, Nat.le_trans (h x hx i hi) hclock⟩

theorem type_of_mem_triple : ∀ x ∈ triple g s d ty, x.edgeType = ty :=
  fun _ hx => (mem_triple.mp hx).2

theorem InOrder.addEdge (h : InOrder clock g) (htimely : TimelyOp clock g (.addEdge e now)) :
    InOrder now (addEdge P e now g) := by
  obtain ⟨hclock, hvalid, hinvalid, -, -⟩ := htimely
  refine ⟨h.aligned.addEdge e now, fun s d ty => ?_, fun s d ty x hx i hi => ?_⟩
  · rw [triple_addEdge]
    have hold := pairwise_endTriple (h.ordered s d ty) e.src e.dst e.edgeType now s d
    split
    · rename_i hsame
      obtain ⟨⟨rfl, rfl⟩, rfl⟩ := hsame
      refine pairwise_append.mpr ⟨hold, pairwise_singleton _ _, fun x hx y hy => ?_⟩
      obtain ⟨i, hi, hle⟩ := exists_end_of_endTriple hclock type_of_mem_triple (h.ended _ _ _) x hx
      cases mem_singleton.mp hy
      exact ⟨i, now, hi, hvalid, hle⟩
    · rw [append_nil]
      exact hold
  · rw [triple_addEdge] at hx
    rcases mem_append.mp hx with hx | hx
    · exact ended_endTriple hclock (h.ended s d ty) x hx i hi
    · split at hx
      · rw [mem_singleton.mp hx, hinvalid] at hi
        cases hi
      · exact absurd hx not_mem_nil

theorem triple_invalidateEdge (h : Aligned g) : triple (invalidateEdge P src dst edgeType now g).1 s d ty =
      endTriple src dst edgeType now s d (triple g s d ty) := by
  unfold triple
  rw [between_invalidateEdge h, filter_endTriple]

theorem InOrder.invalidateEdge (h : InOrder clock g) (hclock : clock ≤ now) :
    InOrder now (invalidateEdge P src dst edgeType now g).1 where
  aligned := h.aligned.invalidateEdge src dst edgeType now
  ordered s d ty := by
    rw [triple_invalidateEdge h.aligned]
    exact pairwise_endTriple (h.ordered s d ty) src dst edgeType now s d
  ended s d ty := by
    rw [triple_invalidateEdge h.aligned]
    exact ended_endTriple hclock (h.ended s d ty)

theorem updateNode_edges {id : String} {label : Option String} {properties : Option Value} :
    (updateNode P id label properties g).1.outEdges = g.outEdges ∧
      (updateNode P id label properties g).1.inEdges = g.inEdges := by
  unfold updateNode
  split <;> simp

/-- Versions are removed at most. -/
structure Thinned (g g' : PetgraphBackend) : Prop where
  aligned : Aligned g'
  triples : ∀ s d ty, (triple g' s d ty).Sublist (triple g s d ty)

theorem Thinned.of_filter (haligned : Aligned g') {keep : String → String → KGEdge → Bool}
    (hout : ∀ s d, between g'.outEdges s d = (between g.outEdges s d).filter (keep s d)) : Thinned g g' :=
  ⟨haligned, fun s d ty => by rw [triple_of_filter (hout s d)]; exact filter_sublist⟩

theorem Thinned.of_edges (h : Aligned g) (hout : g'.outEdges = g.outEdges) (hin : g'.inEdges = g.inEdges) :
    Thinned g g' :=
  ⟨⟨by rw [hout]; exact h.filed, by rw [hout, hin]; exact h.pairs⟩, fun s d ty => by rw [triple, hout, triple]⟩

theorem thinned_apply (h : Aligned g) (op : GraphOp) : match op with
    | .addEdge .. | .invalidateEdge .. | .reopen => True | op => Thinned g (apply P g op) := by
  cases op with
  | addNode node => exact .of_edges h (persistNode_outEdges ..) (persistNode_inEdges ..)
  | updateNode id label properties => exact .of_edges h (updateNode_edges ..).1 (updateNode_edges ..).2
  | removeNode id => exact .of_filter (h.removeNode id) fun s d => (between_removeNode h id s d).1
  | removeEdge src dst edgeType =>
    exact .of_filter (h.removeEdge src dst edgeType) fun s d => (between_removeEdge src dst edgeType g s d).1
  | compactEdges now => exact .of_filter (h.compactEdges now) fun s d => (between_compactEdges now g s d).1
  | addEdge | invalidateEdge | reopen => trivial

section

variable (h : InOrder clock g)
include h

theorem InOrder.of_thinned (hthinned : Thinned g g') (hclock : clock ≤ now) : InOrder now g' where
  aligned := hthinned.aligned
  ordered s d ty := (h.ordered s d ty).sublist (hthinned.triples s d ty)
  ended s d ty x hx i hi := Nat.le_trans (h.ended s d ty x ((hthinned.triples s d ty).subset hx) i hi) hclock

theorem InOrder.apply (htimely : TimelyOp clock g op) : InOrder (op.read clock) (apply P g op) := by
  have hthinned := thinned_apply (P := P) h.aligned op
  cases op with
  | addEdge => exact h.addEdge htimely
  | invalidateEdge => exact h.invalidateEdge htimely
  | compactEdges => exact h.of_thinned hthinned htimely
  | reopen => exact htimely.elim
  | _ => exact h.of_thinned hthinned (Nat.le_refl _)

/-- Up to any point of a timely run the versions are in order, and from there on the run is timely. -/
theorem inOrder_run {pre post : List GraphOp} (hrun : Timely P clock g (pre ++ post)) :
    ∃ now, InOrder now (runGraph P g pre) ∧ Timely P now (runGraph P g pre) post := by
  induction pre generalizing g clock with
  | nil => exact ⟨clock, h, hrun⟩
  | cons op pre ih => exact ih (h.apply hrun.1) hrun.2

/-! ## The latest version -/

/-- The operation adds, ends or removes versions of the triple of the edge. -/
def Touches (e : KGEdge) : GraphOp → Prop
  | .addEdge x _ => (e.src = x.src ∧ e.dst = x.dst) ∧ e.edgeType = x.edgeType
  | .invalidateEdge src dst edgeType _ => (e.src = src ∧ e.dst = dst) ∧ e.edgeType = edgeType
  | .removeEdge src dst edgeType => (e.src = src ∧ e.dst = dst) ∧ edgeType.all (· = e.edgeType)
  | .removeNode id => e.src = id ∨ e.dst = id
  | _ => False

/-- The edge is the last version of its triple, and the others have ended by `now`. -/
def Latest (e : KGEdge) (now : Nat) (g : PetgraphBackend) : Prop :=
  ∃ earlier, triple g e.src e.dst e.edgeType = earlier ++ [e] ∧
    ∀ x ∈ earlier, (∃ i, x.invalidAt = some i ∧ i ≤ now) ∧ x.createdAt ≠ e.createdAt

theorem Latest.of_addEdge (htimely : TimelyOp clock g (.addEdge e now)) : Latest e now (addEdge P e now g) := by
  refine ⟨endTriple e.src e.dst e.edgeType now e.src e.dst (triple g e.src e.dst e.edgeType), ?_, fun x hx => ?_⟩
  · rw [triple_addEdge, if_pos ⟨⟨rfl, rfl⟩, rfl⟩]
  · refine ⟨exists_end_of_endTriple htimely.1 type_of_mem_triple (h.ended _ _ _) x hx, ?_⟩
    obtain ⟨y, hy, -, rfl⟩ | ⟨hx, -⟩ := mem_endTriple.mp hx
    · exact htimely.2.2.2.2 y hy
    · exact htimely.2.2.2.2 x hx

end

section

variable (h : Latest e now g)
include h

theorem Latest.of_filter (hkeep : keep e)
    (hout : triple g' e.src e.dst e.edgeType = (triple g e.src e.dst e.edgeType).filter keep) : Latest e now g' := by
  obtain ⟨earlier, hlist, hended⟩ := h
  refine ⟨earlier.filter keep, ?_, fun x hx => hended x (mem_of_mem_filter hx)⟩
  rw [hout, hlist, filter_append, filter_singleton, hkeep]
  rfl

theorem Latest.of_eq (hout : triple g' e.src e.dst e.edgeType = triple g e.src e.dst e.edgeType) : Latest e now g' := by
  unfold Latest
  rw [hout]
  exact h

/-- An edge that has not ended is not compacted away, and no stale edge has its version. -/
theorem Latest.kept_by_compaction (haligned : Aligned g) (hinvalid : e.invalidAt = none)
    (hexpired : e.expiredAt = none) : keptByCompaction (stale t g) e.src e.dst e := by
  refine all_eq_true.mpr fun r hr => ?_
  by_contra hdrop
  simp only [Bool.or_eq_true, decide_eq_true_eq, Bool.not_eq_true', not_or, not_not, Bool.not_eq_false,
    Bool.and_eq_true] at hdrop
  obtain ⟨hsrc, hdst, htype, hcreated⟩ := hdrop
  obtain ⟨hr, hstale⟩ := mem_filter.mp hr
  obtain ⟨x, hx, rfl⟩ := mem_map.mp hr
  obtain ⟨s, hx⟩ := Multimap.mem_toList.mp hx
  have hbetween := mem_between.mpr hx
  obtain ⟨hs, hd⟩ := haligned.out hbetween
  rw [← hs, ← hd, hsrc, ← hdst] at hbetween
  obtain ⟨earlier, hlist, hended⟩ := h
  have hmem := mem_triple.mpr ⟨hbetween, htype.symm⟩
  rw [hlist, mem_append, mem_singleton] at hmem
  rcases hmem with hmem | rfl
  · exact (hended _ hmem).2 hcreated.symm
  · simp [isStale, hinvalid, hexpired] at hstale

theorem Latest.apply (hinvalid : e.invalidAt = none) (hexpired : e.expiredAt = none)
    (haligned : Aligned g) (htimely : TimelyOp clock g op) (hother : ¬ Touches e op) : Latest e now (apply P g op) := by
  cases op with
  | addNode node => exact h.of_eq (by simp [Graph.apply, addNode, triple])
  | addEdge x t =>
    have hne : ¬ ((e.src = x.src ∧ e.dst = x.dst) ∧ e.edgeType = x.edgeType) := hother
    refine h.of_eq (triple_addEdge.trans ?_)
    rw [if_neg hne, append_nil, endTriple_of_ne type_of_mem_triple hne]
  | updateNode id label properties =>
    refine h.of_eq ?_
    unfold triple
    rw [show (Graph.apply P g (.updateNode id label properties)).outEdges = g.outEdges from (updateNode_edges ..).1]
  | removeNode id =>
    refine h.of_filter ?_ (triple_of_filter (between_removeNode haligned id _ _).1)
    simpa [Touches] using hother
  | removeEdge src dst edgeType =>
    refine h.of_filter ?_ (triple_of_filter (between_removeEdge src dst edgeType g _ _).1)
    by_contra hdrop
    simp only [keptByRemoveEdge, ne_eq, Bool.or_eq_true, decide_eq_true_eq, Bool.not_eq_true', not_or, not_not,
      Bool.not_eq_false, Bool.and_eq_true] at hdrop
    exact hother ⟨⟨hdrop.1.symm, hdrop.2.1⟩, hdrop.2.2⟩
  | invalidateEdge src dst edgeType t =>
    refine h.of_eq ((triple_invalidateEdge haligned).trans ?_)
    exact endTriple_of_ne type_of_mem_triple hother
  | compactEdges t =>
    exact h.of_filter (h.kept_by_compaction haligned hinvalid hexpired)
      (triple_of_filter (between_compactEdges ..).1)
  | reopen => exact htimely.elim

theorem latest_run {ops : List GraphOp} (hinvalid : e.invalidAt = none)
    (hexpired : e.expiredAt = none) (horder : InOrder clock g) (hrun : Timely P clock g ops)
    (hothers : ∀ op ∈ ops, ¬ Touches e op) : Latest e now (runGraph P g ops) := by
  induction ops generalizing g clock with
  | nil => exact h
  | cons op ops ih =>
    obtain ⟨hother, hothers⟩ := forall_mem_cons.mp hothers
    exact ih (h.apply hinvalid hexpired horder.aligned hrun.1 hother) (horder.apply hrun.1) hrun.2 hothers

theorem Latest.valid (hvalid : e.validAt = some now) (hinvalid : e.invalidAt = none)
    (hexpired : e.expiredAt = none) (ht : now ≤ t) : validVersions g e.src e.dst e.edgeType t = [e] := by
  obtain ⟨earlier, hlist, hended⟩ := h
  have hnone : (earlier.filter fun x => x.isValidAt t) = [] := by
    refine filter_eq_nil_iff.mpr fun x hx => ?_
    obtain ⟨⟨i, hi, hle⟩, -⟩ := hended x hx
    simp only [isValidAt, hi, Option.all_some, Bool.and_eq_true, decide_eq_true_eq]
    omega
  have hself : e.isValidAt t := by simp [isValidAt, hvalid, hinvalid, hexpired, ht]
  rw [validVersions, hlist, filter_append, hnone, filter_singleton, hself]
  rfl

end

/-! ## The query -/

theorem getValidEdgeBetween_eq {ty : Option KGEdgeType} :
    getValidEdgeBetween src dst ty t g = latest ((between g.outEdges src dst).filter fun e => e.isValidAt t) := by
  unfold getValidEdgeBetween between
  rw [filter_map, filter_filter]
  simp only [Function.comp_def, Bool.and_comm]

theorem latest_of_length_le_one (h : l.length ≤ 1) : latest l = l.head? := by
  cases l with
  | nil => rfl
  | cons e es =>
    obtain rfl : es = [] := eq_nil_of_length_eq_zero (by simpa using h)
    rfl

theorem getValidEdgeBetween_of_type (htype : ∀ e ∈ between g.outEdges src dst, e.isValidAt t → e.edgeType = ty)
    (hone : (validVersions g src dst ty t).length ≤ 1) :
    getValidEdgeBetween src dst (some ty) t g = (validVersions g src dst ty t).head? := by
  have hsame : ((between g.outEdges src dst).filter fun e => e.isValidAt t) = validVersions g src dst ty t := by
    unfold validVersions triple
    rw [filter_filter]
    refine filter_congr fun e he => ?_
    by_cases hvalid : e.isValidAt t
    · simp [htype e he hvalid]
    · simp [hvalid]
  rw [getValidEdgeBetween_eq, hsame, latest_of_length_le_one hone]

/-! ## Whole runs -/

/-- In a timely run at most one version of each triple is valid at any time; an added version that nothing has touched
since is the one that is valid from its addition on; and the query for a type finds the version that is valid, as long
as no edge of another type is valid between the two nodes. -/
theorem one_version_at_a_time {ops : List GraphOp} (hrun : Timely P 0 .empty ops) :
    (∀ src dst ty t, (validVersions (runGraph P .empty ops) src dst ty t).length ≤ 1) ∧
      (∀ pre e now post, ops = pre ++ .addEdge e now :: post → (∀ op ∈ post, ¬ Touches e op) → ∀ t, now ≤ t →
        validVersions (runGraph P .empty ops) e.src e.dst e.edgeType t = [e]) ∧
      ∀ src dst ty t,
        (∀ e ∈ between (runGraph P .empty ops).outEdges src dst, e.isValidAt t → e.edgeType = ty) →
        getValidEdgeBetween src dst (some ty) t (runGraph P .empty ops) =
          (validVersions (runGraph P .empty ops) src dst ty t).head? := by
  have hwhole : Timely P 0 .empty (ops ++ []) := by rwa [append_nil]
  obtain ⟨clock, horder, -⟩ := inOrder_run .empty hwhole
  have hone : ∀ src dst ty t, (validVersions (runGraph P .empty ops) src dst ty t).length ≤ 1 := fun src dst ty t =>
    length_le_one_of_pairwise (horder.ordered src dst ty)
  refine ⟨hone, ?_, fun src dst ty t htype => getValidEdgeBetween_of_type htype (hone src dst ty t)⟩
  rintro pre e now post rfl hothers t ht
  obtain ⟨before, hbefore, htimely, hpost⟩ := inOrder_run .empty hrun
  obtain ⟨-, hvalid, hinvalid, hexpired, -⟩ := id htimely
  have hlatest := latest_run (.of_addEdge hbefore htimely) hinvalid hexpired (hbefore.apply htimely) hpost hothers
  rw [show runGraph P .empty (pre ++ .addEdge e now :: post) =
    runGraph P (apply P (runGraph P .empty pre) (.addEdge e now)) post by simp [runGraph]]
  exact hlatest.valid hvalid hinvalid hexpired ht

/-- Three versions of one triple and an edge of another type, long enough ago to be compacted. -/
def timelyRun : List GraphOp :=
  [.addEdge (.new "a" "b" .relatedTo 1 5) 5, .addEdge (.new "a" "b" .relatedTo 1 9) 9,
    .invalidateEdge "a" "b" .relatedTo 12, .addEdge (.new "a" "b" .relatedTo 2 20) 20,
    .addEdge (.new "a" "c" .mentions 1 20) 20, .compactEdges (maxAgeMs + 10)]

theorem timelyRun_timely : Timely (listedRows [] []) 0 .empty timelyRun := by
  refine ⟨⟨by decide, rfl, rfl, rfl, ?_⟩, ?_⟩
  · decide +kernel
  refine ⟨⟨by decide, rfl, rfl, rfl, ?_⟩, (by decide : 9 ≤ 12), ?_⟩
  · decide +kernel
  refine ⟨⟨by decide, rfl, rfl, rfl, ?_⟩, ⟨by decide, rfl, rfl, rfl, ?_⟩, (by simp [maxAgeMs] : 20 ≤ maxAgeMs + 10),
    trivial⟩
  · decide +kernel
  · decide +kernel

theorem timely_run_one_version :
    (∀ src dst ty t, (validVersions (runGraph (listedRows [] []) .empty timelyRun) src dst ty t).length ≤ 1) ∧
      (∀ t, 20 ≤ t → validVersions (runGraph (listedRows [] []) .empty timelyRun) "a" "b" .relatedTo t =
        [.new "a" "b" .relatedTo 2 20]) ∧
      getValidEdgeBetween "a" "b" (some .relatedTo) 10 (runGraph (listedRows [] []) .empty timelyRun) =
        some (invalidate 12 (.new "a" "b" .relatedTo 1 9)) := by
  obtain ⟨hone, hlast, hquery⟩ := one_version_at_a_time timelyRun_timely
  refine ⟨hone, fun t ht => ?_, ?_⟩
  · exact hlast (timelyRun.take 3) _ _ (timelyRun.drop 4) rfl (by simp [timelyRun, Touches, new]) t ht
  · rw [hquery "a" "b" .relatedTo 10 (by decide +kernel)]
    decide +kernel

/-- An edge built at 7 and inserted at 9 overlaps its predecessor; the query for one type answers with an edge of
another; and compaction of a replaced version takes the version of the same millisecond that replaced it. -/
theorem versions_overlap_mixed_up_and_lost :
    let P := listedRows [] []
    let delayed := runGraph P .empty
      [.addEdge (.new "a" "b" .relatedTo 1 5) 5, .addEdge (.new "a" "b" .relatedTo 1 7) 9]
    let mixed := runGraph P .empty [.addEdge (.new "a" "b" .relatedTo 1 5) 5, .addEdge (.new "a" "b" .mentions 1 6) 6]
    let compacted := runGraph P .empty [.addEdge (.new "a" "b" .relatedTo 1 5) 5,
      .addEdge (.new "a" "b" .relatedTo 2 5) 5, .compactEdges (maxAgeMs + 6)]
    validVersions delayed "a" "b" .relatedTo 8 =
        [invalidate 9 (.new "a" "b" .relatedTo 1 5), .new "a" "b" .relatedTo 1 7] ∧
      validVersions mixed "a" "b" .relatedTo 7 = [.new "a" "b" .relatedTo 1 5] ∧
      getValidEdgeBetween "a" "b" (some .relatedTo) 7 mixed = some (.new "a" "b" .mentions 1 6) ∧
      validVersions compacted "a" "b" .relatedTo (maxAgeMs + 6) = [] := by
  refine ⟨?_, ?_, ?_, ?_⟩ <;> decide +kernel

/-! ## Consolidation

An expired version is inserted as a new one: the version that it is a copy of stays, and the valid version is put an
end to. -/

/-- The present of a triple is left as it is, and of its past the last `n` versions; nothing else changes, the number of
expired versions is returned, and nothing is left to do. -/
structure Consolidates (P : GraphPlatform) (src dst : String) (edgeType : KGEdgeType) (n now : Nat)
    (rank : KGEdge → Nat) (clock : Nat → Nat) (g : PetgraphBackend) (result : PetgraphBackend × Nat) : Prop where
  present : ∀ e ∈ triple g src dst edgeType, e.invalidAt = none → e.expiredAt = none →
    e ∈ triple result.1 src dst edgeType
  past : ((triple result.1 src dst edgeType).filter isPast).Perm
    ((byRecency rank ((triple g src dst edgeType).filter isPast)).take n)
  others : ∀ s d ty, (s, d, ty) ≠ (src, dst, edgeType) → triple result.1 s d ty = triple g s d ty
  count : result.2 = ((triple g src dst edgeType).filter isPast).length - n
  again : (consolidateVersions P src dst edgeType n now rank clock result.1).2 = 0

theorem edgeHistory_eq_triple : edgeHistory src dst (some edgeType) g = triple g src dst edgeType := by
  rw [triple, between, filter_map, filter_filter]
  refine congrArg _ (filter_congr fun x _ => ?_)
  simp [removable, Bool.and_comm, eq_comm]

/-- An insertion puts an end to versions and brings none back. -/
theorem countP_isPast_addEdge :
    (triple g src dst edgeType).countP isPast ≤ (triple (addEdge P e now g) src dst edgeType).countP isPast := by
  rw [triple_addEdge, countP_append, endTriple, countP_map]
  refine Nat.le_add_right_of_le (countP_mono_left fun x _ hx => ?_)
  rw [Function.comp_apply]
  split
  · simp_all [isPast, invalidate]
  · exact hx

theorem countP_isPast_insertions (now : Nat) (clock : Nat → Nat) (l : List (KGEdge × Nat)) (g : PetgraphBackend) :
    (triple g src dst edgeType).countP isPast ≤ (triple (l.foldl (fun g x =>
      addEdge P { x.1 with expiredAt := some now } (clock x.2) g) g) src dst edgeType).countP isPast := by
  induction l generalizing g with
  | nil => exact le_rfl
  | cons x l ih => exact countP_isPast_addEdge.trans (ih _)

/-- Consolidation does what it is for exactly when there is nothing to expire. -/
theorem consolidates_iff (P : GraphPlatform) (src dst : String) (edgeType : KGEdgeType) (n now : Nat)
    (rank : KGEdge → Nat) (clock : Nat → Nat) (g : PetgraphBackend) :
    Consolidates P src dst edgeType n now rank clock g (consolidateVersions P src dst edgeType n now rank clock g) ↔
      (triple g src dst edgeType).countP isPast ≤ n := by
  rw [countP_eq_length_filter]
  constructor
  · intro h
    by_contra hexcess
    have hkept := h.past.length_eq
    rw [length_take, ← countP_eq_length_filter] at hkept
    have hgrown := @countP_isPast_insertions P src dst edgeType now clock
      ((byRecency rank ((triple g src dst edgeType).filter isPast)).drop n).zipIdx g
    rw [consolidateVersions, edgeHistory_eq_triple, if_neg hexcess] at hkept
    rw [hkept, countP_eq_length_filter] at hgrown
    omega
  · intro hfew
    have hsame : consolidateVersions P src dst edgeType n now rank clock g = (g, 0) := by
      rw [consolidateVersions, edgeHistory_eq_triple, if_pos hfew]
    rw [hsame]
    refine ⟨fun e he _ _ => he, ?_, fun s d ty _ => rfl, (Nat.sub_eq_zero_of_le hfew).symm, by rw [hsame]⟩
    rw [take_of_length_le (by rwa [byRecency, length_mergeSort])]
    exact (mergeSort_perm _ _).symm

/-- The valid version is ended and the one before it does not expire: now two versions are past and none is valid. -/
theorem consolidation_ends_the_present :
    let P := listedRows [] []
    let g := runGraph P .empty [.addEdge (.new "a" "b" .relatedTo 1 5) 5, .addEdge (.new "a" "b" .relatedTo 1 9) 9]
    let result := consolidateVersions P "a" "b" .relatedTo 0 20 (fun _ => 0) (fun _ => 20) g
    result.2 = 1 ∧ triple g "a" "b" .relatedTo =
    [invalidate 9 (.new "a" "b" .relatedTo 1 5), .new "a" "b" .relatedTo 1 9] ∧
      (triple result.1 "a" "b" .relatedTo).take 2 =
        [invalidate 9 (.new "a" "b" .relatedTo 1 5), invalidate 20 (.new "a" "b" .relatedTo 1 9)] ∧
      (triple result.1 "a" "b" .relatedTo).countP isPast = 2 := by
  refine ⟨?_, ?_, ?_, ?_⟩ <;> decide +kernel

/-! ## Differences

The agent is not looked at, and triples are compared by texts that the nodes' ids can make equal. -/

def KGEdge.fact (e : KGEdge) : String × String × KGEdgeType := (e.src, e.dst, e.edgeType)

/-- An end of the edge is a node of the agent. -/
def touches (agentId : String) (g : PetgraphBackend) (e : KGEdge) : Bool :=
  [e.src, e.dst].any fun id => (g.nodes.lookup id).any (·.agentId = agentId)

/-- The triples of the agent's edges that are valid at a time. -/
def factsAt (agentId : String) (t : Nat) (g : PetgraphBackend) : List (String × String × KGEdgeType) :=
  ((getValidEdgesAt t g).filter (touches agentId g)).map fact

/-- The difference divides the agent's facts of two times. -/
structure Divides (agentId : String) (t1 t2 : Nat) (g : PetgraphBackend) (d : TemporalDiff) : Prop where
  owned : ∀ e ∈ d.added ++ d.removed ++ d.unchanged, touches agentId g e
  added_removed : (d.added.map fact).Disjoint (d.removed.map fact)
  added_unchanged : (d.added.map fact).Disjoint (d.unchanged.map fact)
  removed_unchanged : (d.removed.map fact).Disjoint (d.unchanged.map fact)
  after : ∀ x, x ∈ (d.unchanged ++ d.added).map fact ↔ x ∈ factsAt agentId t2 g
  before : ∀ x, x ∈ (d.unchanged ++ d.removed).map fact ↔ x ∈ factsAt agentId t1 g

/-- Different triples of edges that are valid at the two times make different texts. -/
def TextsTell (t1 t2 : Nat) (g : PetgraphBackend) : Prop :=
  ∀ e ∈ getValidEdgesAt t1 g, ∀ e' ∈ getValidEdgesAt t2 g,
    e.src ++ "|" ++ e.dst ++ "|" ++ e.edgeType.debug = e'.src ++ "|" ++ e'.dst ++ "|" ++ e'.edgeType.debug →
      e.fact = e'.fact

theorem diffKey_of_fact (h : e.fact = e'.fact) : e.diffKey = e'.diffKey := by
  simp only [fact, Prod.mk.injEq] at h
  rw [diffKey, h.1, h.2.1, h.2.2]
  rfl

section

variable {agentId : String} {t1 t2 : Nat}

theorem touches_of_fact (h : e.fact = e'.fact) : touches agentId g e = touches agentId g e' := by
  simp only [fact, Prod.mk.injEq] at h
  rw [touches, h.1, h.2.1]
  rfl

theorem Divides.same_key (h : Divides agentId t1 t2 g (temporalDiff agentId t1 t2 g)) (he : e ∈ getValidEdgesAt t1 g)
    (he' : e' ∈ getValidEdgesAt t2 g) (hkey : e.diffKey = e'.diffKey) : e'.fact ∈ factsAt agentId t1 g := by
  refine (h.before _).mp (mem_map.mpr ⟨e', mem_append_left _ ?_, rfl⟩)
  simp only [temporalDiff, filter_true, mem_filter, mem_map, decide_eq_true_eq]
  exact ⟨he', e, he, hkey⟩

/-- Every edge that is reported touches a node of the agent; the others are those of the first time whose key is there
at both times. -/
theorem Divides.owned_edges (h : Divides agentId t1 t2 g (temporalDiff agentId t1 t2 g)) (htexts : TextsTell t1 t2 g) :
    ∀ e ∈ getValidEdgesAt t1 g ++ getValidEdgesAt t2 g, touches agentId g e := by
  have howned := h.owned
  simp only [temporalDiff, filter_true, mem_append, mem_filter, mem_map, decide_eq_true_eq] at howned
  intro e he
  rcases mem_append.mp he with he | he
  · by_cases hkey : ∃ a ∈ getValidEdgesAt t2 g, a.diffKey = e.diffKey
    · obtain ⟨e', he', hkey⟩ := hkey
      obtain ⟨x, hx, hfact⟩ := mem_map.mp (h.same_key he he' hkey.symm)
      rw [touches_of_fact ((htexts e he e' he' hkey.symm).trans hfact.symm)]
      exact (mem_filter.mp hx).2
    · exact howned e (.inl (.inr ⟨he, hkey⟩))
  · by_cases hkey : ∃ a ∈ getValidEdgesAt t1 g, a.diffKey = e.diffKey
    · exact howned e (.inr ⟨he, hkey⟩)
    · exact howned e (.inl (.inl ⟨he, hkey⟩))

theorem divides_of_owned (howned : ∀ e ∈ getValidEdgesAt t1 g ++ getValidEdgesAt t2 g, touches agentId g e)
    (htexts : TextsTell t1 t2 g) : Divides agentId t1 t2 g (temporalDiff agentId t1 t2 g) := by
  obtain ⟨howned₁, howned₂⟩ := forall_mem_append.mp howned
  constructor
  all_goals simp only [temporalDiff, factsAt, filter_true, mem_append, mem_filter, mem_map, decide_eq_true_eq,
      List.Disjoint]
  · rintro e ((⟨he, -⟩ | ⟨he, -⟩) | ⟨he, -⟩)
    · exact howned₂ e he
    · exact howned₁ e he
    · exact howned₂ e he
  · rintro _ ⟨e, ⟨he, -⟩, rfl⟩ ⟨e', ⟨-, hkey⟩, hfact⟩
    exact hkey ⟨e, he, (diffKey_of_fact hfact).symm⟩
  · rintro _ ⟨e, ⟨-, hkey⟩, rfl⟩ ⟨e', ⟨-, hkey'⟩, hfact⟩
    exact hkey (diffKey_of_fact hfact ▸ hkey')
  · rintro _ ⟨e, ⟨-, hkey⟩, rfl⟩ ⟨e', ⟨he', -⟩, hfact⟩
    exact hkey ⟨e', he', diffKey_of_fact hfact⟩
  · refine fun x => ⟨?_, ?_⟩
    · rintro ⟨e, ⟨he, -⟩ | ⟨he, -⟩, rfl⟩
      all_goals exact ⟨e, ⟨he, howned₂ e he⟩, rfl⟩
    · rintro ⟨e, ⟨he, -⟩, rfl⟩
      refine ⟨e, ?_, rfl⟩
      by_cases hkey : ∃ a ∈ getValidEdgesAt t1 g, a.diffKey = e.diffKey
      · exact .inl ⟨he, hkey⟩
      · exact .inr ⟨he, hkey⟩
  · refine fun x => ⟨?_, ?_⟩
    · rintro ⟨e, ⟨he, e', he', hkey⟩ | ⟨he, -⟩, rfl⟩
      · exact ⟨e', ⟨he', howned₁ e' he'⟩, htexts e' he' e he hkey⟩
      · exact ⟨e, ⟨he, howned₁ e he⟩, rfl⟩
    · rintro ⟨e, ⟨he, -⟩, rfl⟩
      by_cases hkey : ∃ a ∈ getValidEdgesAt t2 g, a.diffKey = e.diffKey
      · obtain ⟨e', he', hkey⟩ := hkey
        exact ⟨e', .inl ⟨he', e, he, hkey.symm⟩, (htexts e he e' he' hkey.symm).symm⟩
      · exact ⟨e, .inr ⟨he, hkey⟩, rfl⟩

end

/-- Where different triples make different texts, the difference divides the agent's facts exactly when every edge
that is valid at one of the times touches a node of the agent. In any case, when it does so, an edge of the second
time whose text is that of an edge of the first time is a fact of the agent at the first time too. -/
theorem temporalDiff_divides_iff (agentId : String) (t1 t2 : Nat) (g : PetgraphBackend) :
    (TextsTell t1 t2 g → (Divides agentId t1 t2 g (temporalDiff agentId t1 t2 g) ↔
      ∀ e ∈ getValidEdgesAt t1 g ++ getValidEdgesAt t2 g, touches agentId g e)) ∧
    (Divides agentId t1 t2 g (temporalDiff agentId t1 t2 g) →
      ∀ e ∈ getValidEdgesAt t1 g, ∀ e' ∈ getValidEdgesAt t2 g,
        e.src ++ "|" ++ e.dst ++ "|" ++ e.edgeType.debug = e'.src ++ "|" ++ e'.dst ++ "|" ++ e'.edgeType.debug →
          e'.fact ∈ factsAt agentId t1 g) :=
  ⟨fun htexts => ⟨fun h => h.owned_edges htexts, fun howned => divides_of_owned howned htexts⟩,
    fun h _ he _ he' => h.same_key he he'⟩

/-- To another agent the edges of the agent's nodes are reported, and to the agent itself a new fact as unchanged. -/
theorem difference_of_others :
    let e := new "x" "y|z" .relatedTo 1 5
    let e' := new "x|y" "z" .relatedTo 1 9
    let node := fun id => KGNode.mk id id .entity none .null "agent" "tenant" 1 none none none
    let g := runGraph (listedRows [] []) .empty [.addNode (node "x"), .addNode (node "z"), .addEdge e 5, .addEdge e' 9]
    temporalDiff "other" 2 9 g = ⟨[e', e], [], []⟩ ∧ factsAt "other" 9 g = [] ∧
      ¬ Divides "other" 2 9 g (temporalDiff "other" 2 9 g) ∧
      temporalDiff "agent" 5 9 g = ⟨[], [], [e', e]⟩ ∧ factsAt "agent" 5 g = [e.fact] ∧
      factsAt "agent" 9 g = [e'.fact, e.fact] ∧ ¬ Divides "agent" 5 9 g (temporalDiff "agent" 5 9 g) := by
  refine ⟨by decide +kernel, by decide +kernel, fun h => ?_, by decide +kernel, by decide +kernel, by decide +kernel,
    fun h => ?_⟩
  · exact absurd (h.owned (.new "x" "y|z" .relatedTo 1 5) (by decide +kernel)) (by decide +kernel)
  · exact absurd ((h.before ("x|y", "z", .relatedTo)).mp (by decide +kernel)) (by decide +kernel)

end Plico.Graph
