import Plico.Framework.Fold
import Plico.Framework.Log
import Plico.Model.Fs.Graph
import Plico.Model.Memory.Json

/-!
# The rows of the edges

The key of a row joins the endpoints, the type and the time of creation of an edge with bars. It has four parts exactly
when neither endpoint has a bar in it (`splitKey_eq_four`, `splitKey_of_plain`), and then it determines all of them
(`key_inj`). Every row that the operations write is under the key of its own edge (`Rows`), and `lookup_putEdges` and
`lookup_removeEdges` say which rows there are after a transaction.
-/

namespace Plico.Graph

open Option Json List

variable {P : GraphPlatform} {e e' : KGEdge} {edges : List KGEdge} {table : AList (fun _ : String => Bytes)}

/-! ## Keys -/

/-- Neither endpoint of the edge has a bar in it. -/
def KGEdge.Plain (e : KGEdge) : Prop := '|' ∉ e.src.toList ∧ '|' ∉ e.dst.toList

theorem bar_notMem_debug {t : KGEdgeType} : '|' ∉ t.debug.toList := by
  cases t <;> decide

theorem bar_notMem_toString {n : Nat} : '|' ∉ (toString n).toList := by
  intro h
  rw [show (toString n).toList = Nat.toDigits 10 n from Nat.toList_repr] at h
  exact absurd (Nat.isDigit_of_mem_toDigits (by decide) (by decide) h) (by decide)

theorem splitOn_key : e.key.toList.splitOn '|' = e.src.toList.splitOn '|' ++ e.dst.toList.splitOn '|' ++
    [e.edgeType.debug.toList, (toString e.createdAt).toList] := by
  have hkey : e.key.toList = e.src.toList ++ '|' :: (e.dst.toList ++ '|' :: (e.edgeType.debug.toList ++
      '|' :: (toString e.createdAt).toList)) := by
    simp only [KGEdge.key, edgeKey, String.toList_append, show "|".toList = ['|'] from rfl, append_assoc,
      cons_append, nil_append]
  rw [hkey, splitOn_append_cons_self, splitOn_append_cons_self, splitOn_append_cons_self,
    splitOn_eq_singleton bar_notMem_debug, splitOn_eq_singleton bar_notMem_toString, append_assoc]
  rfl

theorem splitKey_of_plain (h : e.Plain) : splitKey e.key = [e.src, e.dst, e.edgeType.debug, toString e.createdAt] := by
  rw [splitKey, splitOn_key, splitOn_eq_singleton h.1, splitOn_eq_singleton h.2]
  simp only [cons_append, nil_append, map_cons, map_nil, String.ofList_toList]

/-- A list that is not split has no bar in it. -/
theorem bar_notMem_of_length_splitOn {l : List Char} (h : (l.splitOn '|').length = 1) : '|' ∉ l := by
  intro hbar
  obtain ⟨pre, post, rfl⟩ := append_of_mem hbar
  rw [splitOn_append_cons_self, length_append] at h
  have hpre := length_pos_of_ne_nil (splitOn_ne_nil '|' pre)
  have hpost := length_pos_of_ne_nil (splitOn_ne_nil '|' post)
  omega

theorem plain_of_length_splitKey (h : (splitKey e.key).length = 4) : e.Plain := by
  simp only [splitKey, length_map, splitOn_key, length_append, length_cons] at h
  have hsrc := length_pos_of_ne_nil (splitOn_ne_nil '|' e.src.toList)
  have hdst := length_pos_of_ne_nil (splitOn_ne_nil '|' e.dst.toList)
  exact ⟨bar_notMem_of_length_splitOn (by omega), bar_notMem_of_length_splitOn (by omega)⟩

theorem splitKey_eq_four {a b c d : String} (h : splitKey e.key = [a, b, c, d]) : a = e.src ∧ b = e.dst ∧ e.Plain := by
  have hplain : e.Plain := plain_of_length_splitKey (by rw [h]; rfl)
  rw [splitKey_of_plain hplain] at h
  simp only [List.cons.injEq] at h
  exact ⟨h.1.symm, h.2.1.symm, hplain⟩

theorem debug_inj {t t' : KGEdgeType} (h : t.debug = t'.debug) : t = t' := by
  revert h
  cases t <;> cases t' <;> decide

theorem key_inj (h : e.Plain) (h' : e'.Plain) (hkey : e.key = e'.key) :
    e.src = e'.src ∧ e.dst = e'.dst ∧ e.edgeType = e'.edgeType ∧ e.createdAt = e'.createdAt := by
  have hsplit := congrArg splitKey hkey
  rw [splitKey_of_plain h, splitKey_of_plain h'] at hsplit
  simp only [List.cons.injEq] at hsplit
  exact ⟨hsplit.1, hsplit.2.1, debug_inj hsplit.2.2.1, toString_inj hsplit.2.2.2.1⟩

/-! ## Rows -/

/-- Every row is under the key of an edge to which its bytes belong. -/
def Rows (R : KGEdge → Bytes → Prop) (table : AList (fun _ : String => Bytes)) : Prop :=
  ∀ k b, table.lookup k = some b → ∃ e : KGEdge, e.key = k ∧ R e b

variable {R : KGEdge → Bytes → Prop} {b : Bytes} {k : String}

theorem Rows.insert (h : Rows R table) (he : R e b) : Rows R (table.insert e.key b) := by
  intro k c hk
  obtain ⟨rfl, rfl⟩ | ⟨-, hk⟩ := lookup_insert_eq_some.mp hk
  · exact ⟨e, rfl, he⟩
  · exact h k c hk

theorem Rows.erase (h : Rows R table) (key : String) : Rows R (table.erase key) :=
  fun k c hk => h k c (lookup_erase_eq_some.mp hk).2

theorem Rows.removeEdges (h : Rows R table) : Rows R (removeEdges edges table) := by
  induction edges generalizing table with
  | nil => exact h
  | cons e es ih => exact ih (h.erase e.key)

theorem Rows.putEdges (h : Rows R table) (hR : ∀ e ∈ edges, ∀ b, P.edge.toVec e = some b → R e b) :
    Rows R (putEdges P edges table) := by
  unfold Graph.putEdges
  split
  · rename_i hall
    induction edges generalizing table with
    | nil => exact h
    | cons e es ih =>
      rw [all_cons, Bool.and_eq_true, isSome_iff_exists] at hall
      obtain ⟨⟨b, hb⟩, hall⟩ := hall
      obtain ⟨he, hes⟩ := forall_mem_cons.mp hR
      refine ih (h.insert (he _ ?_)) hes hall
      rw [hb, getD_some]
  · exact h

/-! ## What the rows hold after a transaction -/

/-- The text of the value is there, and the value is read back from it. -/
def Written {α : Type} (c : Serde α) (a : α) : Prop := ∃ bytes, c.toVec a = some bytes ∧ c.fromSlice bytes = some a

instance {α : Type} [DecidableEq α] (c : Serde α) (a : α) : Decidable (Written c a) :=
  decidable_of_iff ((c.toVec a).bind c.fromSlice = some a) bind_eq_some_iff

theorem putEdges_nil : putEdges P [] table = table := rfl

theorem putEdges_cons (h : Written P.edge e) (hes : ∀ x ∈ edges, Written P.edge x) :
    putEdges P (e :: edges) table = putEdges P edges (table.insert e.key ((P.edge.toVec e).getD [])) := by
  have hall : edges.all fun x => (P.edge.toVec x).isSome := by
    refine all_eq_true.mpr fun x hx => ?_
    obtain ⟨b, hb, -⟩ := hes x hx
    rw [hb]
    rfl
  obtain ⟨b, hb, -⟩ := h
  unfold putEdges
  rw [all_cons, hall, foldl_cons, hb]
  rfl

theorem putEdges_append {edges' : List KGEdge} (h : ∀ x ∈ edges, Written P.edge x)
    (h' : ∀ x ∈ edges', Written P.edge x) :
    putEdges P (edges ++ edges') table = putEdges P edges' (putEdges P edges table) := by
  induction edges generalizing table with
  | nil => rfl
  | cons e es ih =>
    obtain ⟨he, hes⟩ := forall_mem_cons.mp h
    rw [cons_append, putEdges_cons he (forall_mem_append.mpr ⟨hes, h'⟩), ih hes, putEdges_cons he hes]

/-- After edges with distinct keys are written, a row is that of one of them or one that was there. -/
theorem lookup_putEdges (h : ∀ x ∈ edges, Written P.edge x) (hnodup : (edges.map KGEdge.key).Nodup) :
    (putEdges P edges table).lookup k = some b ↔
      (∃ x ∈ edges, x.key = k ∧ P.edge.toVec x = some b) ∨ ((∀ x ∈ edges, x.key ≠ k) ∧ table.lookup k = some b) := by
  induction edges generalizing table with
  | nil => simp [putEdges_nil]
  | cons e es ih =>
    obtain ⟨he, hes⟩ := forall_mem_cons.mp h
    obtain ⟨hnot, hnodup⟩ := nodup_cons.mp hnodup
    rw [putEdges_cons he hes, ih hes hnodup, lookup_insert_eq_some]
    obtain ⟨data, hdata, -⟩ := he
    grind

theorem lookup_removeEdges :
    (removeEdges edges table).lookup k = some b ↔ (∀ x ∈ edges, x.key ≠ k) ∧ table.lookup k = some b := by
  unfold removeEdges
  induction edges generalizing table with
  | nil => simp
  | cons e es ih =>
    rw [foldl_cons, ih, lookup_erase_eq_some, forall_mem_cons, and_left_comm, and_assoc, ne_comm]

/-! ## A codec for finitely many rows -/

/-- The weight is written as its bits. -/
def KGEdge.json (e : KGEdge) : Bytes := object [
  ("src", string e.src), ("dst", string e.dst), ("edge_type", string e.edgeType.debug),
  ("weight", nat e.weight.toNat), ("evidence_cid", option string e.evidenceCid),
  ("created_at", nat e.createdAt), ("valid_at", option nat e.validAt),
  ("invalid_at", option nat e.invalidAt), ("expired_at", option nat e.expiredAt),
  ("episode", option string e.episode)]

/-- The fields that tell the nodes of an evaluated run apart. -/
def KGNode.json (node : KGNode) : Bytes :=
  object [("id", string node.id), ("label", string node.label)]

def listedRows (nodes : List KGNode) (edges : List KGEdge) : GraphPlatform where
  node := .listed KGNode.json nodes
  edge := .listed KGEdge.json edges

end Plico.Graph
