import Mathlib.Data.List.Chain
import Mathlib.Logic.Function.Iterate

/-!
# Searching for paths with a stack

The search pops a path, and pushes its extensions by the neighbours of its end that are not on it, until the stack is
empty or enough paths have been found. It finds what a recursive search finds (`adds_paths`), which are the simple
paths (`mem_paths`).
-/

namespace Plico

open List

variable {α : Type}

/-- A path under way: where it ends, its nodes, and the nodes that are on it. -/
structure PathEntry (α : Type) where
  current : α
  path : List α
  visited : List α

def PathEntry.extend (entry : PathEntry α) (next : α) : PathEntry α :=
  ⟨next, entry.path ++ [next], next :: entry.visited⟩

def PathEntry.start (src : α) : PathEntry α := ⟨src, [src], [src]⟩

/-- The stack, its top in front, and the paths that have been found. -/
structure PathSearch (α : Type) where
  stack : List (PathEntry α)
  found : List (List α)

structure PathQuery (α : Type) where
  adj : α → List α
  dst : α
  maxDepth : Nat
  maxResults : Nat

/-- A simple path to the goal, of at most `maxDepth` nodes or of one. -/
structure PathQuery.IsPath (q : PathQuery α) (src : α) (path : List α) : Prop where
  starts : path.head? = some src
  ends : path.getLast? = some q.dst
  adjacent : path.IsChain fun a b => b ∈ q.adj a
  simple : path.Nodup
  short : path.length ≤ max q.maxDepth 1

namespace PathQuery

variable [DecidableEq α] (q : PathQuery α)

/-- The extensions of a path, the last neighbour first. -/
def extensions (entry : PathEntry α) : List (PathEntry α) :=
  (((q.adj entry.current).filter (· ∉ entry.visited)).map entry.extend).reverse

/-- A turn of the loop; with enough results it leaves the rest of the stack. -/
def turn (s : PathSearch α) : PathSearch α :=
  match s.stack with
  | [] => s
  | entry :: rest =>
    if q.maxResults ≤ s.found.length then { s with stack := [] }
    else if entry.current = q.dst then ⟨rest, s.found ++ [entry.path]⟩
    else if q.maxDepth ≤ entry.path.length then { s with stack := rest }
    else { s with stack := q.extensions entry ++ rest }

/-- The paths that a recursive search finds with `d` more nodes. -/
def paths : Nat → PathEntry α → List (List α)
  | 0, entry => if entry.current = q.dst then [entry.path] else []
  | d + 1, entry => if entry.current = q.dst then [entry.path] else (q.extensions entry).flatMap (paths d)

variable {q} {d : Nat} {entry : PathEntry α} {path : List α} {rest entries : List (PathEntry α)}
  {l : List (List α)}

theorem mem_extensions {e : PathEntry α} :
    e ∈ q.extensions entry ↔ ∃ next, (next ∈ q.adj entry.current ∧ next ∉ entry.visited) ∧ entry.extend next = e := by
  simp [extensions]

/-! ## The loop -/

/-- From a stack, the loop adds the paths `l` to what it has found, as long as there is room. -/
def Adds (q : PathQuery α) (stack : List (PathEntry α)) (l : List (List α)) : Prop :=
  ∀ found, found.length ≤ q.maxResults → ∃ turns, q.turn^[turns] ⟨stack, found⟩ = ⟨[], (found ++ l).take q.maxResults⟩

theorem adds_nil : q.Adds [] [] := fun found hfound => ⟨0, by simp [take_of_length_le hfound]⟩

/-- A turn, with what it leaves to do. -/
theorem adds_cons (l' : List (List α)) (hl : l = if entry.current = q.dst then entry.path :: l' else l')
    (h : q.Adds
      (if entry.current = q.dst ∨ q.maxDepth ≤ entry.path.length then rest else q.extensions entry ++ rest) l') :
    q.Adds (entry :: rest) l := by
  intro found hfound
  by_cases hroom : q.maxResults ≤ found.length
  · refine ⟨1, ?_⟩
    simp [turn, hroom, take_append_of_le_length hroom, take_of_length_le hfound]
  by_cases hdst : entry.current = q.dst
  · obtain ⟨turns, h⟩ := h (found ++ [entry.path]) (by simp; omega)
    exact ⟨turns + 1, by simpa [turn, hroom, hdst, hl] using h⟩
  · obtain ⟨turns, h⟩ := h found hfound
    refine ⟨turns + 1, ?_⟩
    by_cases hlong : q.maxDepth ≤ entry.path.length <;> simpa [turn, hroom, hdst, hl, hlong] using h

theorem adds_append {f : PathEntry α → List (List α)}
    (h : ∀ entry ∈ entries, ∀ rest l, q.Adds rest l → q.Adds (entry :: rest) (f entry ++ l)) (hrest : q.Adds rest l) :
    q.Adds (entries ++ rest) (entries.flatMap f ++ l) := by
  induction entries with
  | nil => exact hrest
  | cons entry entries ih =>
    obtain ⟨hentry, hentries⟩ := forall_mem_cons.mp h
    simpa using hentry _ _ (ih hentries)

/-- The loop finds what the recursion finds. -/
theorem adds_paths (hd : q.maxDepth - entry.path.length = d) (hrest : q.Adds rest l) :
    q.Adds (entry :: rest) (q.paths d entry ++ l) := by
  induction d generalizing entry rest l with
  | zero =>
    refine adds_cons l (by unfold paths; split <;> rfl) ?_
    rwa [if_pos (.inr (Nat.sub_eq_zero_iff_le.mp hd))]
  | succ d ih =>
    by_cases hdst : entry.current = q.dst
    · exact adds_cons l (by simp [paths, hdst]) (by simpa [hdst])
    · refine adds_cons ((q.extensions entry).flatMap (q.paths d) ++ l) (by simp [paths, hdst]) ?_
      rw [if_neg (not_or.mpr ⟨hdst, by omega⟩)]
      refine adds_append (fun e he _ _ => ih ?_) hrest
      obtain ⟨next, -, rfl⟩ := mem_extensions.mp he
      simp only [PathEntry.extend, length_append, length_singleton]
      omega

/-! ## The paths -/

/-- `rest` leads from `current` to the goal in at most `d` steps, over new nodes and never twice over one. -/
structure Continues (q : PathQuery α) (d : Nat) (current : α) (visited rest : List α) : Prop where
  ends : (current :: rest).getLast? = some q.dst
  adjacent : (current :: rest).IsChain fun a b => b ∈ q.adj a
  simple : rest.Nodup
  new : ∀ a ∈ rest, a ∉ visited
  short : rest.length ≤ d

variable {current next : α} {visited tail : List α}

omit [DecidableEq α]

theorem continues_nil : q.Continues d current visited [] ↔ current = q.dst := by
  constructor
  · intro h
    simpa using h.ends
  · rintro rfl
    exact ⟨rfl, .singleton _, nodup_nil, by simp, Nat.zero_le _⟩

theorem continues_cons : q.Continues (d + 1) current visited (next :: tail) ↔
    (next ∈ q.adj current ∧ next ∉ visited) ∧ q.Continues d next (next :: visited) tail := by
  constructor
  · rintro ⟨hends, hadjacent, hsimple, hnew, hshort⟩
    rw [isChain_cons_cons] at hadjacent
    rw [nodup_cons] at hsimple
    rw [forall_mem_cons] at hnew
    refine ⟨⟨hadjacent.1, hnew.1⟩, by simpa using hends, hadjacent.2, hsimple.2, ?_, Nat.le_of_succ_le_succ hshort⟩
    grind
  · rintro ⟨⟨hadj, hnext⟩, hends, hadjacent, hsimple, hnew, hshort⟩
    exact ⟨by simpa using hends, hadjacent.cons_cons hadj, by grind, by grind, Nat.succ_le_succ hshort⟩

/-- Nothing continues a path that has come to the goal. -/
theorem Continues.eq_nil (h : q.Continues d current visited tail) (hdst : q.dst ∈ visited) : tail = [] := by
  by_contra htail
  have hends := h.ends
  rw [getLast?_cons_of_ne_nil htail] at hends
  exact h.new _ (mem_of_getLast? hends) hdst

theorem mem_singleton_iff_continues (hcurrent : entry.current ∈ entry.visited) (hdst : entry.current = q.dst) :
    path ∈ [entry.path] ↔ ∃ rest, q.Continues d entry.current entry.visited rest ∧ entry.path ++ rest = path := by
  rw [mem_singleton]
  constructor
  · rintro rfl
    exact ⟨[], continues_nil.mpr hdst, append_nil _⟩
  · rintro ⟨rest, h, rfl⟩
    rw [h.eq_nil (hdst ▸ hcurrent), append_nil]

variable [DecidableEq α]

/-- The recursion finds the paths that continue an entry. -/
theorem mem_paths (hcurrent : entry.current ∈ entry.visited) :
    path ∈ q.paths d entry ↔ ∃ rest, q.Continues d entry.current entry.visited rest ∧ entry.path ++ rest = path := by
  induction d generalizing entry with
  | zero =>
    unfold paths
    split
    · next hdst => exact mem_singleton_iff_continues hcurrent hdst
    · next hdst =>
      simp only [not_mem_nil, false_iff, not_exists, not_and]
      intro rest h
      obtain rfl := length_eq_zero_iff.mp (Nat.le_zero.mp h.short)
      exact absurd (continues_nil.mp h) hdst
  | succ d ih =>
    unfold paths
    split
    · next hdst => exact mem_singleton_iff_continues hcurrent hdst
    · next hdst =>
      rw [mem_flatMap]
      constructor
      · rintro ⟨e, he, hpath⟩
        obtain ⟨next, hnext, rfl⟩ := mem_extensions.mp he
        obtain ⟨rest, hrest, rfl⟩ := (ih mem_cons_self).mp hpath
        exact ⟨next :: rest, continues_cons.mpr ⟨hnext, hrest⟩, by simp [PathEntry.extend]⟩
      · rintro ⟨rest, h, rfl⟩
        cases rest with
        | nil => exact absurd (continues_nil.mp h) hdst
        | cons next rest =>
          obtain ⟨hnext, hrest⟩ := continues_cons.mp h
          refine ⟨_, mem_extensions.mpr ⟨next, hnext, rfl⟩, (ih mem_cons_self).mpr ⟨rest, hrest, ?_⟩⟩
          simp [PathEntry.extend]

/-- The search ends with simple paths to the goal, and with all of them unless there are too many. -/
theorem search_spec (q : PathQuery α) (src : α) : ∃ turns found, q.turn^[turns] ⟨[.start src], []⟩ = ⟨[], found⟩ ∧
    found.length ≤ q.maxResults ∧ (∀ path ∈ found, q.IsPath src path) ∧
    (found.length < q.maxResults → ∀ path, q.IsPath src path → path ∈ found) := by
  have hpaths : ∀ path, path ∈ q.paths (q.maxDepth - 1) (.start src) ↔ q.IsPath src path := by
    intro path
    rw [mem_paths (by simp [PathEntry.start])]
    constructor
    · rintro ⟨rest, ⟨hends, hadjacent, hsimple, hnew, hshort⟩, rfl⟩
      exact ⟨rfl, hends, hadjacent, by grind [PathEntry.start], by grind [PathEntry.start]⟩
    · rintro ⟨hstarts, hends, hadjacent, hsimple, hshort⟩
      obtain ⟨rest, rfl⟩ := head?_eq_some_iff.mp hstarts
      exact ⟨rest, ⟨hends, hadjacent, by grind, by grind [PathEntry.start], by grind⟩, rfl⟩
  have hadds : q.Adds [.start src] (q.paths (q.maxDepth - 1) (.start src) ++ []) := adds_paths rfl adds_nil
  obtain ⟨turns, hturns⟩ := hadds [] (Nat.zero_le _)
  refine ⟨turns, _, hturns, length_take_le .., fun path hpath => ?_, fun hfew path hpath => ?_⟩
  · exact (hpaths path).mp (by simpa using mem_of_mem_take hpath)
  · rw [length_take] at hfew
    rw [take_of_length_le (by omega)]
    simpa using (hpaths path).mpr hpath

end PathQuery

end Plico
