import Mathlib.Algebra.Order.Ring.Nat

/-!
# Computations that may be refused

`refuse c e` is the statement `if c { return Err(e) }` and `required o e` is `o.ok_or(e)?`.
A function written with them is taken apart by `seq_eq_ok`, `refuse_eq_ok` and `required_eq_ok`:
from `f x = .ok r` each step gives one fact, in the order of the checks.
-/

namespace Plico

open List

variable {ε α β γ : Type} {x : Except ε α}

/-- Stop with `e` when `c` holds. -/
def refuse (c : Prop) [Decidable c] (e : ε) : Except ε Unit :=
  if c then .error e else .ok ()

/-- Run the check `x` when `c` holds. -/
def checkIf (c : Prop) [Decidable c] (x : Except ε Unit) : Except ε Unit :=
  if c then x else .ok ()

/-- Run the check `f` on each element in turn. -/
def checkAll (f : α → Except ε Unit) : List α → Except ε Unit
  | [] => .ok ()
  | a :: l => do
    f a
    checkAll f l

/-- The value of `o`, or stop with `e`. -/
def required (o : Option α) (e : ε) : Except ε α :=
  match o with
  | some a => .ok a
  | none => .error e

variable {f : α → Except ε β} {b : β}

/-- A sequence succeeds when its first part does and the rest succeeds on that result. -/
theorem seq_eq_ok : x >>= f = .ok b ↔ ∃ a, x = .ok a ∧ f a = .ok b := by
  cases x <;> simp [bind, Except.bind]

/-- The same of a check, which has no result. -/
theorem check_eq_ok {x : Except ε Unit} {f : Unit → Except ε β} : x >>= f = .ok b ↔ x = .ok () ∧ f () = .ok b := by
  rw [seq_eq_ok]
  exact Unique.exists_iff

/-- What the parts of a successful sequence have done. -/
theorem of_seq (h : x >>= f = .ok b) : ∃ a, x = .ok a ∧ f a = .ok b := seq_eq_ok.mp h

/-- Three parts at once. -/
theorem of_seq₃ {δ : Type} {y : α → Except ε β} {z : α → β → Except ε γ} {k : α → β → γ → Except ε δ} {d : δ}
    (h : (do let a ← x; let b ← y a; let c ← z a b; k a b c) = .ok d) :
    ∃ a, x = .ok a ∧ ∃ b, y a = .ok b ∧ ∃ c, z a b = .ok c ∧ k a b c = .ok d := by
  obtain ⟨a, ha, h⟩ := of_seq h
  obtain ⟨b, hb, h⟩ := of_seq h
  exact ⟨a, ha, b, hb, of_seq h⟩

variable {c : Prop} {l : List α} {e : ε} {u : Unit} {a : α}

@[simp] theorem seq_ok : (.ok a : Except ε α) >>= f = f a := rfl

@[simp] theorem seq_error : (.error e : Except ε α) >>= f = .error e := rfl

@[simp] theorem refuse_eq_ok [Decidable c] : refuse c e = .ok u ↔ ¬ c := by
  unfold refuse
  split <;> simp_all

theorem refuse_pos [Decidable c] (h : c) : refuse c e = .error e := if_pos h

theorem refuse_neg [Decidable c] (h : ¬ c) : refuse c e = .ok () := if_neg h

theorem checkIf_eq_ok [Decidable c] {x : Except ε Unit} : checkIf c x = .ok u ↔ (c → x = .ok u) := by
  unfold checkIf
  split <;> simp_all

theorem checkAll_eq_ok {f : α → Except ε Unit} : checkAll f l = .ok u ↔ ∀ a ∈ l, f a = .ok () := by
  induction l with
  | nil => simp [checkAll]
  | cons a l ih =>
    rw [checkAll, seq_eq_ok, forall_mem_cons]
    constructor
    · rintro ⟨⟨⟩, ha, hl⟩
      exact ⟨ha, ih.mp hl⟩
    · rintro ⟨ha, hl⟩
      exact ⟨(), ha, ih.mpr hl⟩

@[simp] theorem required_eq_ok {o : Option α} : required o e = .ok a ↔ o = some a := by
  cases o <;> simp [required]

@[simp] theorem required_some : required (some a) e = .ok a := rfl

@[simp] theorem required_none : required (none : Option α) e = .error e := rfl

@[simp] theorem pure_ok_inj {b : α} : pure a = (.ok b : Except ε α) ↔ a = b :=
  Except.ok.injEq a b ▸ Iff.rfl

/-- Relabelling the errors of a computation keeps its results. -/
theorem map_eq_ok {g : α → β} : x.map g = .ok b ↔ ∃ a, x = .ok a ∧ g a = b := by
  cases x <;> simp [Except.map]

theorem mapError_ok_iff {ε' : Type} {f : ε → ε'} : x.mapError f = .ok a ↔ x = .ok a := by
  unfold Except.mapError
  split <;> simp_all

/-! ## Loops that map each element -/

variable {l' : List β}

theorem mapM_cons_eq_ok : (a :: l).mapM f = .ok l' ↔ ∃ b bs, f a = .ok b ∧ l.mapM f = .ok bs ∧ l' = b :: bs := by
  rw [mapM_cons, seq_eq_ok]
  constructor
  · rintro ⟨b, hb, h⟩
    obtain ⟨bs, hbs, h⟩ := of_seq h
    exact ⟨b, bs, hb, hbs, (pure_ok_inj.mp h).symm⟩
  · rintro ⟨b, bs, hb, hbs, rfl⟩
    exact ⟨b, hb, seq_eq_ok.mpr ⟨bs, hbs, rfl⟩⟩

theorem mapM_nil_eq_ok : [].mapM f = .ok l' ↔ l' = [] := by
  rw [mapM_nil, pure_ok_inj, eq_comm]

/-- The results of a mapping loop are those of the elements. -/
theorem exists_mapM (h : ∀ a ∈ l, ∃ b, f a = .ok b) : ∃ l', l.mapM f = .ok l' := by
  induction l with
  | nil => exact ⟨[], rfl⟩
  | cons a l ih =>
    obtain ⟨b, hb⟩ := h a (by simp)
    obtain ⟨l', hl⟩ := ih fun a ha => h a (by simp [ha])
    exact ⟨b :: l', mapM_cons_eq_ok.mpr ⟨b, l', hb, hl, rfl⟩⟩

theorem mem_of_mapM (h : l.mapM f = .ok l') : b ∈ l' ↔ ∃ a ∈ l, f a = .ok b := by
  induction l generalizing l' with
  | nil =>
    obtain rfl := mapM_nil_eq_ok.mp h
    simp
  | cons a l ih =>
    obtain ⟨c, cs, hc, hcs, rfl⟩ := mapM_cons_eq_ok.mp h
    simp [ih hcs, hc, eq_comm]

theorem ok_of_mapM (h : l.mapM f = .ok l') (ha : a ∈ l) : ∃ b, f a = .ok b := by
  induction l generalizing l' with
  | nil => simp at ha
  | cons c l ih =>
    obtain ⟨b, bs, hb, hbs, rfl⟩ := mapM_cons_eq_ok.mp h
    rcases mem_cons.mp ha with rfl | ha
    · exact ⟨b, hb⟩
    · exact ih hbs ha

/-- What each result keeps of its element, all results keep of all elements. -/
theorem map_of_mapM (h : l.mapM f = .ok l') {g : β → γ} {k : α → γ} (hg : ∀ a b, f a = .ok b → g b = k a) :
    l'.map g = l.map k := by
  induction l generalizing l' with
  | nil =>
    obtain rfl := mapM_nil_eq_ok.mp h
    rfl
  | cons a l ih =>
    obtain ⟨b, bs, hb, hbs, rfl⟩ := mapM_cons_eq_ok.mp h
    rw [map_cons, map_cons, ih hbs, hg a b hb]

/-- A loop that checks each element and collects its key, which must be new. -/
theorem collected_of_foldlM {κ : Type} {f : List κ → α → Except ε (List κ)} {key : α → κ} {good : α → Prop}
    (hf : ∀ {seen : List κ} {a : α} {seen' : List κ}, f seen a = .ok seen' →
      good a ∧ key a ∉ seen ∧ seen' = key a :: seen)
    {seen seen' : List κ} (h : l.foldlM f seen = .ok seen') (hn : seen.Nodup) :
    (∀ a ∈ l, good a) ∧ seen' = (l.map key).reverse ++ seen ∧ seen'.Nodup := by
  induction l generalizing seen with
  | nil =>
    cases h
    exact ⟨by simp, rfl, hn⟩
  | cons a l ih =>
    obtain ⟨seen₁, ha, h⟩ := of_seq h
    obtain ⟨hgood, hnew, rfl⟩ := hf ha
    obtain ⟨hall, rfl, hn⟩ := ih h (nodup_cons.mpr ⟨hnew, hn⟩)
    exact ⟨forall_mem_cons.mpr ⟨hgood, hall⟩, by simp, hn⟩

end Plico
