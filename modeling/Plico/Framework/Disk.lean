import Plico.Framework.Fold

/-!
# Files under names

A directory entry names an inode and an inode holds bytes, so that a process with a file open goes on writing to it
after the entry was renamed. No two names share an inode. The operations are those of a program that replaces a file
by writing another one and renaming it; `read_writeFile`, `read_rename` and `read_remove` say what every name holds
afterwards, and `read_writeAt` what a write through an open file does.
-/

namespace Plico

open AList

structure Disk (ν β : Type) where
  entries : AList (fun _ : ν => Nat)
  bytes : Nat → List β
  /-- The next inode that is not in use. -/
  fresh : Nat
  inode_lt : ∀ n i, ⟨n, i⟩ ∈ entries.entries → i < fresh
  inode_inj : ∀ n m i, ⟨n, i⟩ ∈ entries.entries → ⟨m, i⟩ ∈ entries.entries → n = m

namespace Disk

variable {ν β : Type}

def empty : Disk ν β where
  entries := ∅
  bytes _ := []
  fresh := 0
  inode_lt _ _ h := absurd h List.not_mem_nil
  inode_inj _ _ _ h := absurd h List.not_mem_nil

/-- The names of the directory. -/
def names (d : Disk ν β) : List ν := d.entries.keys

theorem nodup_names (d : Disk ν β) : d.names.Nodup := d.entries.keys_nodup

/-- Replace what an inode holds. -/
def setBytes (d : Disk ν β) (i : Nat) (bs : List β) : Disk ν β :=
  { d with bytes := Function.update d.bytes i bs }

variable [DecidableEq ν]

def inode (d : Disk ν β) (n : ν) : Option Nat := d.entries.lookup n

variable {n : ν} {i : Nat} {bs : List β}

theorem mem_entries {d : Disk ν β} : ⟨n, i⟩ ∈ d.entries.entries ↔ d.inode n = some i :=
  mem_lookup_iff.symm

def read (d : Disk ν β) (n : ν) : Option (List β) := (d.inode n).map d.bytes

def exists_ (d : Disk ν β) (n : ν) : Bool := (d.inode n).isSome

@[simp] theorem read_empty : (empty : Disk ν β).read n = none := rfl

section

variable {d : Disk ν β}

theorem exists_iff : d.exists_ n = true ↔ ∃ bs, d.read n = some bs := by
  unfold exists_ read
  cases d.inode n <;> simp

theorem read_of_inode (h : d.inode n = some i) : d.read n = some (d.bytes i) := by
  simp [read, h]

@[simp] theorem inode_setBytes : (d.setBytes i bs).inode = d.inode := rfl

end

/-- A new, empty file. -/
def create (d : Disk ν β) (n : ν) : Disk ν β where
  entries := d.entries.insert n d.fresh
  bytes := Function.update d.bytes d.fresh []
  fresh := d.fresh + 1
  inode_lt m i h := by
    rcases lookup_insert_eq_some.mp (mem_lookup_iff.mpr h) with ⟨-, rfl⟩ | ⟨-, h⟩
    · exact Nat.lt_succ_self _
    · exact Nat.lt_succ_of_lt (d.inode_lt m i (mem_entries.mpr h))
  inode_inj m k i hm hk := by
    rcases lookup_insert_eq_some.mp (mem_lookup_iff.mpr hm) with ⟨rfl, rfl⟩ | ⟨-, hmold⟩ <;>
      rcases lookup_insert_eq_some.mp (mem_lookup_iff.mpr hk) with ⟨rfl, hi⟩ | ⟨-, hkold⟩
    · rfl
    · exact absurd (d.inode_lt k d.fresh (mem_entries.mpr hkold)) (Nat.lt_irrefl _)
    · subst hi
      exact absurd (d.inode_lt m d.fresh (mem_entries.mpr hmold)) (Nat.lt_irrefl _)
    · exact d.inode_inj m k i (mem_entries.mpr hmold) (mem_entries.mpr hkold)

/-- Open a file for writing, created or truncated. The file that is open is the second component. -/
def openTruncate (d : Disk ν β) (n : ν) : Disk ν β × Nat :=
  match d.inode n with
  | some i => (d.setBytes i [], i)
  | none => (d.create n, d.fresh)

/-- The bytes at a position replaced; a gap before it is filled. -/
def overlay [Inhabited β] (old : List β) (pos : Nat) (bs : List β) : List β :=
  (old ++ List.replicate (pos - old.length) default).take pos ++ bs ++ old.drop (pos + bs.length)

/-- A write at the end. -/
theorem overlay_length [Inhabited β] {old : List β} {pos : Nat} (h : old.length = pos) :
    overlay old pos bs = old ++ bs := by
  subst h
  simp [overlay]

/-- A write through an open file. -/
def writeAt [Inhabited β] (d : Disk ν β) (i pos : Nat) (bs : List β) : Disk ν β :=
  d.setBytes i (overlay (d.bytes i) pos bs)

/-- `fs::write` in one step. -/
def writeFile (d : Disk ν β) (n : ν) (bs : List β) : Disk ν β :=
  let (d, i) := d.openTruncate n
  d.setBytes i bs

/-- `none` when there is no such file. -/
def remove (d : Disk ν β) (n : ν) : Option (Disk ν β) :=
  if d.exists_ n then
    some { d with
      entries := d.entries.erase n
      inode_lt := fun m i h =>
        d.inode_lt m i (mem_entries.mpr (lookup_erase_eq_some.mp (mem_lookup_iff.mpr h)).2)
      inode_inj := fun m k i hm hk =>
        d.inode_inj m k i (mem_entries.mpr (lookup_erase_eq_some.mp (mem_lookup_iff.mpr hm)).2)
          (mem_entries.mpr (lookup_erase_eq_some.mp (mem_lookup_iff.mpr hk)).2) }
  else none

/-- The entry takes the new name, whose old file is gone; `none` when there is no such entry. -/
def rename (d : Disk ν β) (a b : ν) : Option (Disk ν β) :=
  match h : d.inode a with
  | none => none
  | some i =>
    have hold : ∀ m j, ((d.entries.erase a).insert b i).lookup m = some j →
        m = b ∧ j = i ∨ m ≠ a ∧ d.inode m = some j := by
      intro m j hm
      rcases lookup_insert_eq_some.mp hm with hm | ⟨-, hm⟩
      · exact .inl hm
      · exact .inr (lookup_erase_eq_some.mp hm)
    some { d with
      entries := (d.entries.erase a).insert b i
      inode_lt := fun m j hm => by
        rcases hold m j (mem_lookup_iff.mpr hm) with ⟨-, rfl⟩ | ⟨-, hm⟩
        · exact d.inode_lt a j (mem_entries.mpr h)
        · exact d.inode_lt m j (mem_entries.mpr hm)
      inode_inj := fun m k j hm hk => by
        rcases hold m j (mem_lookup_iff.mpr hm) with ⟨rfl, rfl⟩ | ⟨hma, hmold⟩ <;>
          rcases hold k j (mem_lookup_iff.mpr hk) with ⟨rfl, hj⟩ | ⟨hka, hkold⟩
        · rfl
        · exact absurd (d.inode_inj k a j (mem_entries.mpr hkold) (mem_entries.mpr h)) hka
        · subst hj
          exact absurd (d.inode_inj m a j (mem_entries.mpr hmold) (mem_entries.mpr h)) hma
        · exact d.inode_inj m k j (mem_entries.mpr hmold) (mem_entries.mpr hkold) }

/-! ## What the names hold afterwards -/

section

variable {d d' : Disk ν β} {m : ν} {a b : ν}

theorem inode_inj' (hn : d.inode n = some i) (hm : d.inode m = some i) : n = m :=
  d.inode_inj n m i (mem_entries.mpr hn) (mem_entries.mpr hm)

theorem mem_names : n ∈ d.names ↔ d.exists_ n = true := by
  unfold names exists_ inode
  rw [lookup_isSome]
  rfl

/-- A change of an open file shows under the name it has, and nowhere else. -/
theorem read_setBytes (h : d.inode n = some i) : (d.setBytes i bs).read m = if m = n then some bs else d.read m := by
  by_cases hm : m = n
  · subst hm
    unfold read
    rw [inode_setBytes, h]
    simp [setBytes]
  · rw [if_neg hm]
    unfold read
    rw [inode_setBytes]
    cases hi : d.inode m with
    | none => rfl
    | some j =>
      have hji : j ≠ i := by
        rintro rfl
        exact hm (inode_inj' hi h)
      simp [setBytes, hji]

theorem inode_create : (d.create n).inode m = if m = n then some d.fresh else d.inode m := by
  by_cases hm : m = n
  · subst hm
    rw [if_pos rfl]
    exact lookup_insert _
  · rw [if_neg hm]
    exact lookup_insert_ne hm

theorem read_create : (d.create n).read m = if m = n then some [] else d.read m := by
  unfold read
  rw [inode_create]
  by_cases hm : m = n
  · simp [hm, create]
  · simp only [hm]
    cases hi : d.inode m with
    | none => rfl
    | some j =>
      have hj : j ≠ d.fresh := Nat.ne_of_lt (d.inode_lt m j (mem_entries.mpr hi))
      simp [create, hj]

theorem inode_openTruncate (n : ν) : (d.openTruncate n).1.inode n = some (d.openTruncate n).2 := by
  unfold openTruncate
  cases h : d.inode n with
  | some i => simpa using h
  | none => simp [inode_create]

theorem inode_openTruncate_of_ne (h : m ≠ n) : (d.openTruncate n).1.inode m = d.inode m := by
  unfold openTruncate
  cases d.inode n with
  | some i => rfl
  | none => simp [inode_create, h]

theorem read_openTruncate (n m : ν) : (d.openTruncate n).1.read m = if m = n then some [] else d.read m := by
  unfold openTruncate
  cases h : d.inode n with
  | some i => exact read_setBytes h
  | none => exact read_create

theorem read_writeFile : (d.writeFile n bs).read m = if m = n then some bs else d.read m := by
  unfold writeFile
  rw [read_setBytes (inode_openTruncate n)]
  split
  · rfl
  · next hm => rw [read_openTruncate, if_neg hm]

theorem inode_rename (h : d.rename a b = some d') (m : ν) :
    d'.inode m = if m = b then d.inode a else if m = a then none else d.inode m := by
  unfold rename at h
  split at h
  · cases h
  · next i hi =>
    simp only [Option.some.injEq] at h
    subst h
    show ((d.entries.erase a).insert b i).lookup m = if m = b then d.inode a else if m = a then none else d.inode m
    rw [hi]
    by_cases hmb : m = b
    · subst hmb
      rw [if_pos rfl]
      exact lookup_insert _
    · rw [if_neg hmb, lookup_insert_ne hmb]
      by_cases hma : m = a
      · subst hma
        rw [if_pos rfl]
        exact lookup_erase _ _
      · rw [if_neg hma]
        exact lookup_erase_ne hma

theorem bytes_rename (h : d.rename a b = some d') : d'.bytes = d.bytes := by
  unfold rename at h
  split at h
  · cases h
  · simp only [Option.some.injEq] at h
    subst h
    rfl

theorem read_rename (h : d.rename a b = some d') (m : ν) :
    d'.read m = if m = b then d.read a else if m = a then none else d.read m := by
  unfold read
  rw [inode_rename h, bytes_rename h]
  split
  · rfl
  · split <;> rfl

theorem exists_rename (h : d.exists_ a = true) (b : ν) : ∃ d', d.rename a b = some d' := by
  unfold rename
  split
  · next hnone =>
    simp [exists_, hnone] at h
  · exact ⟨_, rfl⟩

theorem read_remove (h : d.remove n = some d') (m : ν) : d'.read m = if m = n then none else d.read m := by
  unfold remove at h
  split at h
  · simp only [Option.some.injEq] at h
    subst h
    unfold read inode
    by_cases hm : m = n
    · subst hm
      rw [if_pos rfl, lookup_erase]
      rfl
    · rw [if_neg hm, lookup_erase_ne hm]
  · cases h

/-- A removal whose result is ignored. -/
theorem read_remove_getD : ((d.remove n).getD d).read n = none := by
  cases hremove : d.remove n with
  | some d' => simpa using read_remove hremove n
  | none =>
    cases hread : d.read n with
    | none => simpa using hread
    | some bytes => simp [remove, exists_iff.mpr ⟨bytes, hread⟩] at hremove

end

end Disk

/-- A type's text form. Decoding may give another representation of the value, one that is equal to it in the sense of
`same`. -/
structure Codec (α β : Type) (same : α → α → Prop) where
  encode : α → List β
  decode : List β → Option α
  decode_encode : ∀ a, ∃ a', decode (encode a) = some a' ∧ same a' a

/-- A value that is its own text. -/
def Codec.plain {α : Type} {same : α → α → Prop} (hsame : ∀ a, same a a) : Codec α α same where
  encode a := [a]
  decode
    | [a] => some a
    | _ => none
  decode_encode a := ⟨a, rfl, hsame a⟩

end Plico
