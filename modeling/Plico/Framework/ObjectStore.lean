import Mathlib.Data.List.AList
import Plico.Framework.Checked

/-!
# Write-once object stores with one active pointer

An `ObjectStore` maps keys to immutable objects and holds one pointer. A write may fail before or
after its effect became durable (`PutFault`, `PublishFault`), which is all that a caller, or a reader
after a crash, can observe of a failing device.

`Extends` is the order of growth: no write loses or changes an object. `put_ok` says that a
successful write leaves exactly the bytes that were given, also when the key was taken before.
-/

namespace Plico

variable {κ β : Type}

/-- Immutable objects and the active pointer. An unset pointer is `none`. -/
structure ObjectStore (κ β : Type) where
  objects : AList (fun _ : κ => β)
  active : Option β

/-- Where a write of one object fails: nowhere, before the object is in place, or after it. -/
inductive PutFault where
  | none
  | lost
  | late
  deriving DecidableEq, Repr

/-- Where a publication fails: nowhere, before the exchange of the pointer, or after it. -/
inductive PublishFault where
  | none
  | lost
  | unsynced
  deriving DecidableEq, Repr

/-- Why a store operation failed. -/
inductive StoreError where
  | collision
  | missing
  | failed
  deriving DecidableEq, Repr

namespace ObjectStore

def empty : ObjectStore κ β := ⟨∅, none⟩

section

variable [DecidableEq κ]

def lookup (s : ObjectStore κ β) (k : κ) : Option β :=
  s.objects.lookup k

def keys (s : ObjectStore κ β) : List κ :=
  s.objects.keys

/-- Write `b` under `k`. An object that is there already is compared, never replaced. -/
def put [DecidableEq β] (s : ObjectStore κ β) (k : κ) (b : β) (fault : PutFault) :
    ObjectStore κ β × Except StoreError Unit :=
  match s.lookup k with
  | some old =>
    match fault with
    | .none => (s, refuse (old ≠ b) .collision)
    | _ => (s, .error .failed)
  | none =>
    match fault with
    | .none => ({ s with objects := s.objects.insert k b }, .ok ())
    | .lost => (s, .error .failed)
    | .late => ({ s with objects := s.objects.insert k b }, .error .failed)

def get (s : ObjectStore κ β) (k : κ) : Except StoreError β :=
  required (s.lookup k) .missing

/-- Maintenance deletes an object that was found to be damaged. -/
def remove (s : ObjectStore κ β) (k : κ) : ObjectStore κ β :=
  { s with objects := s.objects.erase k }

/-- Make `b` the active pointer. The exchange is atomic: the pointer is the old one or the new one. -/
def publish (s : ObjectStore κ β) (b : β) (fault : PublishFault) : ObjectStore κ β :=
  match fault with
  | .lost => s
  | _ => { s with active := some b }

/-! ## Growth -/

/-- Every object of `s` is in `t`, unchanged. -/
def Extends (s t : ObjectStore κ β) : Prop :=
  ∀ k b, s.lookup k = some b → t.lookup k = some b

theorem Extends.refl (s : ObjectStore κ β) : s.Extends s := fun _ _ h => h

variable {s : ObjectStore κ β} {k : κ} {b : β} {fault : PutFault}

theorem Extends.trans {t u : ObjectStore κ β} (h : s.Extends t) (h' : t.Extends u) : s.Extends u :=
  fun k b hb => h' k b (h k b hb)

theorem Extends.insert (h : s.lookup k = none) (b : β) : s.Extends { s with objects := s.objects.insert k b } := by
  intro k' b' hb
  have hne : k' ≠ k := fun e => by simp [e, h] at hb
  simpa [lookup, AList.lookup_insert_ne hne] using hb

theorem put_extends [DecidableEq β] : s.Extends (s.put k b fault).1 := by
  unfold put
  split
  · split <;> exact Extends.refl s
  · rename_i hk
    split
    · exact Extends.insert hk b
    · exact Extends.refl s
    · exact Extends.insert hk b

@[simp] theorem put_active [DecidableEq β] : (s.put k b fault).1.active = s.active := by
  unfold put
  split <;> split <;> rfl

/-- After a successful write the key holds the bytes that were written. -/
theorem put_ok [DecidableEq β] {u : Unit} (h : (s.put k b fault).2 = .ok u) :
    (s.put k b fault).1.lookup k = some b := by
  unfold put at h ⊢
  split
  · rename_i old hk
    simp only [hk] at h
    split at h
    · simpa [hk] using h
    · cases h
  · rename_i hk
    simp only [hk] at h
    split at h
    · simp [lookup]
    · cases h
    · cases h

theorem publish_extends (s : ObjectStore κ β) (b : β) (fault : PublishFault) : s.Extends (s.publish b fault) := by
  unfold publish
  split <;> exact Extends.refl s

theorem get_eq_ok : s.get k = .ok b ↔ s.lookup k = some b := by
  simp [get]

theorem mem_keys_of_lookup (h : s.lookup k = some b) : k ∈ s.keys := by
  refine AList.mem_keys.mp (AList.lookup_isSome.mp ?_)
  simpa [lookup] using Option.isSome_of_eq_some h

end

end ObjectStore

end Plico
