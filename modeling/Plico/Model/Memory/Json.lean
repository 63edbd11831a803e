import Mathlib.Data.List.Nodup
import Plico.Model.Memory.Content

/-!
# Canonical JSON texts

`serde_json_canonicalizer::to_vec` on the record types: objects with their keys in order, no blanks.
Texts are written as they are, so these functions agree with the canonicalizer on strings that need no
escape. `Serde.listed` is the codec of finitely many values with such texts; it round-trips, and the
runs that the development evaluates use it.
-/

namespace Plico

open List

namespace Json

def string (s : String) : Bytes :=
  utf8 "\"" ++ utf8 s ++ utf8 "\""

def nat (n : Nat) : Bytes :=
  utf8 (toString n)

def bool (b : Bool) : Bytes :=
  utf8 (if b then "true" else "false")

def option {α : Type} (text : α → Bytes) : Option α → Bytes
  | none => utf8 "null"
  | some a => text a

def array {α : Type} (text : α → Bytes) (values : List α) : Bytes :=
  utf8 "[" ++ (utf8 ",").intercalate (values.map text) ++ utf8 "]"

/-- The keys are given in their order. -/
def object (fields : List (String × Bytes)) : Bytes :=
  utf8 "\x7b" ++ (utf8 ",").intercalate (fields.map fun field => string field.1 ++ utf8 ":" ++ field.2) ++ utf8 "\x7d"

end Json

def MemoryTier.json : MemoryTier → Bytes
  | .ephemeral => Json.string "Ephemeral"
  | .working => Json.string "Working"
  | .longTerm => Json.string "LongTerm"
  | .procedural => Json.string "Procedural"

def MemoryType.json : MemoryType → Bytes
  | .episodic => Json.string "Episodic"
  | .semantic => Json.string "Semantic"
  | .procedural => Json.string "Procedural"
  | .untyped => Json.string "Untyped"

/-! ## A codec for finitely many values -/

section

variable {α : Type} [DecidableEq α]

/-- The codec of the listed values; other values are not encoded and other texts not decoded. -/
def Serde.listed (text : α → Bytes) (values : List α) : Serde α where
  toVec a := if a ∈ values then some (text a) else none
  fromSlice bytes := if bytes = [] then none else values.find? fun a => text a = bytes
  fromSlice_nil := if_pos rfl

/-- The texts of listed values are there and distinct. -/
def Serde.Distinct (text : α → Bytes) (values : List α) : Prop :=
  (values.map text).Nodup ∧ [] ∉ values.map text

instance (text : α → Bytes) (values : List α) : Decidable (Serde.Distinct text values) :=
  inferInstanceAs (Decidable (_ ∧ _))

theorem Serde.listed_roundTrips {text : α → Bytes} {values : List α} (h : Serde.Distinct text values) (a : α) :
    (Serde.listed text values).RoundTrips a := by
  intro bytes hv
  obtain ⟨hnodup, hne⟩ := h
  simp only [Serde.listed, Option.ite_none_right_eq_some, Option.some.injEq] at hv
  obtain ⟨ha, rfl⟩ := hv
  obtain ⟨b, hb⟩ : ∃ b, values.find? (fun b => text b = text a) = some b :=
    Option.isSome_iff_exists.mp (find?_isSome.mpr ⟨a, ha, by simp⟩)
  have htext : text b = text a := by simpa using find?_some hb
  obtain rfl : b = a := inj_on_of_nodup_map hnodup (mem_of_find?_eq_some hb) ha htext
  have hnil : text b ≠ [] := fun h => hne (mem_map.mpr ⟨b, ha, h⟩)
  exact (if_neg hnil).trans hb

end

/-! ## UUID texts -/

def hexDigits : Bytes := utf8 "0123456789abcdef"

/-- The value of a hexadecimal digit of either case. -/
def hexValue (b : UInt8) : Option Nat :=
  if b ∈ hexDigits then some (hexDigits.idxOf b)
  else if 65 ≤ b ∧ b ≤ 70 then some (b.toNat - 55)
  else none

/-- The `n` low hexadecimal digits of `v`. -/
def hexText (n v : Nat) : List Char :=
  (range n).map fun i => Char.ofNat (hexDigits.getD (v / 16 ^ (n - 1 - i) % 16) 0).toNat

/-- `Uuid::to_string`: lower case, in groups of 8, 4, 4, 4 and 12 digits. -/
def uuidText (id : Uuid) : String :=
  let v := id.toNat
  String.ofList (hexText 8 (v / 16 ^ 24) ++ '-' :: hexText 4 (v / 16 ^ 20) ++ '-' :: hexText 4 (v / 16 ^ 16) ++
    '-' :: hexText 4 (v / 16 ^ 12) ++ '-' :: hexText 12 v)

/-- `Uuid::parse_str` on the hyphenated form. -/
def parseUuidText (s : String) : Option Uuid := do
  let bytes := utf8 s
  guard (bytes.length = 36 ∧ bytes.zipIdx.all fun b => (b.1 == 45) == (b.2 ∈ [8, 13, 18, 23]))
  let digits ← (bytes.filter (· ≠ 45)).mapM hexValue
  pure (BitVec.ofNat 128 (digits.foldl (fun v d => 16 * v + d) 0))

example : (parseUuidText "0b5ab3ee-2f1b-4d0e-9a4c-1d1f6a7c9e01").map uuidText =
    some "0b5ab3ee-2f1b-4d0e-9a4c-1d1f6a7c9e01" := by decide +kernel

end Plico
