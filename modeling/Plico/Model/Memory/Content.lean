import Plico.Framework.Checked

/-!
# Memory content and its canonical hash (memory/layered/mod.rs)

The payload of a memory and `canonicalContentHash`, which hashes it component by component. SHA-256,
UUID parsing and the JSON canonicalizer are libraries the program calls: they are fields of `Platform`
and nothing about them is assumed here.
-/

namespace Plico

abbrev Bytes := List UInt8

/-- `str::as_bytes`. -/
def utf8 (s : String) : Bytes :=
  s.toUTF8.data.toList

theorem utf8_injective : Function.Injective utf8 := by
  intro a b h
  exact String.toByteArray_inj.mp (ByteArray.ext (Array.toList_inj.mp h))

/-- `char::is_whitespace`: the Unicode property White_Space. -/
def isWhitespace (c : Char) : Bool :=
  (0x09 ≤ c.val && c.val ≤ 0x0d) || c.val == 0x20 || c.val == 0x85 || c.val == 0xa0 || c.val == 0x1680 ||
    (0x2000 ≤ c.val && c.val ≤ 0x200a) || c.val == 0x2028 || c.val == 0x2029 || c.val == 0x202f ||
    c.val == 0x205f || c.val == 0x3000

/-- `s.trim().is_empty()`. -/
def isBlank (s : String) : Bool :=
  s.toList.all isWhitespace

/-- The `n` low bytes of `v`, most significant first (`to_be_bytes`). -/
def beBytes (n v : Nat) : Bytes :=
  (List.range n).map fun i => UInt8.ofNat (v / 256 ^ (n - 1 - i))

/-! ## JSON values -/

/-- `serde_json::Number`: a floating-point number is finite and given by its bits. -/
inductive Number where
  | posInt (n : UInt64)
  | negInt (n : Int64)
  | float (bits : BitVec 64)
  deriving DecidableEq, Repr

/-- `serde_json::Value`. -/
inductive Value where
  | null
  | bool (b : Bool)
  | number (n : Number)
  | string (s : String)
  | array (values : List Value)
  | object (fields : List (String × Value))

mutual

def Value.decEq : (a b : Value) → Decidable (a = b)
  | .null, b => match b with
    | .null => isTrue rfl
    | .bool _ | .number _ | .string _ | .array _ | .object _ => isFalse nofun
  | .bool x, b => match b with
    | .bool y => decidable_of_iff (x = y) (by simp)
    | .null | .number _ | .string _ | .array _ | .object _ => isFalse nofun
  | .number x, b => match b with
    | .number y => decidable_of_iff (x = y) (by simp)
    | .null | .bool _ | .string _ | .array _ | .object _ => isFalse nofun
  | .string x, b => match b with
    | .string y => decidable_of_iff (x = y) (by simp)
    | .null | .bool _ | .number _ | .array _ | .object _ => isFalse nofun
  | .array x, b => match b with
    | .array y => @decidable_of_iff _ (x = y) (by simp) (Value.decEqValues x y)
    | .null | .bool _ | .number _ | .string _ | .object _ => isFalse nofun
  | .object x, b => match b with
    | .object y => @decidable_of_iff _ (x = y) (by simp) (Value.decEqFields x y)
    | .null | .bool _ | .number _ | .string _ | .array _ => isFalse nofun

def Value.decEqValues : (a b : List Value) → Decidable (a = b)
  | [], [] => isTrue rfl
  | [], _ :: _ => isFalse nofun
  | _ :: _, [] => isFalse nofun
  | x :: xs, y :: ys =>
    @decidable_of_iff _ (x = y ∧ xs = ys) (by simp)
      (@instDecidableAnd _ _ (Value.decEq x y) (Value.decEqValues xs ys))

def Value.decEqFields : (a b : List (String × Value)) → Decidable (a = b)
  | [], [] => isTrue rfl
  | [], _ :: _ => isFalse nofun
  | _ :: _, [] => isFalse nofun
  | (k, x) :: xs, (l, y) :: ys =>
    @decidable_of_iff _ ((k = l ∧ x = y) ∧ xs = ys) (by simp)
      (@instDecidableAnd _ _ (@instDecidableAnd _ _ (inferInstance) (Value.decEq x y)) (Value.decEqFields xs ys))

end

instance : DecidableEq Value := Value.decEq

def Number.asU64 : Number → Option Nat
  | .posInt n => some n.toNat
  | _ => none

def Number.asI64 : Number → Option Int
  | .posInt n => if n.toNat < 2 ^ 63 then some n.toNat else none
  | .negInt n => some n.toInt
  | .float _ => none

namespace Value

/-- `value.get(key)`. -/
def get (key : String) : Value → Option Value
  | .object fields => fields.lookup key
  | _ => none

def asStr : Value → Option String
  | .string s => some s
  | _ => none

def asU64 : Value → Option Nat
  | .number n => n.asU64
  | _ => none

def asArray : Value → Option (List Value)
  | .array values => some values
  | _ => none

/-- An unsigned integer of 64 bits. -/
def nat (n : Nat) : Value :=
  .number (.posInt (UInt64.ofNat n))

def option {α : Type} (value : α → Value) : Option α → Value
  | none => .null
  | some a => value a

end Value

def maxJcsSafeInteger : Nat := 9007199254740991

def Number.jcsSafe (n : Number) : Bool :=
  (n.asU64.all fun v => v ≤ maxJcsSafeInteger) && (n.asI64.all fun v => v.natAbs ≤ maxJcsSafeInteger)

mutual

def ensureJcsSafeNumbers : Value → Except String Unit
  | .number n => refuse (n.jcsSafe = false) "jcs_unsafe_integer"
  | .array values => ensureJcsSafeValues values
  | .object fields => ensureJcsSafeFields fields
  | .null | .bool _ | .string _ => .ok ()

def ensureJcsSafeValues : List Value → Except String Unit
  | [] => .ok ()
  | value :: values => do
    ensureJcsSafeNumbers value
    ensureJcsSafeValues values

def ensureJcsSafeFields : List (String × Value) → Except String Unit
  | [] => .ok ()
  | (_, value) :: fields => do
    ensureJcsSafeNumbers value
    ensureJcsSafeFields fields

end

/-! ## Content -/

structure ProcedureStep where
  stepNumber : UInt32
  description : String
  action : String
  expectedOutcome : String
  deriving DecidableEq, Repr

structure Procedure where
  name : String
  description : String
  steps : List ProcedureStep
  learnedFrom : String
  deriving DecidableEq, Repr

/-- The confidence is an `f32`, given by its bits. -/
structure KnowledgePiece where
  subject : String
  statement : String
  confidence : BitVec 32
  source : String
  deriving DecidableEq, Repr

inductive MemoryContent where
  | text (value : String)
  | objectRef (cid : String)
  | structured (value : Value)
  | procedure (value : Procedure)
  | knowledge (value : KnowledgePiece)
  deriving DecidableEq

inductive MemoryTier where
  | ephemeral
  | working
  | longTerm
  | procedural
  deriving DecidableEq, Repr

inductive MemoryType where
  | episodic
  | semantic
  | procedural
  | untyped
  deriving DecidableEq, Repr

/-- `f32::is_finite`: the exponent is not all ones. -/
def isFiniteF32 (bits : BitVec 32) : Bool :=
  bits.extractLsb' 23 8 != 0xff#8

/-! ## The libraries the program calls -/

abbrev Uuid := BitVec 128

/-- One type's JSON codec: `serde_json_canonicalizer::to_vec` and `serde_json::from_slice`. The empty
input is no JSON text. -/
structure Serde (α : Type) where
  toVec : α → Option Bytes
  fromSlice : Bytes → Option α
  fromSlice_nil : fromSlice [] = none

/-- Decoding the canonical bytes of `a` gives `a` back. -/
def Serde.RoundTrips {α : Type} (c : Serde α) (a : α) : Prop :=
  ∀ b, c.toVec a = some b → c.fromSlice b = some a

/-- Library code: SHA-256 in lower-case hexadecimal, UUIDs, and the JSON codecs of values and content. -/
structure Platform where
  sha256 : Bytes → String
  parseUuid : String → Option Uuid
  hyphenated : Uuid → String
  newV5 : Uuid → Bytes → Uuid
  value : Serde Value
  content : Serde MemoryContent

/-! ## The canonical content hash -/

def hashComponent (kind : String) (value : Bytes) : Bytes :=
  beBytes 8 (utf8 kind).length ++ utf8 kind ++ beBytes 8 value.length ++ value

def hashStep (step : ProcedureStep) : Bytes :=
  hashComponent "step_number" (beBytes 4 step.stepNumber.toNat) ++
    hashComponent "step_description" (utf8 step.description) ++
    hashComponent "step_action" (utf8 step.action) ++
    hashComponent "step_outcome" (utf8 step.expectedOutcome)

/-- The bytes fed to the hash after its domain, or why the content has no canonical hash. -/
def MemoryContent.hashInput (P : Platform) : MemoryContent → Except String Bytes
  | .text value => .ok (hashComponent "text" (utf8 value))
  | .objectRef value => .ok (hashComponent "object_ref" (utf8 value))
  | .structured value => do
    ensureJcsSafeNumbers value
    let encoded ← required (P.value.toVec value) "jcs_canonicalization_failed"
    pure (hashComponent "structured_json" encoded)
  | .procedure p =>
    .ok (hashComponent "procedure_name" (utf8 p.name) ++
      hashComponent "procedure_description" (utf8 p.description) ++
      hashComponent "procedure_learned_from" (utf8 p.learnedFrom) ++
      p.steps.flatMap hashStep)
  | .knowledge k => do
    refuse (isFiniteF32 k.confidence = false) "non_finite_knowledge_confidence"
    pure (hashComponent "knowledge_subject" (utf8 k.subject) ++
      hashComponent "knowledge_statement" (utf8 k.statement) ++
      hashComponent "knowledge_confidence" (beBytes 4 k.confidence.toNat) ++
      hashComponent "knowledge_source" (utf8 k.source))

def MemoryContent.canonicalContentHash (P : Platform) (content : MemoryContent) : Except String String := do
  let input ← content.hashInput P
  pure (P.sha256 (utf8 "plico.memory.content.v1\x00" ++ input))

end Plico
