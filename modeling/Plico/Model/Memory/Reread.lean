import Plico.Model.Memory.Content

/-!
# Content that was written and read again (memory/layered/mod.rs, memory/ledger/store.rs)

A record is stored as its RFC 8785 text, and reading the text back need not give the same numbers: the
text of a double with an integral value has neither a fraction nor an exponent below 10^21, and
`serde_json` reads such a text as a `u64` or an `i64` where it fits. `reread` is the content that
comes back. The digits of an integral double are ECMAScript's and are a parameter; other doubles, and
integers outside both types, are read as the double that was printed. A text that is nested too deep
is not read at all (`reparse`).
-/

namespace Plico

open Value

/-- The integer that a finite double stands for, if it stands for one. -/
def integralDouble (bits : BitVec 64) : Option Int :=
  let exponent := (bits.extractLsb' 52 11).toNat
  let fraction := (bits.extractLsb' 0 52).toNat
  let sign : Int := if bits.msb then -1 else 1
  if exponent = 0 then
    if fraction = 0 then some 0 else none
  else if 1075 ≤ exponent then
    some (sign * ((2 ^ 52 + fraction) * 2 ^ (exponent - 1075) : Nat))
  else if (2 ^ 52 + fraction) % 2 ^ (1075 - exponent) = 0 then
    some (sign * ((2 ^ 52 + fraction) / 2 ^ (1075 - exponent) : Nat))
  else
    none

/-- 2^53, and a half. -/
example : integralDouble 0x4340000000000000 = some 9007199254740992 ∧ integralDouble 0xbfe0000000000000 = none ∧
    integralDouble 0xc000000000000000 = some (-2) := by decide

/-- The number `serde_json` makes of an integer text, where one of the integer types holds it. -/
def Number.ofInteger (n : Int) : Option Number :=
  if 0 ≤ n then
    if n < 2 ^ 64 then some (.posInt (UInt64.ofNat n.toNat)) else none
  else if -2 ^ 63 ≤ n then
    some (.negInt (Int64.ofInt n))
  else
    none

/-- `digits` are the digits that the canonicalizer prints for an integral double. -/
def Number.reread (digits : BitVec 64 → Int) : Number → Number
  | .float bits => match integralDouble bits with
    | some v => if v.natAbs < 10 ^ 21 then (Number.ofInteger (digits bits)).getD (.float bits) else .float bits
    | none => .float bits
  | .posInt n => .posInt n
  | .negInt n => .negInt n

mutual

def Value.reread (digits : BitVec 64 → Int) : Value → Value
  | .null => .null
  | .bool b => .bool b
  | .number n => .number (n.reread digits)
  | .string s => .string s
  | .array values => .array (rereadValues digits values)
  | .object fields => .object (rereadFields digits fields)

def Value.rereadValues (digits : BitVec 64 → Int) : List Value → List Value
  | [] => []
  | value :: values => value.reread digits :: rereadValues digits values

def Value.rereadFields (digits : BitVec 64 → Int) : List (String × Value) → List (String × Value)
  | [] => []
  | (key, value) :: fields => (key, value.reread digits) :: rereadFields digits fields

end

/-- An `f32` is printed as the double of the same value: only the sign of a zero is lost. -/
def rereadF32 (bits : BitVec 32) : BitVec 32 :=
  if bits = 0x80000000#32 then 0#32 else bits

def MemoryContent.reread (digits : BitVec 64 → Int) : MemoryContent → MemoryContent
  | .structured value => .structured (value.reread digits)
  | .knowledge piece => .knowledge { piece with confidence := rereadF32 piece.confidence }
  | .text value => .text value
  | .objectRef cid => .objectRef cid
  | .procedure value => .procedure value

/-! ## The nesting of a text -/

/-- The nesting at which `serde_json` refuses to read on. -/
def recursionLimit : Nat := 128

mutual

def Value.depth : Value → Nat
  | .array values => depthOfValues values + 1
  | .object fields => depthOfFields fields + 1
  | .null | .bool _ | .number _ | .string _ => 0

def Value.depthOfValues : List Value → Nat
  | [] => 0
  | value :: values => max value.depth (depthOfValues values)

def Value.depthOfFields : List (String × Value) → Nat
  | [] => 0
  | (_, value) :: fields => max value.depth (depthOfFields fields)

end

/-- The text of a variant is an object with its name as the key. -/
def MemoryContent.depth : MemoryContent → Nat
  | .text _ | .objectRef _ => 1
  | .structured value => value.depth + 1
  | .procedure p => if p.steps = [] then 3 else 4
  | .knowledge _ => 2

/-- What the text of the content is read as. -/
def MemoryContent.reparse (digits : BitVec 64 → Int) (content : MemoryContent) : Option MemoryContent :=
  if content.depth < recursionLimit then some (content.reread digits) else none

/-! ## The numbers of a value -/

mutual

def Value.numbers : Value → List Number
  | .number n => [n]
  | .array values => numbersOfValues values
  | .object fields => numbersOfFields fields
  | .null | .bool _ | .string _ => []

def Value.numbersOfValues : List Value → List Number
  | [] => []
  | value :: values => value.numbers ++ numbersOfValues values

def Value.numbersOfFields : List (String × Value) → List Number
  | [] => []
  | (_, value) :: fields => value.numbers ++ numbersOfFields fields

end

end Plico
