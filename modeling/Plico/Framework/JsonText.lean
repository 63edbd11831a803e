import Mathlib.Data.Nat.Digits.Defs

/-!
# Compact JSON texts

A tree of what a serializer writes, and its text without blanks: fields in order, strings with the two-character escapes
of JSON and `\u00xx` for the other control characters. Numbers are 64-bit naturals or those of another printer.
-/

namespace Plico

/-- A JSON tree to be written; `φ` are the numbers with a printer of their own. -/
inductive Output (φ : Type) where
  | bool (b : Bool)
  | nat (n : UInt64)
  | real (x : φ)
  | string (s : String)
  | array (values : List (Output φ))
  | object (fields : List (String × Output φ))

namespace Output

/-! ## Texts -/

/-- The UTF-8 form of a string. -/
def encode (s : String) : List UInt8 := s.toList.flatMap String.utf8EncodeChar

def hexDigit (d : Nat) : UInt8 := UInt8.ofNat (if d < 10 then 48 + d else 87 + d)

/-- A character inside a JSON string. -/
def escaped (c : Char) : List UInt8 :=
  if c = '"' then [92, 34]
  else if c = '\\' then [92, 92]
  else if c.toNat = 8 then [92, 98]
  else if c.toNat = 9 then [92, 116]
  else if c.toNat = 10 then [92, 110]
  else if c.toNat = 12 then [92, 102]
  else if c.toNat = 13 then [92, 114]
  else if c.toNat < 32 then [92, 117, 48, 48, hexDigit (c.toNat / 16), hexDigit (c.toNat % 16)]
  else String.utf8EncodeChar c

def stringText (s : String) : List UInt8 := 34 :: s.toList.flatMap escaped ++ [34]

def natText (n : UInt64) : List UInt8 := (Nat.toDigits 10 n.toNat).map fun c => UInt8.ofNat c.toNat

def boolText (b : Bool) : List UInt8 := encode (if b then "true" else "false")

variable {φ : Type} (print : φ → List UInt8)

mutual

def text : Output φ → List UInt8
  | .bool b => boolText b
  | .nat n => natText n
  | .real x => print x
  | .string s => stringText s
  | .array values => 91 :: elementsText values ++ [93]
  | .object fields => 123 :: fieldsText fields ++ [125]

/-- The elements with commas between them. -/
def elementsText : List (Output φ) → List UInt8
  | [] => []
  | [value] => text value
  | value :: next :: values => text value ++ 44 :: elementsText (next :: values)

def fieldsText : List (String × Output φ) → List UInt8
  | [] => []
  | [(key, value)] => stringText key ++ 58 :: text value
  | (key, value) :: next :: fields => stringText key ++ 58 :: text value ++ 44 :: fieldsText (next :: fields)

end

end Output

end Plico
