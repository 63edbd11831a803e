import Plico.Model.Memory.Json
import Plico.Model.Memory.Reread

/-!
# Which content keeps its hash when it is read again

`ensureJcsSafeNumbers` looks at the integers of a value and takes every float. A float is printed
without a fraction when its value is integral, and from 2^53 on the integer that comes back is one the
check refuses. `Settled` is the content without such a float and without a confidence of negative
zero, whose sign the text does not keep: exactly this content, if it is not nested too deep to be
read, has the hash it had.
-/

namespace Plico

open Json List Number Value MemoryContent

variable {digits : BitVec 64 → Int}

/-! ## Numbers -/

/-- The canonicalizer and the parser, on content that has a hash: what was written comes back as
`reparse` and has the same text, and an integer of at most 53 bits is printed with its own digits and a
larger one with digits as large. -/
structure Platform.Canonical (P : Platform) (digits : BitVec 64 → Int) : Prop where
  decode : ∀ c hash bytes, c.canonicalContentHash P = .ok hash → P.content.toVec c = some bytes →
    P.content.fromSlice bytes = c.reparse digits
  encode : ∀ v bytes, ensureJcsSafeNumbers v = .ok () → P.value.toVec v = some bytes →
    P.value.toVec (v.reread digits) = some bytes
  exact : ∀ bits v, integralDouble bits = some v → v.natAbs ≤ maxJcsSafeInteger → digits bits = v
  large : ∀ bits v, integralDouble bits = some v → maxJcsSafeInteger < v.natAbs →
    maxJcsSafeInteger < (digits bits).natAbs

/-- The bytes that are hashed for the two contents do not collide. -/
def Platform.Distinguishes (P : Platform) (c c' : MemoryContent) : Prop :=
  ∀ input input', c.hashInput P = .ok input → c'.hashInput P = .ok input' →
    P.sha256 (utf8 "plico.memory.content.v1\x00" ++ input) = P.sha256 (utf8 "plico.memory.content.v1\x00" ++ input') →
    input = input'

/-- A float whose text is read as a float, or as an integer that the check takes. -/
def Number.Settled (digits : BitVec 64 → Int) : Number → Prop
  | .float bits => ∀ v ∈ integralDouble bits,
      v.natAbs ≤ maxJcsSafeInteger ∨ 10 ^ 21 ≤ v.natAbs ∨ ofInteger (digits bits) = none
  | .posInt _ | .negInt _ => True

instance : DecidablePred (Number.Settled digits) := fun n => by
  unfold Number.Settled
  split <;> infer_instance

theorem Number.jcsSafe_float {bits : BitVec 64} : (float bits).jcsSafe = true := rfl

theorem Number.jcsSafe_of_ofInteger {n : Int} {number : Number} (h : ofInteger n = some number) :
    number.jcsSafe = true ↔ n.natAbs ≤ maxJcsSafeInteger := by
  unfold ofInteger at h
  split_ifs at h with hpos hlt hge
  · cases h
    have hn : (UInt64.ofNat n.toNat).toNat = n.toNat := UInt64.toNat_ofNat_of_lt' (by simp; omega)
    have habs : n.natAbs = n.toNat := by omega
    rw [habs]
    by_cases h63 : n.toNat < 2 ^ 63
    · simp only [jcsSafe, asU64, asI64, hn, h63, if_true, Option.all_some, Bool.and_eq_true, decide_eq_true_eq,
        Int.natAbs_natCast, and_self]
    · simp only [jcsSafe, asU64, asI64, hn, h63, if_false, Option.all_some, Option.all_none, Bool.and_true,
        decide_eq_true_eq]
  · cases h
    have hn : (Int64.ofInt n).toInt = n := Int64.toInt_ofInt_of_le (by omega) (by omega)
    simp [jcsSafe, asU64, asI64, hn]

variable {P : Platform}

theorem Number.jcsSafe_reread (hP : P.Canonical digits) {n : Number} (h : n.jcsSafe = true) :
    (n.reread digits).jcsSafe = true ↔ n.Settled digits := by
  cases n with
  | posInt | negInt => simpa [reread, Settled] using h
  | float bits =>
    cases hv : integralDouble bits with
    | none => simp [reread, Settled, hv, jcsSafe_float]
    | some v =>
      have hset : (float bits).Settled digits ↔
          v.natAbs ≤ maxJcsSafeInteger ∨ 10 ^ 21 ≤ v.natAbs ∨ ofInteger (digits bits) = none := by
        simp [Settled, hv]
      have hre : (float bits).reread digits =
          if v.natAbs < 10 ^ 21 then (ofInteger (digits bits)).getD (.float bits) else .float bits := by
        simp only [reread, hv]
      rw [hset, hre]
      by_cases hlt : v.natAbs < 10 ^ 21
      · rw [if_pos hlt]
        cases hn : ofInteger (digits bits) with
        | none => simp [jcsSafe_float]
        | some number =>
          rw [Option.getD_some, jcsSafe_of_ofInteger hn]
          -- the printed integer is on the side of 2^53 that the value is on
          have hexact := hP.exact bits v hv
          have hlarge := hP.large bits v hv
          by_cases hsafe : v.natAbs ≤ maxJcsSafeInteger
          · simp [hexact hsafe, hsafe]
          · simp
            omega
      · rw [if_neg hlt]
        exact iff_of_true rfl (.inr (.inl (Nat.not_lt.mp hlt)))

/-! ## Values -/

/-- Every number of the value is settled. -/
def Value.Settled (digits : BitVec 64 → Int) (v : Value) : Prop :=
  ∀ n ∈ v.numbers, n.Settled digits

instance : DecidablePred (Value.Settled digits) :=
  fun _ => inferInstanceAs (Decidable (∀ _ ∈ _, _))

mutual

theorem ensureJcsSafeNumbers_eq_ok : (v : Value) →
    (ensureJcsSafeNumbers v = .ok () ↔ ∀ n ∈ v.numbers, n.jcsSafe = true)
  | .null | .bool _ | .string _ => by simp [ensureJcsSafeNumbers, numbers]
  | .number n => by simp [ensureJcsSafeNumbers, numbers, refuse_eq_ok]
  | .array values => ensureJcsSafeValues_eq_ok values
  | .object fields => ensureJcsSafeFields_eq_ok fields

theorem ensureJcsSafeValues_eq_ok : (values : List Value) →
    (ensureJcsSafeValues values = .ok () ↔ ∀ n ∈ numbersOfValues values, n.jcsSafe = true)
  | [] => by simp [ensureJcsSafeValues, numbersOfValues]
  | value :: values => by
    rw [ensureJcsSafeValues, seq_eq_ok, numbersOfValues, forall_mem_append,
      ← ensureJcsSafeNumbers_eq_ok value, ← ensureJcsSafeValues_eq_ok values]
    exact ⟨fun ⟨⟨⟩, hv, hvs⟩ => ⟨hv, hvs⟩, fun ⟨hv, hvs⟩ => ⟨(), hv, hvs⟩⟩

theorem ensureJcsSafeFields_eq_ok : (fields : List (String × Value)) →
    (ensureJcsSafeFields fields = .ok () ↔ ∀ n ∈ numbersOfFields fields, n.jcsSafe = true)
  | [] => by simp [ensureJcsSafeFields, numbersOfFields]
  | (_, value) :: fields => by
    rw [ensureJcsSafeFields, seq_eq_ok, numbersOfFields, forall_mem_append,
      ← ensureJcsSafeNumbers_eq_ok value, ← ensureJcsSafeFields_eq_ok fields]
    exact ⟨fun ⟨⟨⟩, hv, hvs⟩ => ⟨hv, hvs⟩, fun ⟨hv, hvs⟩ => ⟨(), hv, hvs⟩⟩

end

mutual

theorem Value.numbers_reread : (v : Value) → (v.reread digits).numbers = v.numbers.map (·.reread digits)
  | .null | .bool _ | .string _ | .number _ => rfl
  | .array values => numbers_rereadValues values
  | .object fields => numbers_rereadFields fields

theorem Value.numbers_rereadValues : (values : List Value) →
    numbersOfValues (rereadValues digits values) =
      (numbersOfValues values).map (·.reread digits)
  | [] => rfl
  | value :: values => by
    rw [rereadValues, numbersOfValues, numbersOfValues, map_append, numbers_reread value, numbers_rereadValues values]

theorem Value.numbers_rereadFields : (fields : List (String × Value)) →
    numbersOfFields (rereadFields digits fields) =
      (numbersOfFields fields).map (·.reread digits)
  | [] => rfl
  | (_, value) :: fields => by
    rw [rereadFields, numbersOfFields, numbersOfFields, map_append, numbers_reread value, numbers_rereadFields fields]

end

theorem ensureJcsSafeNumbers_reread (hP : P.Canonical digits) {v : Value} (h : ensureJcsSafeNumbers v = .ok ()) :
    ensureJcsSafeNumbers (v.reread digits) = .ok () ↔ v.Settled digits := by
  rw [ensureJcsSafeNumbers_eq_ok] at h ⊢
  rw [numbers_reread, forall_mem_map]
  exact forall₂_congr fun n hn => jcsSafe_reread hP (h n hn)

/-! ## Content -/

def MemoryContent.Settled (digits : BitVec 64 → Int) : MemoryContent → Prop
  | .structured value => value.Settled digits
  | .knowledge piece => piece.confidence ≠ 0x80000000#32
  | .text _ | .objectRef _ | .procedure _ => True

instance : DecidablePred (MemoryContent.Settled digits) := fun content => by
  unfold MemoryContent.Settled
  split <;> infer_instance

theorem MemoryContent.canonicalContentHash_eq_ok {c : MemoryContent} {hash : String} :
    c.canonicalContentHash P = .ok hash ↔
      ∃ input, c.hashInput P = .ok input ∧ P.sha256 (utf8 "plico.memory.content.v1\x00" ++ input) = hash := by
  rw [canonicalContentHash, seq_eq_ok]
  simp only [pure_ok_inj]

/-- Without collisions, two hashes are equal when the bytes that are hashed are. -/
theorem MemoryContent.canonicalContentHash_congr {c c' : MemoryContent} (hdigest : P.Distinguishes c c')
    {input : Bytes} {hash : String} (hc : c.hashInput P = .ok input) (hash_eq : c.canonicalContentHash P = .ok hash) :
    c'.canonicalContentHash P = .ok hash ↔ c'.hashInput P = .ok input := by
  obtain ⟨input', hinput', rfl⟩ := canonicalContentHash_eq_ok.mp hash_eq
  cases hc.symm.trans hinput'
  rw [canonicalContentHash_eq_ok]
  constructor
  · rintro ⟨input', hinput', heq⟩
    rw [hinput', hdigest input input' hc hinput' heq.symm]
  · exact fun h => ⟨input, h, rfl⟩

theorem hashComponent_inj {kind : String} {a b : Bytes} (h : a.length = b.length)
    (heq : hashComponent kind a = hashComponent kind b) : a = b := by
  simp only [hashComponent, h] at heq
  exact append_cancel_left heq

theorem MemoryContent.hashInput_reread_knowledge {piece : KnowledgePiece} {input : Bytes}
    (h : (knowledge piece).hashInput P = .ok input) :
    ((knowledge piece).reread digits).hashInput P = .ok input ↔ piece.confidence ≠ 0x80000000#32 := by
  obtain ⟨⟨⟩, hfinite, h⟩ := of_seq h
  by_cases hzero : piece.confidence = 0x80000000#32
  · -- the bytes of the confidence are 80 00 00 00, and 00 00 00 00 when it is read again
    simp only [hzero, not_true_eq_false, ne_eq, iff_false]
    intro hre
    obtain ⟨⟨⟩, -, hre⟩ := of_seq hre
    have heq := (pure_ok_inj.mp hre).trans (pure_ok_inj.mp h).symm
    simp only [append_assoc, append_cancel_left_eq] at heq
    rw [append_cancel_right_eq] at heq
    have hbytes := hashComponent_inj (by simp [beBytes]) heq
    simp only [hzero] at hbytes
    revert hbytes
    decide
  · have hsame : rereadF32 piece.confidence = piece.confidence := if_neg hzero
    simp only [reread, hsame, ne_eq, hzero, not_false_eq_true, iff_true]
    exact seq_eq_ok.mpr ⟨(), hfinite, h⟩

theorem MemoryContent.hashInput_reread_structured (hP : P.Canonical digits) {value : Value} {input : Bytes}
    (h : (structured value).hashInput P = .ok input) :
    ((structured value).reread digits).hashInput P = .ok input ↔ value.Settled digits := by
  obtain ⟨⟨⟩, hsafe, h⟩ := of_seq h
  obtain ⟨bytes, hbytes, h⟩ := of_seq h
  rw [← ensureJcsSafeNumbers_reread hP hsafe]
  constructor
  · intro hre
    obtain ⟨⟨⟩, hsafe', -⟩ := of_seq hre
    exact hsafe'
  · intro hsafe'
    have htext := hP.encode value bytes hsafe (required_eq_ok.mp hbytes)
    exact seq_eq_ok.mpr ⟨(), hsafe', seq_eq_ok.mpr ⟨bytes, required_eq_ok.mpr htext, h⟩⟩

namespace Reread

/-- Doubles of integers are printed exactly. -/
def sampleDigits (bits : BitVec 64) : Int :=
  (integralDouble bits).getD 0

def two : BitVec 64 := 0x4000000000000000

def twoTo53 : BitVec 64 := 0x4340000000000000

/-- An empty array within `n` others. -/
def nested : Nat → Value
  | 0 => .array []
  | n + 1 => .array [nested n]

def sampleValues : List Value :=
  [.number (.float two), .number (.posInt 2), .number (.float twoTo53), .number (.posInt 9007199254740992), nested 126]

def sampleText : Value → Bytes
  | .number (.posInt n) => nat n.toNat
  | .number (.float bits) => nat (sampleDigits bits).toNat
  | value => utf8 (String.ofList (replicate value.depth '[' ++ replicate value.depth ']'))

def piece (confidence : BitVec 32) : KnowledgePiece :=
  ⟨"water", "boils at 100", confidence, "book"⟩

def half : BitVec 32 := 0x3f000000

def negativeZero : BitVec 32 := 0x80000000

def sampleContents : List MemoryContent :=
  [.structured (.number (.float two)), .structured (.number (.float twoTo53)), .knowledge (piece half),
    .knowledge (piece negativeZero), .structured (nested 126)]

def sampleContentText : MemoryContent → Bytes
  | .structured value => object [("Structured", sampleText value)]
  | .knowledge k => object [("Knowledge", object
      [("confidence", utf8 (if k.confidence = half then "0.5" else "0")), ("source", string k.source),
        ("statement", string k.statement), ("subject", string k.subject)])]
  | _ => []

/-- The texts, without digests. -/
def sampleTexts : Platform where
  sha256 _ := ""
  parseUuid := parseUuidText
  hyphenated := uuidText
  newV5 id _ := id
  value := {
    toVec := fun v => if v ∈ sampleValues then some (sampleText v) else none
    fromSlice := fun _ => none
    fromSlice_nil := rfl }
  content := {
    toVec := (Serde.listed sampleContentText sampleContents).toVec
    fromSlice := fun bytes =>
      ((Serde.listed sampleContentText sampleContents).fromSlice bytes).bind (·.reparse sampleDigits)
    fromSlice_nil := rfl }

/-- The SHA-256 digests of contents. -/
def sampleDigests : List (MemoryContent × String) :=
  [(.structured (.number (.posInt 2)), "69d906f63440c7669a67c9b65f18c160a268c010f6b0539d93451c44594a3c72"),
    (.structured (.number (.float twoTo53)), "b94c7496595d257d1f96c42ee61a2cc28cb49874a8588060df359f3220b84d96"),
    (.knowledge (piece negativeZero), "cea5a7dd4e0eddcd95cca6df407bd9b4ebe2f9f4b54d336c268fa94176f3669b"),
    (.knowledge (piece 0), "d1c7b70dc32c7032fa798569dcb90f3302e608256a9ad7ab0ab688bbbdbaf914")]

def samplePlatform : Platform :=
  { sampleTexts with
    sha256 := fun bytes => ((sampleDigests.find? fun entry =>
      (entry.1.hashInput sampleTexts).toOption.map (utf8 "plico.memory.content.v1\x00" ++ ·) = some bytes).map
        Prod.snd).getD "" }

theorem samplePlatform_canonical : samplePlatform.Canonical sampleDigits where
  decode c hash bytes _ hbytes := by
    have := Serde.listed_roundTrips (by decide +kernel : Serde.Distinct sampleContentText sampleContents) c bytes hbytes
    exact congrArg (Option.bind · _) this
  encode v bytes _ hbytes := by
    have hclosed : ∀ v ∈ sampleValues, v.reread sampleDigits ∈ sampleValues ∧
        sampleText (v.reread sampleDigits) = sampleText v := by decide +kernel
    simp only [samplePlatform, sampleTexts, Option.ite_none_right_eq_some, Option.some.injEq] at hbytes
    obtain ⟨hv, rfl⟩ := hbytes
    exact (if_pos (hclosed v hv).1).trans (congrArg some (hclosed v hv).2)
  exact bits v hv _ := by simp [sampleDigits, hv]
  large bits v hv h := by simpa [sampleDigits, hv] using h

end Reread

end Plico
