import Plico.Proof.Memory.Reread

/-!
# The bytes of a content hash determine the content

What is fed to the hash is a list of components, each a kind and a value behind their lengths. Such a list is
determined by its bytes as long as the lengths fit in 64 bits (`components_inj`), the kinds tell the variants apart,
and a step of a procedure always has four components (`steps_inj`).
-/

namespace Plico

open UInt8 Reread MemoryContent List

/-! ## Lengths -/

theorem beBytes_succ {n v : Nat} : beBytes (n + 1) v = ofNat (v / 256 ^ n) :: beBytes n v := by
  simp only [beBytes, range_succ_eq_map, map_cons, map_map]
  congr 1
  refine map_congr_left fun i _ => ?_
  simp only [Function.comp_apply]
  congr 3
  omega

theorem mod_of_beBytes_eq {n v w : Nat} (h : beBytes n v = beBytes n w) : v % 256 ^ n = w % 256 ^ n := by
  induction n with
  | zero => simp [Nat.mod_one]
  | succ n ih =>
    rw [beBytes_succ, beBytes_succ, List.cons.injEq] at h
    have hbyte := congrArg toNat h.1
    rw [toNat_ofNat', toNat_ofNat'] at hbyte
    rw [Nat.mod_pow_succ, Nat.mod_pow_succ, ih h.2, hbyte]

theorem prefixed_inj {a b s t : Bytes} (ha : a.length < 2 ^ 64) (hb : b.length < 2 ^ 64)
    (h : beBytes 8 a.length ++ (a ++ s) = beBytes 8 b.length ++ (b ++ t)) : a = b ∧ s = t := by
  obtain ⟨hbytes, h⟩ := append_inj h (by simp [beBytes])
  have hlength := mod_of_beBytes_eq hbytes
  rw [Nat.mod_eq_of_lt (by omega), Nat.mod_eq_of_lt (by omega)] at hlength
  exact append_inj h hlength

/-! ## Components -/

def componentsText (components : List (String × Bytes)) : Bytes :=
  components.flatMap fun component => hashComponent component.1 component.2

def Fits (component : String × Bytes) : Prop :=
  (utf8 component.1).length < 2 ^ 64 ∧ component.2.length < 2 ^ 64

variable {c : String × Bytes}

theorem componentsText_cons {cs : List (String × Bytes)} :
    componentsText (c :: cs) = beBytes 8 (utf8 c.1).length ++
      (utf8 c.1 ++ (beBytes 8 c.2.length ++ (c.2 ++ componentsText cs))) := by
  simp [componentsText, hashComponent]

theorem components_inj {xs ys : List (String × Bytes)} (hx : ∀ c ∈ xs, Fits c) (hy : ∀ c ∈ ys, Fits c)
    (h : componentsText xs = componentsText ys) : xs = ys := by
  induction xs generalizing ys with
  | nil =>
    cases ys with
    | nil => rfl
    | cons y ys =>
      cases h
  | cons x xs ih =>
    cases ys with
    | nil =>
      cases h
    | cons y ys =>
      obtain ⟨hfx, hx⟩ := forall_mem_cons.mp hx
      obtain ⟨hfy, hy⟩ := forall_mem_cons.mp hy
      rw [componentsText_cons, componentsText_cons] at h
      obtain ⟨hkind, h⟩ := prefixed_inj hfx.1 hfy.1 h
      obtain ⟨hvalue, h⟩ := prefixed_inj hfx.2 hfy.2 h
      rw [Prod.ext (utf8_injective hkind) hvalue, ih hx hy h]

/-! ## Content -/

def ProcedureStep.components (step : ProcedureStep) : List (String × Bytes) :=
  [("step_number", beBytes 4 step.stepNumber.toNat), ("step_description", utf8 step.description),
    ("step_action", utf8 step.action), ("step_outcome", utf8 step.expectedOutcome)]

/-- The components that are hashed for a content. -/
def MemoryContent.components (P : Platform) : MemoryContent → List (String × Bytes)
  | .text value => [("text", utf8 value)]
  | .objectRef cid => [("object_ref", utf8 cid)]
  | .structured value => [("structured_json", (P.value.toVec value).getD [])]
  | .procedure p =>
    [("procedure_name", utf8 p.name), ("procedure_description", utf8 p.description),
      ("procedure_learned_from", utf8 p.learnedFrom)] ++ p.steps.flatMap ProcedureStep.components
  | .knowledge k =>
    [("knowledge_subject", utf8 k.subject), ("knowledge_statement", utf8 k.statement),
      ("knowledge_confidence", beBytes 4 k.confidence.toNat), ("knowledge_source", utf8 k.source)]

def hashKinds : List String :=
  ["text", "object_ref", "structured_json", "procedure_name", "procedure_description", "procedure_learned_from",
    "step_number", "step_description", "step_action", "step_outcome", "knowledge_subject", "knowledge_statement",
    "knowledge_confidence", "knowledge_source"]

variable {content : MemoryContent} {P : Platform}

theorem kind_mem (h : c ∈ content.components P) : c.1 ∈ hashKinds := by
  cases content <;> simp only [components, mem_append, mem_flatMap, ProcedureStep.components,
    mem_cons, not_mem_nil, or_false] at h
  case procedure p =>
    rcases h with (rfl | rfl | rfl) | ⟨step, -, rfl | rfl | rfl | rfl⟩ <;> simp [hashKinds]
  case knowledge k => rcases h with rfl | rfl | rfl | rfl <;> simp [hashKinds]
  all_goals simp [h, hashKinds]

/-- The values of the content have lengths that fit in 64 bits, as values in memory have. -/
def MemoryContent.InMemory (P : Platform) (content : MemoryContent) : Prop :=
  ∀ c ∈ content.components P, c.2.length < 2 ^ 64

theorem MemoryContent.InMemory.fits (h : content.InMemory P) : ∀ c ∈ content.components P, Fits c := by
  have hkinds : ∀ kind ∈ hashKinds, (utf8 kind).length < 2 ^ 64 := by decide +kernel
  exact fun c hc => ⟨hkinds c.1 (kind_mem hc), h c hc⟩

theorem componentsText_steps {steps : List ProcedureStep} :
    componentsText (steps.flatMap ProcedureStep.components) = steps.flatMap hashStep := by
  rw [componentsText, flatMap_assoc]
  refine congrArg steps.flatMap (funext fun step => ?_)
  simp [ProcedureStep.components, hashStep]

variable {P : Platform} {a b : MemoryContent} {input : Bytes}

theorem componentsText_of_hashInput (h : a.hashInput P = .ok input) : componentsText (a.components P) = input := by
  cases a with
  | text | objectRef => simpa [components, componentsText] using Except.ok.inj h
  | structured value =>
    obtain ⟨_, -, h⟩ := of_seq h
    obtain ⟨encoded, hencoded, h⟩ := of_seq h
    simpa [components, componentsText, required_eq_ok.mp hencoded] using pure_ok_inj.mp h
  | procedure p =>
    cases h
    rw [components, componentsText, flatMap_append, ← componentsText, ← componentsText, componentsText_steps]
    simp [componentsText]
  | knowledge k =>
    obtain ⟨_, -, h⟩ := of_seq h
    simpa [components, componentsText] using pure_ok_inj.mp h

theorem eq_of_beBytes_four {v w : Nat} (hv : v < 2 ^ 32) (hw : w < 2 ^ 32) (h : beBytes 4 v = beBytes 4 w) : v = w := by
  have hmod := mod_of_beBytes_eq h
  rwa [show 256 ^ 4 = 2 ^ 32 from rfl, Nat.mod_eq_of_lt hv, Nat.mod_eq_of_lt hw] at hmod

theorem stepNumber_inj {m n : UInt32} (h : beBytes 4 m.toNat = beBytes 4 n.toNat) : m = n :=
  UInt32.toNat_inj.mp (eq_of_beBytes_four m.toNat_lt n.toNat_lt h)

theorem confidence_inj {x y : BitVec 32} (h : beBytes 4 x.toNat = beBytes 4 y.toNat) : x = y :=
  BitVec.eq_of_toNat_eq (eq_of_beBytes_four x.isLt y.isLt h)

theorem steps_inj {xs ys : List ProcedureStep}
    (h : xs.flatMap ProcedureStep.components = ys.flatMap ProcedureStep.components) : xs = ys := by
  induction xs generalizing ys with
  | nil =>
    cases ys with
    | nil => rfl
    | cons y ys => cases h
  | cons x xs ih =>
    cases ys with
    | nil => cases h
    | cons y ys =>
      simp only [flatMap_cons, ProcedureStep.components, cons_append, List.cons.injEq,
        Prod.mk.injEq, true_and] at h
      obtain ⟨hnumber, hdescription, haction, houtcome, hrest⟩ := h
      rw [ih hrest, List.cons.injEq]
      cases x
      cases y
      rw [ProcedureStep.mk.injEq]
      exact ⟨⟨stepNumber_inj hnumber, utf8_injective hdescription, utf8_injective haction, utf8_injective houtcome⟩,
        rfl⟩

/-- The same variant with equal fields; JSON values are compared by their canonical text. -/
def SamePayload (P : Platform) : MemoryContent → MemoryContent → Prop
  | .structured v, .structured w => P.value.toVec v = P.value.toVec w
  | a, b => a = b

/-- The bytes fed to the hash are equal only for the same payload. -/
theorem samePayload_of_hashInput_eq (ha : a.hashInput P = .ok input) (hb : b.hashInput P = .ok input)
    (hfa : a.InMemory P) (hfb : b.InMemory P) : SamePayload P a b := by
  have h := components_inj hfa.fits hfb.fits
    ((componentsText_of_hashInput ha).trans (componentsText_of_hashInput hb).symm)
  cases a <;> cases b <;> simp [components] at h
  case text.text v w => exact congrArg text (utf8_injective h)
  case objectRef.objectRef v w => exact congrArg objectRef (utf8_injective h)
  case structured.structured v w =>
    obtain ⟨_, -, ha⟩ := of_seq ha
    obtain ⟨x, hx, -⟩ := of_seq ha
    obtain ⟨_, -, hb⟩ := of_seq hb
    obtain ⟨y, hy, -⟩ := of_seq hb
    rw [required_eq_ok.mp hx, required_eq_ok.mp hy] at h
    rw [SamePayload, required_eq_ok.mp hx, required_eq_ok.mp hy, show x = y from h]
  case procedure.procedure p q =>
    obtain ⟨hname, hdescription, hlearned, hsteps⟩ := h
    cases p
    cases q
    refine congrArg procedure ?_
    rw [Procedure.mk.injEq]
    exact ⟨utf8_injective hname, utf8_injective hdescription, steps_inj hsteps, utf8_injective hlearned⟩
  case knowledge.knowledge k l =>
    obtain ⟨hsubject, hstatement, hconfidence, hsource⟩ := h
    cases k
    cases l
    refine congrArg knowledge ?_
    rw [KnowledgePiece.mk.injEq]
    exact ⟨utf8_injective hsubject, utf8_injective hstatement, confidence_inj hconfidence, utf8_injective hsource⟩

/-- A procedure with a step has the bytes of the same procedure only. -/
theorem samePayload_procedure :
    let content := procedure ⟨"deploy", "d", [⟨1, "build", "make", "ok"⟩], "ops"⟩
    content.InMemory samplePlatform ∧
      ∃ input, content.hashInput samplePlatform = .ok input ∧
        SamePayload samplePlatform content content := by
  have hin : (procedure ⟨"deploy", "d", [⟨1, "build", "make", "ok"⟩], "ops"⟩).InMemory
      samplePlatform := by
    unfold MemoryContent.InMemory
    decide +kernel
  exact ⟨hin, _, rfl, samePayload_of_hashInput_eq rfl rfl hin hin⟩

end Plico
