import Plico.Model.Cas.Storage

/-!
# Layered context (fs/context_loader.rs, fs/context_budget.rs)

A text of the loader is kept with the CID of the object it was made from. The paths of the L0 and L1 files are
built from the requested name without a check, so a name that is no CID may lead to any file: `l0File` and
`l1File` say which text is found at the path of a name, and of which object it is. The summarizer is a service
outside the program: its answers are inputs.
-/

namespace Plico.Fs

open Plico.Cas

/-- Library code of the object filesystem: SHA-256, UTF-8 decoding and Unicode lower case. -/
structure FsPlatform where
  sha256 : Bytes → String
  fromUtf8 : Bytes → Option String
  fromUtf8Lossy : Bytes → String
  toLowercase : String → String

inductive ContextLayer where
  | l0
  | l1
  | l2
  deriving DecidableEq, Repr

def usizeMax : Nat := 2 ^ 64 - 1

namespace ContextLayer

def tokensApprox : ContextLayer → Nat
  | .l0 => 100
  | .l1 => 2000
  | .l2 => usizeMax

def parseLayer (toUppercase : String → String) (s : String) : Option ContextLayer :=
  match toUppercase s with
  | "L0" => some .l0
  | "L1" => some .l1
  | "L2" => some .l2
  | _ => none

end ContextLayer

/-- A text and the CID of the object it was made from. -/
structure SourcedText where
  text : String
  source : String
  deriving DecidableEq, Repr

structure LoadedContext where
  cid : String
  layer : ContextLayer
  content : SourcedText
  tokensEstimate : Nat
  actualLayer : Option ContextLayer
  degraded : Bool
  degradationReason : Option String
  deriving DecidableEq, Repr

/-- Why a context could not be loaded. A panic ends the request without an answer. -/
inductive ContextError where
  | notFound (message : String)
  | panicked
  deriving DecidableEq, Repr

structure ContextLoader where
  l0Cache : AList (fun _ : String => SourcedText)
  l0File : String → Option SourcedText
  l1File : String → Option SourcedText

/-- `summarize` for the two layers: a summary or the text of an error. -/
structure Summarizer where
  summarizeL0 : String → Except String String
  summarizeL1 : String → Except String String

/-! ## Texts -/

/-- `split_whitespace`. -/
def splitWhitespace (s : String) : List String :=
  ((s.toList.splitOnP isWhitespace).filter fun word => !word.isEmpty).map String.ofList

def tokensEstimate (s : String) : Nat :=
  (splitWhitespace s).length * 3 / 4

def heuristicSummary (content : String) : String :=
  let words := splitWhitespace content
  if words.length ≤ 20 then content
  else " ".intercalate (words.take 10) ++ " ... " ++ " ".intercalate (words.drop (words.length - 10))

/-- The characters that fill exactly `n` bytes, if a character ends there. -/
def takeBytes : Nat → List Char → Option (List Char)
  | 0, _ => some []
  | _ + 1, [] => none
  | n + 1, c :: cs => if c.utf8Size ≤ n + 1 then (takeBytes (n + 1 - c.utf8Size) cs).map (c :: ·) else none

/-- `raw[..limit]`, which panics inside a character. -/
def prefixTruncate (raw : String) (limit : Nat) : Except ContextError String :=
  if (utf8 raw).length ≤ limit then .ok raw
  else (required (takeBytes limit raw.toList) .panicked).map String.ofList

/-- `cid.split_at(2)`, which panics on a shorter text and inside a character. -/
def splitAt2 (cid : String) : Except ContextError Unit :=
  required ((takeBytes 2 cid.toList).map fun _ => ()) .panicked

def l1CharLimit : Nat := 8000

/-! ## Loading -/

namespace ContextLoader

variable (P : FsPlatform) (summarizer : Option Summarizer) (cas : CASStorage)

/-- The text of an object, empty when it cannot be read. -/
def rawText (cid : String) : String :=
  match cas.get P.sha256 cid with
  | .ok obj => P.fromUtf8Lossy obj.data
  | .error _ => ""

/-- The L0 text computed from the object: the text, its actual layer and why it is degraded. -/
def computedL0 (cid : String) : String × ContextLayer × Option String :=
  let raw := rawText P cas cid
  if (splitWhitespace raw).length ≤ 20 then
    (raw, .l2, some "Content too short for summarization; returning full text")
  else
    match summarizer with
    | some s =>
      match s.summarizeL0 raw with
      | .ok summary => (summary, .l0, none)
      | .error e => (heuristicSummary raw, .l0, some ("LLM summarizer failed: " ++ e ++ "; using heuristic"))
    | none =>
      (heuristicSummary raw, .l0, some "No LLM summarizer available; using heuristic (first+last 10 words)")

variable (loader : ContextLoader) (cid : String)

def loadL0 : Except ContextError (ContextLoader × LoadedContext) :=
  match loader.l0Cache.lookup cid with
  | some content =>
    .ok (loader, ⟨cid, .l0, content, tokensEstimate content.text, some .l0, false, none⟩)
  | none => do
    splitAt2 cid
    let (content, actualLayer, reason) := match loader.l0File cid with
      | some content => (content, ContextLayer.l0, none)
      | none =>
        let (text, actualLayer, reason) := computedL0 P summarizer cas cid
        (⟨text, cid⟩, actualLayer, reason)
    pure ({ loader with l0Cache := loader.l0Cache.insert cid content },
      ⟨cid, .l0, content, tokensEstimate content.text, some actualLayer, reason.isSome, reason⟩)

/-- The L1 text computed from the object, and whether the summarizer made it. -/
def computedL1 : Except ContextError (String × Bool) :=
  let raw := rawText P cas cid
  match summarizer with
  | some s =>
    match s.summarizeL1 raw with
    | .ok summary => .ok (summary, true)
    | .error _ => (prefixTruncate raw l1CharLimit).map (·, false)
  | none => (prefixTruncate raw l1CharLimit).map (·, false)

def storeL1 (content : SourcedText) : ContextLoader :=
  { loader with l1File := fun name => if name = cid then some content else loader.l1File name }

def loadL1 : Except ContextError (ContextLoader × LoadedContext) := do
  splitAt2 cid
  let (loader, content) ← match loader.l1File cid with
    | some content => .ok (loader, content)
    | none => do
      let (text, summarized) ← computedL1 P summarizer cas cid
      pure (if summarized then loader.storeL1 cid ⟨text, cid⟩ else loader, ⟨text, cid⟩)
  pure (loader, ⟨cid, .l1, content, tokensEstimate content.text, some .l1, false, none⟩)

def loadL2 : Except ContextError (ContextLoader × LoadedContext) := do
  let obj ← (cas.get P.sha256 cid).mapError fun e => .notFound e.display
  let content : SourcedText := ⟨P.fromUtf8Lossy obj.data, cid⟩
  pure (loader, ⟨cid, .l2, content, tokensEstimate content.text, some .l2, false, none⟩)

def load : ContextLayer → Except ContextError (ContextLoader × LoadedContext)
  | .l0 => loader.loadL0 P summarizer cas cid
  | .l1 => loader.loadL1 P summarizer cas cid
  | .l2 => loader.loadL2 P cas cid

/-! ## Assembling within a budget -/

/-- `if let Ok(loaded) = loader.load(..)`. -/
def attempt (layer : ContextLayer) : Except ContextError (ContextLoader × Option LoadedContext) :=
  match loader.load P summarizer cas cid layer with
  | .ok (loader, loaded) => .ok (loader, some loaded)
  | .error (.notFound _) => .ok (loader, none)
  | .error .panicked => .error .panicked

/-- A loaded layer that has tokens and fits. -/
def fits (loaded : Option LoadedContext) (remaining : Nat) : Bool :=
  loaded.any fun c => 0 < c.tokensEstimate && c.tokensEstimate ≤ remaining

def pickLayer (remaining : Nat) : Except ContextError (ContextLoader × Option ContextLayer) := do
  if ContextLayer.l2.tokensApprox ≤ remaining then return (loader, some .l2)
  let (loader, l2) ← loader.attempt P summarizer cas cid .l2
  if fits l2 remaining then return (loader, some .l2)
  if ContextLayer.l1.tokensApprox ≤ remaining then return (loader, some .l1)
  let (loader, l1) ← loader.attempt P summarizer cas cid .l1
  if fits l1 remaining then return (loader, some .l1)
  let (loader, l0) ← loader.attempt P summarizer cas cid .l0
  if fits l0 remaining then return (loader, some .l0)
  return (loader, none)

/-- The context taken for one candidate: its layer when that fits, or else L0 when that fits. -/
def takeContext (layer : ContextLayer) (remaining : Nat) :
    Except ContextError (ContextLoader × Option LoadedContext) := do
  let (loader, loaded) ← loader.attempt P summarizer cas cid layer
  match loaded with
  | none => return (loader, none)
  | some loaded =>
    if loaded.tokensEstimate ≤ remaining then return (loader, some loaded)
    if layer = .l0 then return (loader, none)
    let (loader, l0) ← loader.attempt P summarizer cas cid .l0
    return (loader, l0.filter fun c => c.tokensEstimate ≤ remaining)

/-- The loop over the candidates: the loader, the remaining budget and the items so far. -/
def assembleLoop (loader : ContextLoader) (remaining : Nat) (items : List LoadedContext) :
    List String → Except ContextError (ContextLoader × List LoadedContext)
  | [] => .ok (loader, items)
  | cid :: candidates =>
    if remaining = 0 then .ok (loader, items)
    else do
      let (loader, layer) ← loader.pickLayer P summarizer cas cid remaining
      match layer with
      | none => assembleLoop loader remaining items candidates
      | some layer =>
        let (loader, item) ← loader.takeContext P summarizer cas cid layer remaining
        assembleLoop loader (remaining - (item.map (·.tokensEstimate)).getD 0) (items ++ item.toList) candidates

end ContextLoader

structure BudgetAllocation where
  items : List LoadedContext
  totalTokens : Nat
  budget : Nat
  candidatesConsidered : Nat
  candidatesIncluded : Nat
  deriving DecidableEq, Repr

/-- The relevance of a candidate is not read. -/
def assemble (P : FsPlatform) (summarizer : Option Summarizer) (cas : CASStorage) (loader : ContextLoader)
    (candidates : List String) (budgetTokens : Nat) : Except ContextError (ContextLoader × BudgetAllocation) := do
  let (loader, items) ← loader.assembleLoop P summarizer cas budgetTokens [] candidates
  pure (loader, ⟨items, (items.map (·.tokensEstimate)).sum, budgetTokens, candidates.length, items.length⟩)

end Plico.Fs
