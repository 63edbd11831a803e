import Plico.Model.Fs.Search
import Plico.Model.Layered.Memory

/-!
# Lexical recall (memory/layered/mod.rs, memory/ledger/store.rs)

What a role may read of the working memories: the entry of a revision id, and the entries that share terms with a
query, ranked by the share of the query's terms they have. The maps of the source are lists here; the ranking does not
depend on their order.
-/

namespace Plico.Layered

open Ledger Fs

/-! ## Terms -/

def isCjk (c : Char) : Bool :=
  (0x3400 ≤ c.val && c.val ≤ 0x4dbf) || (0x4e00 ≤ c.val && c.val ≤ 0x9fff) || (0xf900 ≤ c.val && c.val ≤ 0xfaff)

/-- The loop of `lexical_terms`: the terms so far, and the word or the run of ideographs that is under way. -/
structure TermScan where
  terms : List String
  word : List Char
  cjk : List Char

namespace TermScan

/-- `terms.insert(term)`. -/
def insert (s : TermScan) (term : String) : TermScan :=
  if term ∈ s.terms then s else { s with terms := s.terms ++ [term] }

def flushWord (s : TermScan) : TermScan :=
  if s.word = [] then s else { s.insert (String.ofList s.word) with word := [] }

/-- A run of ideographs gives its pairs of neighbours, and a single one itself. -/
def flushCjk (s : TermScan) : TermScan :=
  match s.cjk with
  | [] => s
  | [c] => { s.insert (String.ofList [c]) with cjk := [] }
  | run => { (run.zip run.tail).foldl (fun s pair => s.insert (String.ofList [pair.1, pair.2])) s with cjk := [] }

def step (isAlphanumeric : Char → Bool) (s : TermScan) (c : Char) : TermScan :=
  if isCjk c then
    let s := s.flushWord
    { s with cjk := s.cjk ++ [c] }
  else if isAlphanumeric c then
    let s := s.flushCjk
    { s with word := s.word ++ [c] }
  else s.flushWord.flushCjk

end TermScan

def lexicalTerms (isAlphanumeric : Char → Bool) (text : String) : List String :=
  (text.toList.foldl (TermScan.step isAlphanumeric) ⟨[], [], []⟩).flushWord.flushCjk.terms

/-! ## Scores -/

variable (P : SearchPlatform)

/-- The score of an entry with a text. -/
def lexicalScore (query : String) (tags : List String) (text : String) : F32 :=
  let queryLower := P.toLowercase query
  let queryTerms := lexicalTerms P.isAlphanumeric queryLower
  let textLower := P.toLowercase text
  let textTerms := lexicalTerms P.isAlphanumeric textLower
  let tagTerms := lexicalTerms P.isAlphanumeric (P.toLowercase (" ".intercalate tags))
  let overlap := P.f32.ofNat (queryTerms.filter fun term => term ∈ textTerms ∨ term ∈ tagTerms).length
  let phraseBonus := if queryLower ≠ "" ∧ strContains textLower queryLower then 0x40000000#32 else 0
  let termScore := if queryTerms = [] then 0 else P.f32.div overlap (P.f32.ofNat queryTerms.length)
  let score := P.f32.add termScore (P.f32.mul phraseBonus 0x3e800000#32)
  if P.f32.lt 0x3f800000#32 score then 0x3f800000#32 else score

/-- The hit of an entry: it has a text, and its score is positive. -/
def lexicalHit (query : String) (entry : MemoryEntry) : Option (MemoryEntry × F32) :=
  match entry.content with
  | .text text =>
    let score := lexicalScore P query entry.tags text
    if P.f32.lt 0 score then some (entry, score) else none
  | _ => none

/-- The order of the hits: the best score, then the latest commit, then the id. -/
def ranksBefore (a b : MemoryEntry × F32) : Bool :=
  if P.f32.lt b.2 a.2 then true
  else if P.f32.lt a.2 b.2 then false
  else if b.1.createdAt < a.1.createdAt then true
  else if a.1.createdAt < b.1.createdAt then false
  else decide (a.1.id ≤ b.1.id)

/-! ## What a role may read -/

/-- The head revisions that the role may read; a policy that is missing hides its memory. -/
def readableActiveRevisionIds (s : LedgerState) (roleId : String) : Except LedgerError (List MemoryRevisionId) := do
  let view ← required s.view (.invalid "missing_current_view")
  pure (((view.streams.filter fun stream => !stream.deleted).filterMap fun stream =>
    ((s.policies.find? fun policy => policy.policyId = stream.policyId).filter fun policy =>
      policy.readerRoles.contains roleId).map fun _ => stream.headRevisionId).mergeSort (· ≤ ·))

namespace LayeredMemory

def findActiveEntry (m : LayeredMemory) (agentId : String) (tier : MemoryTier) (revisionId : String) :
    Option MemoryEntry :=
  (m.getActiveTier agentId tier).find? fun entry => entry.id = revisionId

def findActiveAuthorized (m : LayeredMemory) (roleId : String) (tier : MemoryTier) (revisionId : String) :
    Except LedgerError (Option MemoryEntry) := do
  let ledger ← required m.ledger (.invalid "canonical_ledger_unavailable")
  match ← originForRevision ledger.state roleId revisionId false with
  | none => pure none
  | some origin => pure (m.findActiveEntry origin tier revisionId)

/-- The active working entries of a namespace with one of the ids. -/
def readableEntries (m : LayeredMemory) (ids : List MemoryRevisionId) (namespace_ : String) : List MemoryEntry :=
  (m.working.entries.flatMap fun agent => activeRevisions agent.2).filter fun entry =>
    entry.id ∈ ids ∧ entry.tenantId = namespace_

def recallWorkingLexicalAuthorized (m : LayeredMemory) (roleId namespace_ query : String) (k : Nat) :
    Except LedgerError (List (MemoryEntry × F32)) := do
  let ledger ← required m.ledger (.invalid "canonical_ledger_unavailable")
  let ids ← readableActiveRevisionIds ledger.state roleId
  pure ((((m.readableEntries ids namespace_).filterMap (lexicalHit P query)).mergeSort (ranksBefore P)).take k)

end LayeredMemory

end Plico.Layered
