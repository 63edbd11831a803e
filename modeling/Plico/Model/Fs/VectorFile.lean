import Plico.Framework.Log
import Plico.Model.Fs.SemanticFs

/-!
# The file of the vector index (fs/search/hnsw.rs)

Here the index has the metadata in full. The keys of the graph over the vectors are left out, and what that graph
answers to a new vector is an input.
-/

namespace Plico.Fs

open Plico.Cas

structure VectorMeta extends SearchIndexMeta where
  cid : String
  snippet : String
  deriving DecidableEq

structure VectorEntry where
  embedding : Embedding
  meta_ : VectorMeta
  deriving DecidableEq

/-- A record of the file. -/
structure SearchIndexEntry where
  cid : String
  embedding : Embedding
  tags : List String
  snippet : String
  contentType : String
  createdAt : Nat
  ownerRole : String
  namespace_ : String
  scope : ObjectScope

/-- The lines of the file. A number that is not finite is written as `null`, and that is no number to the reader. -/
structure LineCodec (β : Type) where
  line : SearchIndexEntry → β
  read : β → Option SearchIndexEntry
  read_line : ∀ e, read (line e) = if e.embedding.all isFiniteF32 then some e else none

abbrev VectorEntries := AList (fun _ : String => VectorEntry)

/-- The index and the file `hnsw_index.jsonl`, line by line. -/
structure VectorIndex (β : Type) where
  dim : Nat
  entries : VectorEntries
  file : Option (List β)

def VectorEntry.persisted (cid : String) (e : VectorEntry) : SearchIndexEntry where
  cid
  embedding := e.embedding
  tags := e.meta_.tags
  snippet := e.meta_.snippet
  contentType := e.meta_.contentType
  createdAt := e.meta_.createdAt
  ownerRole := e.meta_.ownerRole
  namespace_ := e.meta_.namespace_
  scope := e.meta_.scope

def SearchIndexEntry.restored (e : SearchIndexEntry) : VectorEntry where
  embedding := e.embedding
  meta_ := ⟨⟨e.tags, e.contentType, e.createdAt, e.ownerRole, e.namespace_, e.scope, none⟩, e.cid, e.snippet⟩

namespace VectorIndex

variable {β : Type} (codec : LineCodec β)

def withDim (dim : Nat) : VectorIndex β := ⟨dim, ∅, none⟩

/-- A new vector that the graph refuses is not stored; its answer for an id that is there is not looked at. -/
def upsert (cid : String) (embedding : Embedding) (meta_ : VectorMeta) (added : Bool) (s : VectorIndex β) :
    VectorIndex β :=
  if embedding.length ≠ s.dim ∨ embedding.all F32.isZero ∨ (cid ∉ s.entries ∧ !added) then s
  else { s with entries := s.entries.insert cid ⟨embedding, meta_⟩ }

def lines (entries : VectorEntries) : List β := entries.entries.map fun x => codec.line (x.2.persisted x.1)

def persistTo (s : VectorIndex β) : VectorIndex β :=
  if s.entries.entries.isEmpty then s else { s with file := some (lines codec s.entries) }

def loaded (file : Option (List β)) : List SearchIndexEntry := (file.getD []).filterMap codec.read

/-- A record whose vector the graph refuses is passed over. -/
def insertLoaded (added : String → Bool) (loaded : List SearchIndexEntry) : VectorEntries :=
  index (·.cid) (·.restored) (loaded.filter fun e => added e.cid)

/-- The entries of a new index of dimension `dim` after it has read the file. -/
def restoreFrom (dim : Nat) (added : String → Bool) (file : Option (List β)) : Except String VectorEntries :=
  match loaded codec file with
  | [] => .ok ∅
  | first :: rest =>
    if first.embedding.length ≠ dim then
      .error ("Dimension mismatch: index has " ++ toString dim ++ ", persisted has " ++ toString first.embedding.length)
    else .ok (insertLoaded added (first :: rest))

inductive Op where
  | upsert (cid : String) (embedding : Embedding) (meta_ : VectorMeta) (added : Bool)
  | delete (cid : String)
  | persist
  deriving DecidableEq

def apply (s : VectorIndex β) : Op → VectorIndex β
  | .upsert cid embedding meta_ added => s.upsert cid embedding meta_ added
  | .delete cid => { s with entries := s.entries.erase cid }
  | .persist => s.persistTo codec

def run (s : VectorIndex β) (ops : List Op) : VectorIndex β := ops.foldl (apply codec) s

end VectorIndex

end Plico.Fs
