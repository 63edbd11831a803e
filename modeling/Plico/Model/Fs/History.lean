import Plico.Model.Fs.Search

/-!
# Histories of the filesystem

The operations of `SemanticFS` with their inputs: what the clocks read, what the embedding provider answers, and the
listing of the storage at a restart. An operation that fails changes nothing. `processDocument` is the background task
of an earlier create; the two indexes are written to their files at times the caller chooses.
-/

namespace Plico.Fs

open Plico.Cas

inductive FsOp where
  | create (content : Bytes) (tags : List String) (createdBy : String) (intent : Option String) (scope : ObjectScope)
      (now : Nat) (queued : Bool) (answer : EmbedOutcome)
  | createWithEmbedding (content : Bytes) (tags : List String) (createdBy : String) (intent : Option String)
      (scope : ObjectScope) (now : Nat) (embedding : Embedding)
  | processDocument (cid agentId : String) (answer : EmbedOutcome) (chunks : List (String × EmbedOutcome))
  | update (oldCid : String) (newContent : Bytes) (newTags : Option (List String)) (now : Nat) (answer : EmbedOutcome)
  | delete (cid : String) (now : Nat)
  | restore (cid : String) (now : Nat) (answer : EmbedOutcome)
  | search (env : SearchEnv) (query : String) (limit : Nat) (filter : SearchFilter) (allowCache : Bool) (mono : Nat)
  | flushTagIndex
  | persistSearchIndex
  | restart (cids : List String) (embedBatch : List String → Option (List Embedding))

/-- The filesystem of a result, or the one before when the operation failed. -/
def fsOr {α : Type} (fs : SemanticFS) : Except IoError (SemanticFS × α) → SemanticFS
  | .ok (fs, _) => fs
  | .error _ => fs

def FsOp.apply (P : SearchPlatform) (fs : SemanticFS) : FsOp → SemanticFS
  | .create content tags createdBy intent scope now queued answer =>
    fsOr fs (fs.create P.toFsPlatform content tags createdBy intent scope now queued answer)
  | .createWithEmbedding content tags createdBy intent scope now embedding =>
    fsOr fs (fs.createWithEmbedding P.toFsPlatform content tags createdBy intent scope now embedding)
  | .processDocument cid agentId answer chunks => fs.processDocument P.toFsPlatform cid agentId answer chunks
  | .update oldCid newContent newTags now answer =>
    fsOr fs (fs.update P.toFsPlatform oldCid newContent newTags now answer)
  | .delete cid now => ((fs.delete P.toFsPlatform cid now).toOption).getD fs
  | .restore cid now answer => ((fs.restore P.toFsPlatform cid now answer).toOption).getD fs
  | .search env query limit filter allowCache mono =>
    (fs.searchWithFilterInternal P env query limit filter allowCache mono).1
  | .flushTagIndex => fs.flushTagIndex
  | .persistSearchIndex => fs.persistSearchIndex
  | .restart cids embedBatch => fs.restart P.toFsPlatform cids embedBatch

def runFs (P : SearchPlatform) (fs : SemanticFS) (ops : List FsOp) : SemanticFS :=
  ops.foldl (FsOp.apply P) fs

end Plico.Fs
