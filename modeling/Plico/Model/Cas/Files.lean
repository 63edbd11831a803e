import Plico.Framework.Disk
import Plico.Model.Cas.Storage

/-!
# The files of the object storage (cas/storage.rs)

The file steps of `put`, `get_raw` and `list_cids`. An object is the file `<rest>` in the directory of the first two
characters of its CID, and is written as `.tmp_<cid>` in the same directory: all writers of one CID share that name.
Calls of any number of threads take turns between their steps, and a crash leaves the files as they are. An external
failure of a step is left out; an operation on a path that is missing, or is a directory, fails as it would.
-/

namespace Plico.Cas

inductive CasFile where
  | object (cid : String)
  | temp (cid : String)
  deriving DecidableEq, Repr

/-- `split_at(2)`: the directory and the file name. -/
def shardDir (cid : String) : String := String.ofList (cid.toList.take 2)

def fileName (cid : String) : List Char := cid.toList.drop 2

inductive PutError where
  | integrity (cid : String)
  | cas (error : CASError)
  | io
  deriving DecidableEq, Repr

inductive GetError where
  | cas (error : CASError)
  | io
  | serialization
  deriving DecidableEq, Repr

inductive PutPhase where
  | testing
  | making
  | opening
  | writing (file pos : Nat)
  | moving
  | returned (result : Except PutError String)
  deriving DecidableEq

structure PutCall where
  obj : AIObject
  phase : PutPhase
  deriving DecidableEq

/-- The call has found no object and has not renamed its file yet. -/
def PutCall.active (call : PutCall) : Bool :=
  match call.phase with
  | .making | .opening | .writing .. | .moving => true
  | .testing | .returned _ => false

inductive GetPhase where
  | testing
  | opening
  | reading (file : Nat)
  | returned (result : Except GetError AIObject)

structure GetCall where
  cid : String
  phase : GetPhase
  /-- A put of this CID had returned before the call began. -/
  due : Bool

/-- A `list_cids`: before it has read the root, with the directories it has still to read, or done. -/
structure ListCall where
  remaining : Option (List String)
  found : List String
  /-- The objects that were there when the call began. -/
  initial : List String

structure CasSystem (β : Type) where
  dirs : List String
  disk : Disk CasFile β
  puts : List PutCall
  gets : List GetCall
  lists : List ListCall
  /-- The history: CIDs whose put has returned. -/
  acknowledged : List String

inductive CasStep where
  | put (obj : AIObject)
  | get (cid : String)
  | list
  | putStep (i piece : Nat)
  | getStep (i : Nat)
  | listStep (i : Nat)
  | crash
  deriving DecidableEq, Repr

namespace CasSystem

variable {β : Type} [Inhabited β] (sha256 : Bytes → String) (codec : Codec AIObject β Eq)

def fresh : CasSystem β := ⟨[], .empty, [], [], [], []⟩

variable (s : CasSystem β) (cid : String)

/-- `object_path(cid).exists()`; a CID of two characters names the directory itself. -/
def pathExists : Bool :=
  if fileName cid = [] then s.dirs.contains (shardDir cid) else s.disk.exists_ (.object cid)

/-! ## put -/

def setPut (i : Nat) (call : PutCall) (phase : PutPhase) : CasSystem β :=
  { s with puts := s.puts.set i { call with phase } }

def returnPut (i : Nat) (call : PutCall) : CasSystem β :=
  { s.setPut i call (.returned (.ok call.obj.cid)) with acknowledged := s.acknowledged ++ [call.obj.cid] }

/-- One step of a put; `piece` is how much one `write` takes. -/
def putStep (i piece : Nat) (call : PutCall) : CasSystem β :=
  let obj := call.obj
  let json := codec.encode obj
  match call.phase with
  | .testing =>
    if obj.verifyIntegrity sha256 = false then s.setPut i call (.returned (.error (.integrity obj.cid)))
    else
      match validateCid obj.cid with
      | .error e => s.setPut i call (.returned (.error (.cas e)))
      | .ok _ => if s.pathExists obj.cid then s.returnPut i call else s.setPut i call .making
  | .making =>
    -- `create_dir_all`
    { s.setPut i call .opening with dirs := s.dirs.insert (shardDir obj.cid) }
  | .opening =>
    let (disk, file) := s.disk.openTruncate (.temp obj.cid)
    { s.setPut i call (.writing file 0) with disk }
  | .writing file pos =>
    if json.length ≤ pos then s.setPut i call .moving
    else
      let bytes := (json.drop pos).take (piece + 1)
      { s.setPut i call (.writing file (pos + bytes.length)) with disk := s.disk.writeAt file pos bytes }
  | .moving =>
    if fileName obj.cid = [] then s.setPut i call (.returned (.error .io))
    else
      match s.disk.rename (.temp obj.cid) (.object obj.cid) with
      | some disk => { s.returnPut i call with disk }
      | none => s.setPut i call (.returned (.error .io))
  | .returned _ => s

/-! ## get_raw -/

/-- The existence test: an answer, or none when the file is there. -/
def getTest : Option GetError :=
  match validateCid cid with
  | .error e => some (.cas e)
  | .ok _ => if s.pathExists cid then none else some (.cas (.notFound cid))

/-- `fs::read` opens the file. -/
def getOpen : Except GetError Nat :=
  if fileName cid = [] then .error .io else required (s.disk.inode (.object cid)) .io

def getRead (file : Nat) : Except GetError AIObject :=
  match codec.decode (s.disk.bytes file) with
  | none => .error .serialization
  | some obj =>
    if obj.cid ≠ cid ∨ obj.verifyIntegrity sha256 = false then .error (.cas (.integrityFailed cid)) else .ok obj

/-- `get_raw` with nothing in between. -/
def getRaw : Except GetError AIObject :=
  match s.getTest cid with
  | some e => .error e
  | none => do
    let file ← s.getOpen cid
    s.getRead sha256 codec cid file

def setGet (i : Nat) (call : GetCall) (phase : GetPhase) : CasSystem β :=
  { s with gets := s.gets.set i { call with phase } }

def getStep (i : Nat) (call : GetCall) : CasSystem β :=
  match call.phase with
  | .testing =>
    match s.getTest call.cid with
    | some e => s.setGet i call (.returned (.error e))
    | none => s.setGet i call .opening
  | .opening =>
    match s.getOpen call.cid with
    | .error e => s.setGet i call (.returned (.error e))
    | .ok file => s.setGet i call (.reading file)
  | .reading file => s.setGet i call (.returned (s.getRead sha256 codec call.cid file))
  | .returned _ => s

/-! ## list_cids -/

/-- All objects of the storage. -/
def cids : List String :=
  s.disk.names.filterMap fun
    | .object cid => some cid
    | .temp _ => none

/-- The CIDs in one directory; temporary files are skipped. -/
def cidsIn (dir : String) : List String :=
  s.cids.filter fun cid => shardDir cid = dir

def isShardName (dir : String) : Bool := dir.toList.length = 2 && dir.toList.all isAsciiHexdigit

def listStep (i : Nat) (call : ListCall) : CasSystem β :=
  match call.remaining with
  | none => { s with lists := s.lists.set i { call with remaining := some (s.dirs.filter isShardName) } }
  | some (dir :: remaining) =>
    { s with lists := s.lists.set i { call with remaining := some remaining, found := call.found ++ s.cidsIn dir } }
  | some [] => s

/-! ## Runs -/

def step : CasStep → CasSystem β
  | .put obj => { s with puts := s.puts ++ [⟨obj, .testing⟩] }
  | .get cid => { s with gets := s.gets ++ [⟨cid, .testing, s.acknowledged.contains cid⟩] }
  | .list => { s with lists := s.lists ++ [⟨none, [], s.cids⟩] }
  | .putStep i piece =>
    match s.puts[i]? with
    | some call => s.putStep sha256 codec i piece call
    | none => s
  | .getStep i =>
    match s.gets[i]? with
    | some call => s.getStep sha256 codec i call
    | none => s
  | .listStep i =>
    match s.lists[i]? with
    | some call => s.listStep i call
    | none => s
  | .crash => { s with puts := [], gets := [], lists := [] }

def run (steps : List CasStep) : CasSystem β :=
  steps.foldl (step sha256 codec) s

end CasSystem

end Plico.Cas
