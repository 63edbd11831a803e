import Plico.Framework.Run
import Plico.Model.Cas.Files
import Plico.Proof.Cas.Storage

/-!
# The files of the object storage hold what a map of objects would

When the puts of one CID do not overlap (`Alone`), every step of the file system is one of an abstract storage, a map
from CIDs to objects, or none at all: `Kept` relates the two, and a step either leaves the map alone or puts one
object into it (`Stores`). What a call has still to do depends on the files only through its own temporary file and
through objects that are there for good.
-/

namespace Plico.Cas

open AList Disk CasSystem List

variable {obj : AIObject} {cid : String}

/-- What a digest in hexadecimal looks like: it names a file in a directory. -/
def IsDigest (cid : String) : Prop := validateCid cid = .ok () ∧ fileName cid ≠ []

instance (cid : String) : Decidable (IsDigest cid) := inferInstanceAs (Decidable (_ ∧ _))

theorem IsDigest.isShardName (h : IsDigest cid) : CasSystem.isShardName (shardDir cid) = true := by
  obtain ⟨hvalid, hname⟩ := h
  obtain ⟨_, -, hhex⟩ := of_seq hvalid
  have hall : ∀ c ∈ cid.toList, isAsciiHexdigit c = true := by simpa using hhex
  have hlength : 2 ≤ cid.toList.length := by
    by_contra hshort
    exact hname (drop_eq_nil_of_le (by omega))
  simp only [CasSystem.isShardName, shardDir, String.toList_ofList, length_take, Bool.and_eq_true,
    decide_eq_true_eq, all_eq_true]
  exact ⟨by omega, fun c hc => hall c (mem_of_mem_take hc)⟩

namespace CasSystem

variable {β : Type} {sha256 : Bytes → String} {codec : Codec AIObject β Eq} {cas cas' : CASStorage} {s s' : CasSystem β}

/-- The put is past its test and has `cid` to write. -/
def writes (cid : String) (call : PutCall) : Bool := call.active && call.obj.cid == cid

/-- A put tests for its object only when no other put of this CID is past its test. -/
def Alone (s : CasSystem β) : CasStep → Prop
  | .putStep i _ =>
    match s.puts[i]? with
    | some ⟨obj, .testing⟩ => ∀ call ∈ s.puts, writes obj.cid call = false
    | _ => True
  | _ => True

instance (s : CasSystem β) (step : CasStep) : Decidable (Alone s step) := by
  unfold Alone
  split
  · split <;> infer_instance
  · infer_instance

/-! ## The invariant -/

/-- A put that has found no object for its CID. -/
structure Writing (sha256 : Bytes → String) (cas : CASStorage) (obj : AIObject) : Prop where
  intact : obj.cid = sha256 obj.data
  digest : IsDigest obj.cid
  absent : cas.lookup obj.cid = none

def PutKept (sha256 : Bytes → String) (codec : Codec AIObject β Eq) (cas : CASStorage) (s : CasSystem β)
    (call : PutCall) : Prop :=
  match call.phase with
  | .testing => True
  | .making => Writing sha256 cas call.obj
  | .opening => Writing sha256 cas call.obj ∧ shardDir call.obj.cid ∈ s.dirs
  | .writing file pos => (Writing sha256 cas call.obj ∧ shardDir call.obj.cid ∈ s.dirs) ∧
      s.disk.inode (.temp call.obj.cid) = some file ∧
      s.disk.read (.temp call.obj.cid) = some ((codec.encode call.obj).take pos) ∧ pos ≤ (codec.encode call.obj).length
  | .moving => (Writing sha256 cas call.obj ∧ shardDir call.obj.cid ∈ s.dirs) ∧
      s.disk.read (.temp call.obj.cid) = some (codec.encode call.obj)
  | .returned result => call.obj.cid = sha256 call.obj.data → result = .ok call.obj.cid

def GetKept (cas : CASStorage) (s : CasSystem β) (call : GetCall) : Prop :=
  match call.phase with
  | .testing => call.due → call.cid ∈ cas
  | .opening => fileName call.cid ≠ [] → call.cid ∈ cas
  | .reading file => call.cid ∈ cas ∧ s.disk.inode (.object call.cid) = some file
  | .returned result => IsDigest call.cid →
      (result = .error (.cas (.notFound call.cid)) ∧ call.due = false) ∨
        ∃ obj, result = .ok obj ∧ cas.lookup call.cid = some obj

structure ListKept (cas : CASStorage) (s : CasSystem β) (call : ListCall) : Prop where
  nodup : call.found.Nodup
  found : ∀ cid ∈ call.found, cid ∈ cas
  initial : ∀ cid ∈ call.initial, cid ∈ cas
  unread : call.remaining = none → call.found = []
  remaining : ∀ dirs, call.remaining = some dirs → dirs.Nodup ∧ (∀ cid ∈ call.found, shardDir cid ∉ dirs) ∧
    ∀ cid ∈ call.initial, cid ∈ call.found ∨ shardDir cid ∈ dirs

structure Kept (sha256 : Bytes → String) (codec : Codec AIObject β Eq) (cas : CASStorage) (s : CasSystem β) : Prop where
  files : ∀ cid, s.disk.read (.object cid) = (cas.lookup cid).map codec.encode
  intact : Intact sha256 cas
  stored : ∀ cid ∈ cas, IsDigest cid ∧ shardDir cid ∈ s.dirs
  nodup : s.dirs.Nodup
  sole : ∀ cid, Sole (writes cid) s.puts
  puts : ∀ call ∈ s.puts, PutKept sha256 codec cas s call
  gets : ∀ call ∈ s.gets, GetKept cas s call
  lists : ∀ call ∈ s.lists, ListKept cas s call
  acknowledged : ∀ cid ∈ s.acknowledged, cid ∈ cas

theorem Kept.exists_object (h : Kept sha256 codec cas s) : s.disk.exists_ (.object cid) = true ↔ cid ∈ cas := by
  rw [exists_iff, h.files, ← lookup_isSome]
  cases cas.lookup cid <;> simp

variable {cid : String}

theorem Kept.pathExists (h : Kept sha256 codec cas s) (hname : fileName cid ≠ []) :
    s.pathExists cid = true ↔ cid ∈ cas := by
  unfold CasSystem.pathExists
  rw [if_neg hname]
  exact h.exists_object

/-! ## What the other calls see of a step -/

/-- What a step of a put of `cid` leaves alone: temporary files of other CIDs, the objects that are there, and
directories. -/
structure Frame (cas : CASStorage) (cid : String) (s s' : CasSystem β) : Prop where
  temp : ∀ other, other ≠ cid → s'.disk.inode (.temp other) = s.disk.inode (.temp other) ∧
    s'.disk.read (.temp other) = s.disk.read (.temp other)
  object : ∀ other ∈ cas, s'.disk.inode (.object other) = s.disk.inode (.object other)
  dirs : ∀ dir ∈ s.dirs, dir ∈ s'.dirs

variable {call : PutCall}

/-- The storage has more objects, but none for `cid`. -/
theorem PutKept.mono (h : PutKept sha256 codec cas s call) (hframe : Frame cas cid s s')
    (hne : call.active → call.obj.cid ≠ cid) (hcas : ∀ other, other ≠ cid → cas'.lookup other = cas.lookup other) :
    PutKept sha256 codec cas' s' call := by
  have hwriting : call.active → Writing sha256 cas call.obj → Writing sha256 cas' call.obj := by
    intro hactive hw
    refine ⟨hw.intact, hw.digest, ?_⟩
    rw [hcas _ (hne hactive)]
    exact hw.absent
  obtain ⟨obj, phase⟩ := call
  cases phase with
  | testing => trivial
  | making => exact hwriting rfl h
  | opening => exact ⟨hwriting rfl h.1, hframe.dirs _ h.2⟩
  | writing file pos =>
    obtain ⟨hinode, hread⟩ := hframe.temp _ (hne rfl)
    unfold PutKept
    rw [hinode, hread]
    exact ⟨⟨hwriting rfl h.1.1, hframe.dirs _ h.1.2⟩, h.2⟩
  | moving =>
    unfold PutKept
    rw [(hframe.temp _ (hne rfl)).2]
    exact ⟨⟨hwriting rfl h.1.1, hframe.dirs _ h.1.2⟩, h.2⟩
  | returned result => exact h

theorem GetKept.mono {call : GetCall} (h : GetKept cas s call) (hframe : Frame cas cid s s')
    (hstores : Stores sha256 cas cas') : GetKept cas' s' call := by
  obtain ⟨cid', phase, due⟩ := call
  cases phase with
  | testing => exact fun hdue => hstores.mem (h hdue)
  | opening => exact fun hname => hstores.mem (h hname)
  | reading file => exact ⟨hstores.mem h.1, (hframe.object _ h.1).trans h.2⟩
  | returned result =>
    intro hdigest
    refine (h hdigest).imp_right ?_
    rintro ⟨obj, hresult, hobj⟩
    exact ⟨obj, hresult, hstores.lookup hobj⟩

theorem ListKept.mono {call : ListCall} (h : ListKept cas s call) (hmem : ∀ other, other ∈ cas → other ∈ cas') :
    ListKept cas' s' call where
  nodup := h.nodup
  found cid hcid := hmem cid (h.found cid hcid)
  initial cid hcid := hmem cid (h.initial cid hcid)
  unread := h.unread
  remaining := h.remaining

/-! ## Steps of a put -/

variable {i : Nat} {piece : Nat} {dir : String}

section

variable (h : Kept sha256 codec cas s) {acknowledged : List String} {disk : Disk CasFile β} {dirs : List String}
  {phase : PutPhase}
include h

/-- A put that returns without having changed a file. -/
theorem Kept.endPut {result : Except PutError String}
    (hi : s.puts[i]? = some call) (hresult : call.obj.cid = sha256 call.obj.data → result = .ok call.obj.cid)
    (hacknowledged : ∀ cid ∈ acknowledged, cid ∈ cas) :
    Kept sha256 codec cas { s with
      puts := s.puts.set i { call with phase := .returned result }
      acknowledged } :=
  { h with
    sole cid := (h.sole cid).leave hi rfl
    puts := forall_mem_set h.puts hresult
    lists c hc := (h.lists c hc).mono fun _ h => h
    acknowledged := hacknowledged }

/-- A put that moves on while no other put writes its CID. -/
theorem Kept.movePut (hi : s.puts[i]? = some call)
    (hothers : ∀ (j : Nat) (c : PutCall), i ≠ j → s.puts[j]? = some c → writes call.obj.cid c = false)
    (hstores : Stores sha256 cas cas') (hcas : ∀ other, other ≠ call.obj.cid → cas'.lookup other = cas.lookup other)
    (hframe : Frame cas call.obj.cid s { s with dirs, disk, puts := s.puts.set i { call with phase }, acknowledged })
    (hfiles : ∀ cid, disk.read (.object cid) = (cas'.lookup cid).map codec.encode)
    (hstored : ∀ cid ∈ cas', IsDigest cid ∧ shardDir cid ∈ dirs) (hnodup : dirs.Nodup)
    (hacknowledged : ∀ cid ∈ acknowledged, cid ∈ cas')
    (hkept : PutKept sha256 codec cas' { s with dirs, disk, puts := s.puts.set i { call with phase }, acknowledged }
      { call with phase }) :
    Kept sha256 codec cas' { s with dirs, disk, puts := s.puts.set i { call with phase }, acknowledged } where
  files := hfiles
  intact := hstores.intact h.intact
  stored := hstored
  nodup := hnodup
  sole cid := by
    by_cases hcid : call.obj.cid = cid
    · subst hcid
      exact .set hi hothers
    · refine (h.sole cid).leave hi ?_
      simp [writes, hcid]
  puts c hc := by
    obtain ⟨j, hj⟩ := mem_iff_getElem?.mp hc
    obtain ⟨-, rfl⟩ | ⟨hij, hj⟩ := getElem?_set_eq_some hi hj
    · exact hkept
    · refine (h.puts c (mem_of_getElem? hj)).mono hframe (fun hactive hcid => ?_) hcas
      have hnot := hothers j c hij hj
      simp [writes, hactive, hcid] at hnot
  gets c hc := (h.gets c hc).mono hframe hstores
  lists c hc := (h.lists c hc).mono fun _ => hstores.mem
  acknowledged := hacknowledged

/-- No other put writes the CID of one that is past its test. -/
theorem Kept.others (hi : s.puts[i]? = some call) (hactive : call.active) (j : Nat)
    (c : PutCall) (hij : i ≠ j) (hj : s.puts[j]? = some c) : writes call.obj.cid c = false :=
  (h.sole call.obj.cid).other hi (by simp [writes, hactive]) j c hij hj

/-- The part of `movePut` for steps that store no object. -/
theorem Kept.prepare (hi : s.puts[i]? = some call)
    (hothers : ∀ (j : Nat) (c : PutCall), i ≠ j → s.puts[j]? = some c → writes call.obj.cid c = false)
    (hdisk : ∀ name, name ≠ .temp call.obj.cid →
      disk.inode name = s.disk.inode name ∧ disk.read name = s.disk.read name)
    (hdirs : ∀ dir ∈ s.dirs, dir ∈ dirs) (hnodup : dirs.Nodup)
    (hkept : PutKept sha256 codec cas { s with dirs, disk, puts := s.puts.set i { call with phase } }
      { call with phase }) : Kept sha256 codec cas { s with dirs, disk, puts := s.puts.set i { call with phase } } := by
  have hframe : Frame cas call.obj.cid s { s with dirs, disk, puts := s.puts.set i { call with phase } } := by
    refine ⟨fun other hother => hdisk _ ?_, fun other _ => (hdisk _ ?_).1, hdirs⟩
    · simpa using hother
    · simp
  refine h.movePut hi hothers (.refl cas) (fun _ _ => rfl) hframe ?_ ?_ hnodup h.acknowledged hkept
  · intro cid
    rw [(hdisk (.object cid) (by simp)).2]
    exact h.files cid
  · exact fun cid hcid => ⟨(h.stored cid hcid).1, hdirs _ (h.stored cid hcid).2⟩

end

theorem Kept.testPut (hdigest : ∀ data, IsDigest (sha256 data)) (h : Kept sha256 codec cas s)
    (hi : s.puts[i]? = some ⟨obj, .testing⟩) (halone : ∀ call ∈ s.puts, writes obj.cid call = false) [Inhabited β] :
    Kept sha256 codec cas (s.putStep sha256 codec i piece ⟨obj, .testing⟩) := by
  simp only [putStep]
  split
  · next hbad =>
    refine h.endPut hi (fun hcid => ?_) h.acknowledged
    rw [verifyIntegrity_iff.mpr hcid] at hbad
    cases hbad
  · next hgood =>
    have hcid : obj.cid = sha256 obj.data := verifyIntegrity_iff.mp (by simpa using hgood)
    have hobj : IsDigest obj.cid := by
      rw [hcid]
      exact hdigest obj.data
    rw [hobj.1]
    dsimp only
    split
    · next hthere =>
      have hmem : obj.cid ∈ cas := (h.pathExists hobj.2).mp hthere
      exact h.endPut hi (fun _ => rfl)
        (forall_mem_append.mpr ⟨h.acknowledged, forall_mem_singleton.mpr hmem⟩)
    · next hthere =>
      have habsent : cas.lookup obj.cid = none :=
        lookup_eq_none.mpr fun hmem => hthere ((h.pathExists hobj.2).mpr hmem)
      exact h.prepare hi (fun j c _ hj => halone c (mem_of_getElem? hj)) (fun _ _ => ⟨rfl, rfl⟩) (fun _ h => h) h.nodup
        ⟨hcid, hobj, habsent⟩

/-- The bytes written so far, and one more piece. -/
theorem take_piece {json : List β} {pos : Nat} :
    json.take pos ++ (json.drop pos).take piece = json.take (pos + ((json.drop pos).take piece).length) := by
  rw [take_add, length_take, ← take_eq_take_min]

section

variable [Inhabited β]

section

variable (h : Kept sha256 codec cas s)
include h

theorem Kept.openPut (hi : s.puts[i]? = some ⟨obj, .opening⟩) :
    Kept sha256 codec cas (s.putStep sha256 codec i piece ⟨obj, .opening⟩) := by
  have hwriting := h.puts _ (mem_of_getElem? hi)
  refine h.prepare hi (h.others hi rfl) (fun name hname => ?_) (fun _ h => h) h.nodup ⟨hwriting, ?_, ?_, Nat.zero_le _⟩
  · have hread : (s.disk.openTruncate (.temp obj.cid)).1.read name = s.disk.read name := by
      rw [read_openTruncate, if_neg hname]
    exact ⟨inode_openTruncate_of_ne hname, hread⟩
  · exact inode_openTruncate _
  · show (s.disk.openTruncate (.temp obj.cid)).1.read (.temp obj.cid) = _
    rw [read_openTruncate, if_pos rfl, take_zero]

theorem Kept.writePut {file pos : Nat} (hi : s.puts[i]? = some ⟨obj, .writing file pos⟩) :
    Kept sha256 codec cas (s.putStep sha256 codec i piece ⟨obj, .writing file pos⟩) := by
  obtain ⟨hwriting, hinode, hread, hpos⟩ := h.puts _ (mem_of_getElem? hi)
  simp only [putStep]
  split
  · next hdone =>
    refine h.prepare hi (h.others hi rfl) (fun _ _ => ⟨rfl, rfl⟩) (fun _ h => h) h.nodup ⟨hwriting, ?_⟩
    rw [hread, take_of_length_le hdone]
  · have hbytes := Option.some.inj ((read_of_inode hinode).symm.trans hread)
    refine h.prepare hi (h.others hi rfl) (fun name hname => ?_) (fun _ h => h) h.nodup ⟨hwriting, hinode, ?_, ?_⟩
    · refine ⟨rfl, ?_⟩
      rw [writeAt, read_setBytes hinode, if_neg hname]
    · have hlength := length_take_of_le hpos
      rw [writeAt, read_setBytes hinode, if_pos rfl, hbytes, ← take_piece]
      exact congrArg some (overlay_length hlength)
    · show pos + (((codec.encode obj).drop pos).take (piece + 1)).length ≤ (codec.encode obj).length
      rw [length_take, length_drop]
      omega

theorem Kept.renamePut (hi : s.puts[i]? = some ⟨obj, .moving⟩) :
    ∃ cas', Stores sha256 cas cas' ∧ Kept sha256 codec cas' (s.putStep sha256 codec i piece ⟨obj, .moving⟩) := by
  obtain ⟨⟨hwriting, hdir⟩, htemp⟩ := h.puts _ (mem_of_getElem? hi)
  obtain ⟨disk, hrename⟩ := exists_rename (exists_iff.mpr ⟨_, htemp⟩) (CasFile.object obj.cid)
  have hput : cas.put sha256 obj = .ok (cas.insert obj.cid obj, obj.cid) := by
    rw [put_eq_ok]
    exact ⟨hwriting.intact, hwriting.digest.1, rfl, by simp [hwriting.absent]⟩
  have hne : ∀ other, other ≠ obj.cid → (cas.insert obj.cid obj).lookup other = cas.lookup other :=
    fun _ => lookup_insert_ne
  refine ⟨cas.insert obj.cid obj, stores_of_put hput, ?_⟩
  simp only [putStep, hrename]
  rw [if_neg hwriting.digest.2]
  refine h.movePut hi (h.others hi rfl) (stores_of_put hput) hne ⟨?_, ?_, fun _ h => h⟩ ?_ ?_ h.nodup ?_ fun _ => rfl
  · intro other hother
    rw [inode_rename hrename, read_rename hrename]
    simp [hother]
  · intro other hother
    have hname : other ≠ obj.cid := by
      rintro rfl
      exact lookup_eq_none.mp hwriting.absent hother
    rw [inode_rename hrename]
    simp [hname]
  · intro cid
    rw [read_rename hrename]
    by_cases hcid : cid = obj.cid
    · subst hcid
      simp [htemp]
    · rw [if_neg (by simpa using hcid), hne cid hcid]
      exact h.files cid
  · intro cid hcid
    rcases (mem_insert _).mp hcid with rfl | hcid
    · exact ⟨hwriting.digest, hdir⟩
    · exact h.stored cid hcid
  · refine forall_mem_append.mpr ⟨fun cid hcid => ?_, forall_mem_singleton.mpr ((mem_insert _).mpr (.inl rfl))⟩
    exact (mem_insert _).mpr (.inr (h.acknowledged cid hcid))

end

theorem Kept.putStep (hdigest : ∀ data, IsDigest (sha256 data)) (h : Kept sha256 codec cas s)
    (hi : s.puts[i]? = some call) (piece : Nat) (halone : Alone s (.putStep i piece)) :
    ∃ cas', Stores sha256 cas cas' ∧ Kept sha256 codec cas' (s.putStep sha256 codec i piece call) := by
  obtain ⟨obj, phase⟩ := call
  cases phase with
  | testing =>
    simp only [Alone, hi] at halone
    exact ⟨cas, .refl cas, h.testPut hdigest hi halone⟩
  | making =>
    have hwriting := h.puts _ (mem_of_getElem? hi)
    refine ⟨cas, .refl cas, h.prepare hi (h.others hi rfl) (fun _ _ => ⟨rfl, rfl⟩) (fun dir hdir => ?_)
      (List.Nodup.insert h.nodup) ⟨hwriting, mem_insert_self⟩⟩
    exact mem_insert_of_mem hdir
  | opening => exact ⟨cas, .refl cas, h.openPut hi⟩
  | writing file pos => exact ⟨cas, .refl cas, h.writePut hi⟩
  | moving => exact h.renamePut hi
  | returned result => exact ⟨cas, .refl cas, h⟩

end

/-! ## Reading -/

section

variable (h : Kept sha256 codec cas s)
include h

theorem Kept.getTest (hdigest : IsDigest cid) :
    s.getTest cid = if cid ∈ cas then none else some (.cas (.notFound cid)) := by
  unfold CasSystem.getTest
  rw [hdigest.1]
  by_cases hmem : cid ∈ cas
  · rw [if_pos hmem, if_pos ((h.pathExists hdigest.2).mpr hmem)]
  · rw [if_neg hmem, if_neg (mt (h.pathExists hdigest.2).mp hmem)]

theorem Kept.getOpen (hname : fileName cid ≠ []) (hmem : cid ∈ cas) :
    ∃ file, s.getOpen cid = .ok file ∧ s.disk.inode (.object cid) = some file := by
  obtain ⟨file, hfile⟩ := Option.isSome_iff_exists.mp (h.exists_object.mpr hmem)
  refine ⟨file, ?_, hfile⟩
  unfold CasSystem.getOpen
  rw [if_neg hname, hfile, required_some]

theorem Kept.getRead {file : Nat} (hfile : s.disk.inode (.object cid) = some file) (hobj : cas.lookup cid = some obj) :
    s.getRead sha256 codec cid file = .ok obj := by
  have hbytes : s.disk.bytes file = codec.encode obj := by
    have hread := h.files cid
    rw [read_of_inode hfile, hobj] at hread
    exact Option.some.inj hread
  obtain ⟨decoded, hdecode, rfl⟩ := codec.decode_encode obj
  obtain ⟨hcid, hhash⟩ := h.intact cid decoded hobj
  unfold getRead
  rw [hbytes, hdecode]
  dsimp only
  rw [if_neg]
  rintro (hne | hbad)
  · exact hne hcid
  · rw [verifyIntegrity_iff.mpr hhash] at hbad
    cases hbad

theorem Kept.getRaw_eq_ok : s.getRaw sha256 codec cid = .ok obj ↔ cas.lookup cid = some obj := by
  have hread : ∀ {obj : AIObject}, cas.lookup cid = some obj → s.getRaw sha256 codec cid = .ok obj := by
    intro obj hobj
    have hmem : cid ∈ cas := lookup_isSome.mp (by rw [hobj]; rfl)
    obtain ⟨hdigest, -⟩ := h.stored cid hmem
    obtain ⟨file, hopen, hfile⟩ := h.getOpen hdigest.2 hmem
    unfold getRaw
    rw [h.getTest hdigest, if_pos hmem]
    rw [hopen]
    exact h.getRead hfile hobj
  constructor
  · intro hok
    cases hlookup : cas.lookup cid with
    | some stored => exact congrArg some (Except.ok.inj ((hread hlookup).symm.trans hok))
    | none =>
      -- a CID without an object is refused by the test, or by the open when it names a directory
      exfalso
      unfold getRaw at hok
      cases htest : s.getTest cid with
      | some e => simp [htest] at hok
      | none =>
        rw [htest] at hok
        obtain ⟨file, hopen, -⟩ := of_seq hok
        unfold CasSystem.getOpen at hopen
        split at hopen
        · cases hopen
        · have hthere : s.disk.exists_ (.object cid) = true := by
            unfold exists_
            rw [required_eq_ok.mp hopen]
            rfl
          exact lookup_eq_none.mp hlookup (h.exists_object.mp hthere)
  · exact hread

theorem Kept.moveGet {call : GetCall} {phase : GetPhase} (hkept : GetKept cas s { call with phase }) :
    Kept sha256 codec cas (s.setGet i call phase) :=
  { h with
    gets := forall_mem_set h.gets hkept
    lists c hc := (h.lists c hc).mono fun _ h => h }

theorem Kept.getStep {call : GetCall} (hi : s.gets[i]? = some call) :
    Kept sha256 codec cas (s.getStep sha256 codec i call) := by
  have hkept := h.gets call (mem_of_getElem? hi)
  obtain ⟨cid, phase, due⟩ := call
  unfold CasSystem.getStep
  cases phase with
  | testing =>
    cases htest : s.getTest cid with
    | some e =>
      refine h.moveGet fun hdigest => .inl ?_
      rw [h.getTest hdigest] at htest
      split at htest
      · cases htest
      · next hnot =>
        refine ⟨congrArg Except.error (Option.some.inj htest).symm, ?_⟩
        cases due with
        | false => rfl
        | true => exact absurd (hkept rfl) hnot
    | none =>
      refine h.moveGet fun hname => (h.pathExists hname).mp ?_
      unfold CasSystem.getTest at htest
      split at htest
      · cases htest
      · split at htest
        · assumption
        · cases htest
  | opening =>
    cases hopen : s.getOpen cid with
    | error e =>
      refine h.moveGet fun hdigest => ?_
      obtain ⟨file, hok, -⟩ := h.getOpen hdigest.2 (hkept hdigest.2)
      cases hopen.symm.trans hok
    | ok file =>
      have hname : fileName cid ≠ [] := by
        intro hname
        simp [CasSystem.getOpen, hname] at hopen
      obtain ⟨file', hok, hfile⟩ := h.getOpen hname (hkept hname)
      cases hopen.symm.trans hok
      exact h.moveGet ⟨hkept hname, hfile⟩
  | reading file =>
    obtain ⟨obj, hobj⟩ := Option.isSome_iff_exists.mp (lookup_isSome.mpr hkept.1)
    dsimp only at hobj ⊢
    rw [h.getRead hkept.2 hobj]
    exact h.moveGet fun _ => .inr ⟨obj, rfl, hobj⟩
  | returned result => exact h

end

/-! ## Listing -/

theorem mem_cids : cid ∈ s.cids ↔ s.disk.exists_ (.object cid) = true := by
  unfold cids
  rw [mem_filterMap, ← mem_names]
  constructor
  · rintro ⟨name, hname, h⟩
    cases name with
    | object other =>
      cases h
      exact hname
    | temp other => cases h
  · exact fun hname => ⟨.object cid, hname, rfl⟩

theorem nodup_cids : s.cids.Nodup := by
  refine List.Nodup.filterMap ?_ s.disk.nodup_names
  intro a b cid ha hb
  cases a <;> cases b <;> simp_all

theorem mem_cidsIn : cid ∈ s.cidsIn dir ↔ s.disk.exists_ (.object cid) = true ∧ shardDir cid = dir := by
  rw [cidsIn, mem_filter, mem_cids, decide_eq_true_eq]

theorem Kept.moveList {lists : List ListCall} (h : Kept sha256 codec cas s)
    (hlists : ∀ call ∈ lists, ListKept cas s call) : Kept sha256 codec cas { s with lists } :=
  { h with
    lists c hc := (hlists c hc).mono fun _ h => h }

theorem Kept.listStep {call : ListCall} (h : Kept sha256 codec cas s) (hi : s.lists[i]? = some call) :
    Kept sha256 codec cas (s.listStep i call) := by
  have hkept := h.lists call (mem_of_getElem? hi)
  have hmove : ∀ new, ListKept cas s new → Kept sha256 codec cas { s with lists := s.lists.set i new } := by
    exact fun new hnew => h.moveList (forall_mem_set h.lists hnew)
  unfold CasSystem.listStep
  split
  · next hunread =>
    have hfound := hkept.unread hunread
    refine hmove _ ⟨hkept.nodup, hkept.found, hkept.initial, (fun hnone => by cases hnone), ?_⟩
    intro dirs hdirs
    cases hdirs
    refine ⟨h.nodup.filter _, fun cid hcid => ?_, fun cid hcid => .inr ?_⟩
    · have hmem : cid ∈ call.found := hcid
      rw [hfound] at hmem
      exact absurd hmem not_mem_nil
    · obtain ⟨hdigest, hdir⟩ := h.stored cid (hkept.initial cid hcid)
      exact mem_filter.mpr ⟨hdir, hdigest.isShardName⟩
  · next dir remaining hremaining =>
    obtain ⟨hnodup, hread, hinitial⟩ := hkept.remaining _ hremaining
    obtain ⟨hdir, hnodup⟩ := nodup_cons.mp hnodup
    refine hmove _ ⟨?_, ?_, hkept.initial, (fun hnone => by cases hnone), ?_⟩
    · refine List.Nodup.append hkept.nodup (nodup_cids.filter _) fun cid hold hnew => ?_
      exact hread cid hold (by rw [(mem_cidsIn.mp hnew).2]; exact mem_cons_self)
    · intro cid hcid
      rcases mem_append.mp hcid with hcid | hcid
      · exact hkept.found cid hcid
      · exact h.exists_object.mp (mem_cidsIn.mp hcid).1
    · intro dirs hdirs
      cases hdirs
      refine ⟨hnodup, fun cid hcid => ?_, fun cid hcid => ?_⟩
      · rcases mem_append.mp hcid with hcid | hcid
        · exact fun hmem => hread cid hcid (mem_cons_of_mem dir hmem)
        · rw [(mem_cidsIn.mp hcid).2]
          exact hdir
      · rcases hinitial cid hcid with hold | hmem
        · exact .inl (mem_append_left _ hold)
        · rcases mem_cons.mp hmem with hthis | hlater
          · refine .inl (mem_append_right _ (mem_cidsIn.mpr ⟨?_, hthis⟩))
            exact h.exists_object.mpr (hkept.initial cid hcid)
          · exact .inr hlater
  · exact h

/-! ## Runs -/

theorem Kept.fresh (sha256 : Bytes → String) (codec : Codec AIObject β Eq) :
    Kept sha256 codec ∅ (fresh : CasSystem β) := by
  refine ⟨fun cid => by simp [CasSystem.fresh], intact_empty, fun cid h => absurd h (notMem_empty cid), nodup_nil,
    fun _ => .nil, ?_, ?_, ?_, ?_⟩ <;> exact fun _ hmem => absurd hmem not_mem_nil

section

variable [Inhabited β]

theorem Kept.step (hdigest : ∀ data, IsDigest (sha256 data)) (h : Kept sha256 codec cas s) (action : CasStep)
    (halone : Alone s action) :
    ∃ cas', Stores sha256 cas cas' ∧ Kept sha256 codec cas' (s.step sha256 codec action) := by
  cases action with
  | putStep i piece =>
    simp only [CasSystem.step]
    cases hi : s.puts[i]? with
    | some call => exact h.putStep hdigest hi piece halone
    | none => exact ⟨cas, .refl cas, h⟩
  | put obj =>
    refine ⟨cas, .refl cas, { h with
      sole cid := (h.sole cid).append rfl
      puts := forall_mem_append.mpr ⟨h.puts, forall_mem_singleton.mpr trivial⟩
      lists c hc := (h.lists c hc).mono fun _ h => h }⟩
  | get cid =>
    refine ⟨cas, .refl cas, { h with
      gets := forall_mem_append.mpr
        ⟨h.gets, forall_mem_singleton.mpr fun hdue => h.acknowledged cid (by simpa using hdue)⟩
      lists c hc := (h.lists c hc).mono fun _ h => h }⟩
  | list =>
    refine ⟨cas, .refl cas, h.moveList (forall_mem_append.mpr ⟨h.lists, forall_mem_singleton.mpr ?_⟩)⟩
    exact ⟨nodup_nil, fun _ h => absurd h not_mem_nil,
      fun cid hcid => h.exists_object.mp (mem_cids.mp hcid), fun _ => rfl, fun _ hnone => by cases hnone⟩
  | getStep i =>
    simp only [CasSystem.step]
    cases hi : s.gets[i]? with
    | some call => exact ⟨cas, .refl cas, h.getStep hi⟩
    | none => exact ⟨cas, .refl cas, h⟩
  | listStep i =>
    simp only [CasSystem.step]
    cases hi : s.lists[i]? with
    | some call => exact ⟨cas, .refl cas, h.listStep hi⟩
    | none => exact ⟨cas, .refl cas, h⟩
  | crash =>
    refine ⟨cas, .refl cas, ⟨h.files, h.intact, h.stored, h.nodup, fun _ => .nil, ?_, ?_, ?_, h.acknowledged⟩⟩ <;>
      exact fun _ hmem => absurd hmem not_mem_nil

/-- The files of every run are those of a storage that puts objects one at a time. -/
theorem run_refines (hdigest : ∀ data, IsDigest (sha256 data)) {steps : List CasStep}
    (halone : Throughout (step sha256 codec) Alone fresh steps) :
    ∃ cas, Stores sha256 ∅ cas ∧ Kept sha256 codec cas (run sha256 codec fresh steps) := by
  have hstep : ∀ (s : CasSystem β) (action : CasStep), (∃ cas, Stores sha256 ∅ cas ∧ Kept sha256 codec cas s) →
      Alone s action → ∃ cas, Stores sha256 ∅ cas ∧ Kept sha256 codec cas (s.step sha256 codec action) := by
    rintro s action ⟨cas, hstores, hkept⟩ hs
    obtain ⟨cas', hnext, hkept'⟩ := hkept.step hdigest action hs
    exact ⟨cas', hstores.trans hnext, hkept'⟩
  exact halone.invariant hstep ⟨∅, .refl ∅, Kept.fresh sha256 codec⟩

/-! ## Progress -/

/-- A bound for the steps of its own that a put needs to return. -/
def stepsLeft (codec : Codec AIObject β Eq) (call : PutCall) : Nat :=
  match call.phase with
  | .testing => (codec.encode call.obj).length + 5
  | .making => (codec.encode call.obj).length + 4
  | .opening => (codec.encode call.obj).length + 3
  | .writing _ pos => (codec.encode call.obj).length - pos + 2
  | .moving => 1
  | .returned _ => 0

theorem puts_putStep (hi : s.puts[i]? = some call) (piece : Nat) :
    ∃ phase, (s.putStep sha256 codec i piece call).puts = s.puts.set i { call with phase } ∧
      stepsLeft codec { call with phase } ≤ stepsLeft codec call - 1 := by
  obtain ⟨obj, phase⟩ := call
  cases phase with
  | returned result =>
    obtain ⟨hlt, hget⟩ := List.getElem?_eq_some_iff.mp hi
    exact ⟨.returned result, (hget ▸ set_getElem_self hlt).symm, Nat.zero_le _⟩
  | writing file pos =>
    unfold putStep
    dsimp only
    split
    · exact ⟨.moving, rfl, by simp [stepsLeft]⟩
    · refine ⟨_, rfl, ?_⟩
      simp only [stepsLeft, length_take, length_drop]
      omega
  | testing | making | opening | moving =>
    unfold putStep
    dsimp only
    repeat' split
    all_goals exact ⟨_, rfl, by simp [stepsLeft]⟩

/-- The put `i` takes the step. -/
def isOwn (i : Nat) : CasStep → Bool
  | .putStep j _ => i = j
  | _ => false

theorem puts_step {action : CasStep} (hother : isOwn i action = false) (hcrash : action ≠ .crash)
    (hi : s.puts[i]? = some call) : (s.step sha256 codec action).puts[i]? = some call := by
  cases action with
  | put obj => exact (getElem?_append_left (List.getElem?_eq_some_iff.mp hi).1).trans hi
  | get | list => exact hi
  | getStep | listStep =>
    simp only [CasSystem.step, CasSystem.getStep, CasSystem.listStep]
    repeat' split
    all_goals exact hi
  | putStep j piece =>
    simp only [CasSystem.step]
    split
    · next hj =>
      obtain ⟨phase, hputs, -⟩ := puts_putStep hj piece
      rw [hputs, getElem?_set_ne fun hji => by simp [isOwn, hji] at hother, hi]
    · exact hi
  | crash => exact absurd rfl hcrash

/-- A put that is given enough steps, in between those of any other calls, returns. -/
theorem put_returns {steps : List CasStep} (hi : s.puts[i]? = some call) (hcrash : .crash ∉ steps)
    (henough : stepsLeft codec call ≤ steps.countP (isOwn i)) :
    ∃ call' result, (run sha256 codec s steps).puts[i]? = some call' ∧ call'.phase = .returned result := by
  induction steps generalizing s call with
  | nil =>
    obtain ⟨obj, phase⟩ := call
    cases phase <;> simp [stepsLeft] at henough
    exact ⟨_, _, hi, rfl⟩
  | cons action steps ih =>
    obtain ⟨hfirst, hrest⟩ := not_or.mp (mem_cons.not.mp hcrash)
    rw [countP_cons] at henough
    by_cases hown : isOwn i action
    · obtain ⟨piece, rfl⟩ : ∃ piece, action = .putStep i piece := by cases action <;> simp_all [isOwn]
      obtain ⟨phase, hputs, hless⟩ := puts_putStep hi piece
      have hcall : (s.step sha256 codec (.putStep i piece)).puts[i]? = some { call with phase } := by
        simp only [CasSystem.step, hi]
        rw [hputs, getElem?_set_self (List.getElem?_eq_some_iff.mp hi).1]
      rw [if_pos hown] at henough
      exact ih hcall hrest (by omega)
    · exact ih (puts_step (Bool.eq_false_iff.mpr hown) (Ne.symm hfirst) hi) hrest (by simpa [hown] using henough)

/-- In every run in which puts of one CID do not overlap: a read finds nothing or an object with the right hash, and
finds one when a put had returned before; a put of a valid object does not fail; an object that was put is there for
good; and a listing has the objects that were there when it began and none that cannot be read, each once. -/
theorem store_atomic (hdigest : ∀ data, IsDigest (sha256 data)) (steps : List CasStep)
    (halone : Throughout (step sha256 codec) Alone fresh steps) : let s := run sha256 codec fresh steps
    (∀ call ∈ s.gets, ∀ result, call.phase = .returned result → IsDigest call.cid →
      (result = .error (.cas (.notFound call.cid)) ∧ call.due = false) ∨
        ∃ obj, result = .ok obj ∧ sha256 obj.data = call.cid) ∧
    (∀ call ∈ s.puts, ∀ result, call.phase = .returned result → call.obj.verifyIntegrity sha256 = true →
      result = .ok call.obj.cid) ∧
    (∀ cid ∈ s.acknowledged, ∃ obj, s.getRaw sha256 codec cid = .ok obj ∧ sha256 obj.data = cid) ∧
    (s.cids.Nodup ∧ ∀ cid, cid ∈ s.cids ↔ ∃ obj, s.getRaw sha256 codec cid = .ok obj) ∧
    ∀ call ∈ s.lists, call.remaining = some [] → call.found.Nodup ∧ (∀ cid ∈ call.initial, cid ∈ call.found) ∧
      ∀ cid ∈ call.found, ∃ obj, s.getRaw sha256 codec cid = .ok obj := by
  intro s
  obtain ⟨cas, -, hkept⟩ := run_refines hdigest halone
  have hread : ∀ cid ∈ cas, ∃ obj, s.getRaw sha256 codec cid = .ok obj ∧ sha256 obj.data = cid := by
    intro cid hcid
    obtain ⟨obj, hobj⟩ := Option.isSome_iff_exists.mp (lookup_isSome.mpr hcid)
    obtain ⟨hid, hhash⟩ := hkept.intact cid obj hobj
    exact ⟨obj, hkept.getRaw_eq_ok.mpr hobj, hhash.symm.trans hid⟩
  refine ⟨fun call hcall result hresult hcid => ?_, fun call hcall result hresult hvalid => ?_,
    fun cid hcid => hread cid (hkept.acknowledged cid hcid), ⟨nodup_cids, fun cid => ?_⟩, fun call hcall hdone => ?_⟩
  · have hget := hkept.gets call hcall
    simp only [GetKept, hresult] at hget
    refine (hget hcid).imp_right fun ⟨obj, hok, hobj⟩ => ⟨obj, hok, ?_⟩
    obtain ⟨hid, hhash⟩ := hkept.intact call.cid obj hobj
    exact hhash.symm.trans hid
  · have hput := hkept.puts call hcall
    simp only [PutKept, hresult] at hput
    exact hput (verifyIntegrity_iff.mp hvalid)
  · rw [mem_cids, hkept.exists_object]
    constructor
    · exact fun hmem => (hread cid hmem).imp fun _ h => h.1
    · rintro ⟨obj, hok⟩
      exact lookup_isSome.mp (by rw [hkept.getRaw_eq_ok.mp hok]; rfl)
  · have hlist := hkept.lists call hcall
    obtain ⟨-, -, hinitial⟩ := hlist.remaining [] hdone
    refine ⟨hlist.nodup, fun cid hcid => ?_, fun cid hcid => ?_⟩
    · exact (hinitial cid hcid).resolve_right not_mem_nil
    · exact (hread cid (hlist.found cid hcid)).imp fun _ h => h.1

end

/-! ### Three runs -/

/-- A text of two pieces. -/
def sampleCodec : Codec AIObject (Option AIObject) Eq where
  encode obj := [some obj, none]
  decode
    | [some obj, none] => some obj
    | _ => none
  decode_encode obj := ⟨obj, rfl, rfl⟩

/-- The digests of the bytes 1 and 2. -/
def sampleHash (data : Bytes) : String :=
  if data = [1] then "4bf5122f344554c53bde2ebb8cd2b7e3d1600ad631c385a5d7cce23c7785459a"
  else "dbc1b4c900ffe48d575b5da5c638040125f65db0fe3e24494b76ea986457d986"

def sampleObject (data : Bytes) : AIObject :=
  .new sampleHash data ⟨.text, [], "kernel", 0, none, "default", .shared⟩

/-- All steps of a put after its test, with one `write` for each byte. -/
def written (i : Nat) : List CasStep := List.replicate 6 (.putStep i 0)

/-- Two objects put at the same time, one of them read and listed, and a crash. -/
def separatePuts : List CasStep :=
  [.put (sampleObject [1]), .put (sampleObject [2]), .putStep 0 0, .putStep 1 0, .get (sampleHash [1]), .getStep 0,
    .list] ++ written 0 ++ [.listStep 0, .putStep 1 0, .putStep 1 0, .listStep 0, .putStep 1 0, .crash,
      .put (sampleObject [2]), .putStep 0 0] ++ written 0 ++ [.get (sampleHash [1]), .getStep 0, .getStep 0, .getStep 0]

theorem sampleHash_isDigest (data : Bytes) : IsDigest (sampleHash data) := by
  unfold sampleHash
  split <;> decide

theorem separatePuts_atomic :
    let s := run sampleHash sampleCodec fresh separatePuts
    (∀ call ∈ s.gets, ∀ result, call.phase = .returned result → IsDigest call.cid →
      (result = .error (.cas (.notFound call.cid)) ∧ call.due = false) ∨
        ∃ obj, result = .ok obj ∧ sampleHash obj.data = call.cid) ∧
    (∀ call ∈ s.puts, ∀ result, call.phase = .returned result → call.obj.verifyIntegrity sampleHash = true →
      result = .ok call.obj.cid) ∧
    (∀ cid ∈ s.acknowledged, ∃ obj, s.getRaw sampleHash sampleCodec cid = .ok obj ∧ sampleHash obj.data = cid) ∧
    (s.cids.Nodup ∧ ∀ cid, cid ∈ s.cids ↔ ∃ obj, s.getRaw sampleHash sampleCodec cid = .ok obj) ∧
    ∀ call ∈ s.lists, call.remaining = some [] → call.found.Nodup ∧ (∀ cid ∈ call.initial, cid ∈ call.found) ∧
      ∀ cid ∈ call.found, ∃ obj, s.getRaw sampleHash sampleCodec cid = .ok obj :=
  store_atomic sampleHash_isDigest separatePuts (by decide +kernel)

/-- Two puts of one object are past their tests; the second truncates the temporary file that the first then renames. -/
def overlappingPuts : List CasStep :=
  [.put (sampleObject [1]), .put (sampleObject [1]), .putStep 0 0, .putStep 1 0, .putStep 0 0, .putStep 0 0,
    .putStep 0 0, .putStep 0 0, .putStep 0 0, .putStep 1 0, .putStep 1 0, .putStep 0 0]

/-- What the second one finds when it goes on. -/
def renamedAway : List CasStep := overlappingPuts ++ List.replicate 4 (.putStep 1 0)

/-- A crash at this point, and another put of the object. -/
def damagedObject : List CasStep := overlappingPuts ++ [.crash, .put (sampleObject [1]), .putStep 0 0]

theorem overlapping_puts_fail :
    let failed := run sampleHash sampleCodec fresh renamedAway
    let damaged := run sampleHash sampleCodec fresh damagedObject
    failed.puts[1]? = some ⟨sampleObject [1], .returned (.error .io)⟩ ∧
      sampleHash [1] ∈ damaged.acknowledged ∧
      damaged.getRaw sampleHash sampleCodec (sampleHash [1]) = .error .serialization ∧
      sampleHash [1] ∈ damaged.cids := by
  decide +kernel

end CasSystem

end Plico.Cas
