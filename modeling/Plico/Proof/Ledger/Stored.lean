import Plico.Model.Ledger.Commit
import Plico.Proof.Ledger.Revisions

/-!
# Objects and segments in storage

`Stored P domain codec st hash value` says that `st` holds the canonical bytes of `value` under their
hash. A successful write establishes it, growth of the store keeps it, and the loader's readers
succeed on it. `SegmentsOf` is a log spread over linked segments; `loadSegmentChain_of_segments` shows
that the loader returns exactly that log.
-/

namespace Plico.Ledger

open List ObjectStore

variable {P : LedgerPlatform} {α : Type}

/-! ## Single objects -/

/-- The store holds the canonical bytes of `value`, which decode to it, under their hash. -/
structure Stored (P : LedgerPlatform) (domain : String) (codec : Serde α) (st : LedgerStorage) (hash : String)
    (value : α) : Prop where
  valid : isLowerHash hash = true
  bytes : ∃ bytes, st.lookup hash = some bytes ∧ codec.toVec value = some bytes ∧
    codec.fromSlice bytes = some value ∧ hash = domainHash P domain bytes

section

variable {domain : String} {codec : Serde α} {st st' : LedgerStorage} {hash : String} {value : α}
  {objects : List (String × Bytes)} {faults : Nat → PutFault} {bytes : Bytes} {fault : PutFault} {u : Unit}

theorem Stored.mono (h : Stored P domain codec st hash value) (he : st.Extends st') :
    Stored P domain codec st' hash value := by
  obtain ⟨bytes, hl, hb⟩ := h.bytes
  exact ⟨h.valid, bytes, he _ _ hl, hb⟩

/-- One key holds one value. -/
theorem Stored.unique {domain' : String} {value' : α} (h : Stored P domain codec st hash value)
    (h' : Stored P domain' codec st hash value') : value = value' := by
  obtain ⟨bytes, hl, -, hd, -⟩ := h.bytes
  obtain ⟨bytes', hl', -, hd', -⟩ := h'.bytes
  cases hl.symm.trans hl'
  exact Option.some.inj (hd.symm.trans hd')

theorem validateHash_of_valid (h : isLowerHash hash = true) : validateHash hash = .ok () := by
  simp [validateHash, h]

theorem readHashedObject_of_stored (h : Stored P domain codec st hash value) :
    readHashedObject codec st hash = .ok value := by
  obtain ⟨bytes, hl, hv, hd, -⟩ := h.bytes
  have hg : getImmutable st hash = .ok bytes := by
    simp [getImmutable, validateHash_of_valid h.valid, get_eq_ok.mpr hl, Except.mapError]
  simp [readHashedObject, hg, hd, jcs, hv, Except.mapError, refuse]

theorem verifyHash_of_stored (h : Stored P domain codec st hash value) {category : String} :
    verifyHash P domain codec value hash category = .ok () := by
  obtain ⟨bytes, -, hv, -, rfl⟩ := h.bytes
  simp [verifyHash, canonicalBytesAndHash, jcs, hv]

/-- Bytes written under the hash of their domain store what they encode. -/
theorem Stored.of_lookup (hv : codec.toVec value = some bytes) (hr : codec.RoundTrips value)
    (hvalid : isLowerHash (domainHash P domain bytes) = true)
    (hl : st.lookup (domainHash P domain bytes) = some bytes) :
    Stored P domain codec st (domainHash P domain bytes) value :=
  ⟨hvalid, bytes, hl, hv, hr bytes hv, rfl⟩

theorem lookup_of_put (hp : putImmutable st hash bytes fault = (st', .ok u)) :
    isLowerHash hash = true ∧ st'.lookup hash = some bytes := by
  unfold putImmutable at hp
  split at hp
  · cases hp
  · rename_i hvalid
    obtain ⟨rfl, hok⟩ := Prod.mk.inj hp
    refine ⟨by simpa [validateHash] using hvalid, put_ok (u := ()) ?_⟩
    cases hput : (put st hash bytes fault).2 with
    | ok v => rfl
    | error e => simp [hput, Except.mapError] at hok

/-- A write adds at most its object and leaves the pointer as it is. -/
theorem putImmutable_extends {result : Except IoError Unit}
    (h : putImmutable st hash bytes fault = (st', result)) : st.Extends st' ∧ st'.active = st.active := by
  unfold putImmutable at h
  split at h
  · cases h
    exact ⟨.refl _, rfl⟩
  · cases h
    exact ⟨put_extends, put_active ..⟩

theorem writeObjects_extends {result : Except LedgerError Unit} (h : writeObjects st objects faults = (st', result)) :
    st.Extends st' ∧ st'.active = st.active := by
  induction objects generalizing st faults with
  | nil =>
    cases h
    exact ⟨.refl _, rfl⟩
  | cons object rest ih =>
    unfold writeObjects at h
    split at h
    · next hput =>
      obtain ⟨hfirst, hactive⟩ := putImmutable_extends hput
      obtain ⟨hrest, hactive'⟩ := ih h
      exact ⟨hfirst.trans hrest, hactive'.trans hactive⟩
    · next hput =>
      cases h
      exact putImmutable_extends hput

/-- When all writes succeed, every object is in place. -/
theorem lookup_of_writeObjects (h : writeObjects st objects faults = (st', .ok u)) (hm : (hash, bytes) ∈ objects) :
    isLowerHash hash = true ∧ st'.lookup hash = some bytes := by
  induction objects generalizing st faults with
  | nil => simp at hm
  | cons object rest ih =>
    unfold writeObjects at h
    split at h
    · rename_i st₁ _ he
      rcases mem_cons.mp hm with rfl | hm
      · obtain ⟨hvalid, hl⟩ := lookup_of_put he
        exact ⟨hvalid, (writeObjects_extends h).1 _ _ hl⟩
      · exact ih h hm
    · cases h

end

/-! ## Segments -/

section Segments

variable {codec : Serde (Segment α)} {kind : LogKind} {st st' : LedgerStorage}

/-- The segment of `records` after `log`. -/
def segmentOf (kind : LogKind) (head : Option String) (log records : List α) : Segment α :=
  { schema := segmentSchema kind
    firstSequence := log.length + 1
    lastSequence := log.length + 1 + records.length - 1
    previousSegmentHash := head
    records := records }

/-- `log` is stored as linked segments, the newest one under `head`. -/
inductive SegmentsOf (P : LedgerPlatform) (codec : Serde (Segment α)) (kind : LogKind) (st : LedgerStorage) :
    Option String → List α → Prop where
  | nil : SegmentsOf P codec kind st none []
  | snoc {head : Option String} {log records : List α} {hash : String} :
      SegmentsOf P codec kind st head log → records ≠ [] →
      Stored P segmentDomain codec st hash (segmentOf kind head log records) →
      SegmentsOf P codec kind st (some hash) (log ++ records)

variable {head : Option String} {log : List α} {l : List (String × Segment α)} {hash : String}

theorem SegmentsOf.mono (h : SegmentsOf P codec kind st head log) (he : st.Extends st') :
    SegmentsOf P codec kind st' head log := by
  induction h with
  | nil => exact .nil
  | snoc _ hne hs ih => exact .snoc ih hne (hs.mono he)

theorem readSegment_of_stored {records : List α} (hne : records ≠ [])
    (h : Stored P segmentDomain codec st hash (segmentOf kind head log records)) :
    readSegment P codec kind st hash = .ok (segmentOf kind head log records) := by
  have hok : ¬ ((segmentOf kind head log records).schema ≠ segmentSchema kind ∨
      (segmentOf kind head log records).records.isEmpty) := by
    simp [segmentOf, hne]
  unfold readSegment verifySegmentHash
  rw [readHashedObject_of_stored h, seq_ok, verifyHash_of_stored h, refuse_neg hok]
  rfl

theorem mem_keys_of_readSegment {segment : Segment α}
    (h : readSegment P codec kind st hash = .ok segment) : hash ∈ st.keys := by
  obtain ⟨value, hread, -⟩ := of_seq h
  obtain ⟨bytes, hget, -⟩ := of_seq hread
  cases hg : getImmutable st hash with
  | error e => simp [hg, Except.mapError] at hget
  | ok b =>
    obtain ⟨_, -, hg⟩ := of_seq hg
    cases hl : st.lookup hash with
    | none => simp [ObjectStore.get, hl, Except.mapError] at hg
    | some b => exact mem_keys_of_lookup hl

/-- The chain of segments under a head, newest first, with what the loader's loops need of it. -/
structure SegmentWalk (P : LedgerPlatform) (codec : Serde (Segment α)) (kind : LogKind) (st : LedgerStorage)
    (head : Option String) (log : List α) (l : List (String × Segment α)) : Prop where
  linked : Linked (readSegment P codec kind st) (·.previousSegmentHash) head l
  below : ∀ x ∈ l, x.2.firstSequence ≤ log.length
  falling : l.Pairwise fun x y => y.2.firstSequence < x.2.firstSequence
  appended : (l.reverse.map Prod.snd).foldlM appendSegment (1, []) = .ok (log.length + 1, log)

theorem exists_walk (h : SegmentsOf P codec kind st head log) : ∃ l, SegmentWalk P codec kind st head log l := by
  induction h with
  | nil => exact ⟨[], .nil, by simp, by simp, rfl⟩
  | @snoc head log records hash _ hne hs ih =>
    obtain ⟨l, hl⟩ := ih
    have hpos : 0 < records.length := length_pos_of_ne_nil hne
    refine ⟨(hash, segmentOf kind head log records) :: l, .cons (readSegment_of_stored hne hs) hl.linked,
      fun x hx => ?_, ?_, ?_⟩
    · rcases mem_cons.mp hx with rfl | hx
      · simp only [segmentOf, length_append]
        omega
      · have := hl.below x hx
        simp only [length_append]
        omega
    · refine pairwise_cons.mpr ⟨fun x hx => ?_, hl.falling⟩
      have := hl.below x hx
      simp only [segmentOf]
      omega
    · rw [reverse_cons, map_append, foldlM_append, hl.appended]
      simp [appendSegment, segmentOf, refuse]

theorem SegmentWalk.nodup (h : SegmentWalk P codec kind st head log l) : (l.map Prod.fst).Nodup :=
  h.linked.nodup_keys h.falling

theorem SegmentWalk.length_le (h : SegmentWalk P codec kind st head log l) : l.length ≤ st.keys.length + 1 :=
  Nat.le_succ_of_le (h.linked.length_le h.nodup fun _ _ => mem_keys_of_readSegment)

section

variable (h : SegmentsOf P codec kind st head log)
include h

theorem head_isSome_of_ne_nil : head = none ↔ log = [] := by
  cases h with
  | nil => simp
  | snoc _ hne _ => simp [hne]

/-- The loader returns the log. -/
theorem loadSegmentChain_of_segments : loadSegmentChain P codec kind st head log.length = .ok log := by
  unfold loadSegmentChain
  split
  · rename_i hz
    obtain rfl : log = [] := length_eq_zero_iff.mp hz
    obtain rfl : head = none := (head_isSome_of_ne_nil h).mpr rfl
    rfl
  · obtain ⟨l, hl⟩ := exists_walk h
    rw [walk_of_linked hl.linked hl.nodup hl.length_le, seq_ok, hl.appended]
    simp [refuse]

/-- A head extends itself and the head its segment names. -/
theorem headExtends_of_segments {previous : Option String}
    (hp : previous = head ∨ ∃ hash segment, head = some hash ∧ readSegment P codec kind st hash = .ok segment ∧
      segment.previousSegmentHash = previous) : headExtends P codec kind st head previous = .ok true := by
  cases previous with
  | none => rfl
  | some target =>
    obtain ⟨l, hl⟩ := exists_walk h
    refine reaches_of_linked hl.linked hl.nodup hl.length_le ?_
    rcases hp with rfl | ⟨hash, segment, rfl, hread, hprev⟩
    · cases hl.linked with
      | cons _ _ => simp
    · cases hl.linked with
      | cons hread' hrest =>
        cases hread.symm.trans hread'
        rw [hprev] at hrest
        cases hrest with
        | cons _ _ => simp

end

end Segments

end Plico.Ledger
