import Plico.Model.Cas.Storage

/-!
# What the object storage keeps

`Stores` is all that an operation may do to the storage: put objects. A stored object is then never replaced
(`Stores.lookup`), and each object is filed under the hash of its bytes (`Intact`), so that a read returns the
object that was put first.
-/

namespace Plico.Cas

variable {sha256 : Bytes → String} {cas cas' cas'' : CASStorage} {obj obj' : AIObject} {cid : String}

/-- Each object is filed under its CID, the hash of its bytes. -/
def Intact (sha256 : Bytes → String) (cas : CASStorage) : Prop :=
  ∀ cid obj, cas.lookup cid = some obj → obj.cid = cid ∧ obj.cid = sha256 obj.data

theorem intact_empty : Intact sha256 ∅ := by
  intro cid obj h
  simp at h

theorem verifyIntegrity_iff : obj.verifyIntegrity sha256 = true ↔ obj.cid = sha256 obj.data := by
  simp [AIObject.verifyIntegrity]

/-! ## Putting -/

/-- What a successful put did. -/
theorem put_eq_ok : cas.put sha256 obj = .ok (cas', cid) ↔
    obj.cid = sha256 obj.data ∧ validateCid obj.cid = .ok () ∧ cid = obj.cid ∧
      cas' = if (cas.lookup obj.cid).isSome then cas else cas.insert obj.cid obj := by
  unfold CASStorage.put
  constructor
  · intro h
    obtain ⟨_, hint, h⟩ := of_seq h
    obtain ⟨⟨⟩, hvalid, h⟩ := of_seq h
    have hcid : obj.cid = sha256 obj.data := by simpa [verifyIntegrity_iff] using hint
    refine ⟨hcid, hvalid, ?_⟩
    split at h
    · rename_i old hold
      cases h
      simp [hold]
    · rename_i hnone
      cases h
      simp [hnone]
  · rintro ⟨hcid, hvalid, rfl, rfl⟩
    rw [refuse_neg (by simp [verifyIntegrity_iff.mpr hcid]), hvalid]
    cases cas.lookup obj.cid <;> rfl

section

variable (h : cas.put sha256 obj = .ok (cas', cid))
include h

theorem put_lookup : cas'.lookup cid = some ((cas.lookup cid).getD obj) := by
  obtain ⟨-, -, rfl, rfl⟩ := put_eq_ok.mp h
  cases hl : cas.lookup obj.cid with
  | none => simp
  | some old => simp [hl]

theorem put_lookup_of_some {other : String} (hl : cas.lookup other = some obj') : cas'.lookup other = some obj' := by
  obtain ⟨-, -, rfl, rfl⟩ := put_eq_ok.mp h
  split
  · exact hl
  · rename_i hnone
    have hne : other ≠ obj.cid := by
      rintro rfl
      simp [hl] at hnone
    rw [AList.lookup_insert_ne hne, hl]

/-! ## Storing -/

/-- One storage results from another by puts. -/
inductive Stores (sha256 : Bytes → String) : CASStorage → CASStorage → Prop
  | refl (cas : CASStorage) : Stores sha256 cas cas
  | put {cas cas' cas'' : CASStorage} {obj : AIObject} {cid : String} (h : Stores sha256 cas cas')
      (hput : cas'.put sha256 obj = .ok (cas'', cid)) : Stores sha256 cas cas''

theorem stores_of_put : Stores sha256 cas cas' :=
  .put (.refl cas) h

end

theorem Stores.trans (h : Stores sha256 cas cas') (h' : Stores sha256 cas' cas'') : Stores sha256 cas cas'' := by
  induction h' with
  | refl => exact h
  | put _ hput ih => exact .put ih hput

/-- A stored object stays as it is. -/
theorem Stores.lookup (h : Stores sha256 cas cas') (hl : cas.lookup cid = some obj) : cas'.lookup cid = some obj := by
  induction h with
  | refl => exact hl
  | put _ hput ih => exact put_lookup_of_some hput ih

theorem Stores.mem (h : Stores sha256 cas cas') (hmem : cid ∈ cas) : cid ∈ cas' := by
  obtain ⟨obj, hobj⟩ := Option.isSome_iff_exists.mp (AList.lookup_isSome.mpr hmem)
  exact AList.lookup_isSome.mp (Option.isSome_of_eq_some (h.lookup hobj))

theorem Stores.intact (h : Stores sha256 cas cas') (hi : Intact sha256 cas) : Intact sha256 cas' := by
  induction h with
  | refl => exact hi
  | @put cas' cas'' obj cid _ hput ih =>
    obtain ⟨hcid, -, rfl, rfl⟩ := put_eq_ok.mp hput
    split
    · exact ih
    · intro other stored hstored
      by_cases hne : other = obj.cid
      · subst hne
        obtain rfl : obj = stored := by simpa using hstored
        exact ⟨rfl, hcid⟩
      · rw [AList.lookup_insert_ne hne] at hstored
        exact ih other stored hstored

/-! ## Reading -/

theorem lookup_of_getRaw (h : cas.getRaw sha256 cid = .ok obj) : cas.lookup cid = some obj := by
  obtain ⟨⟨⟩, -, stored, hl, _, -, h⟩ := of_seq₃ h
  cases h
  exact required_eq_ok.mp hl

theorem getRaw_eq_ok (hi : Intact sha256 cas) :
    cas.getRaw sha256 cid = .ok obj ↔ validateCid cid = .ok () ∧ cas.lookup cid = some obj := by
  unfold CASStorage.getRaw
  constructor
  · intro h
    obtain ⟨⟨⟩, hvalid, -⟩ := of_seq h
    exact ⟨hvalid, lookup_of_getRaw h⟩
  · rintro ⟨hvalid, hl⟩
    obtain ⟨hcid, hint⟩ := hi cid obj hl
    rw [hvalid, seq_ok, hl, required_some, seq_ok, refuse_neg]
    · rfl
    · rintro (hne | hbad)
      · exact hne hcid
      · rw [verifyIntegrity_iff.mpr hint] at hbad
        cases hbad

theorem get_eq_ok (hi : Intact sha256 cas) :
    cas.get sha256 cid = .ok obj ↔ validateCid cid = .ok () ∧ cas.lookup cid = some obj :=
  getRaw_eq_ok hi

end Plico.Cas
