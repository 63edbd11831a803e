import Plico.Framework.Run
import Plico.Model.Kernel.Persistence
import Plico.Proof.Kernel.Permission

/-!
# The file of the permission grants follows the grants in memory

When no two saves overlap, the file is behind the grants only while some call has still to take its snapshot or to put
it in place (`Kept`, kept by every step). With overlapping saves an older snapshot can be put in place last: a grant
that was revoked is in the file again.
-/

namespace Plico.Kernel

open Disk List

variable {agentId : String}

theorem PermissionGuard.listGrants_restore {guard : PermissionGuard} {table : GrantTable} :
    (guard.restore table).listGrants agentId = guard.listGrants agentId ++ (table.lookup agentId).getD [] := by
  have hfold : ∀ (entries : List (Sigma fun _ => List PermissionGrant)) (grants : GrantTable),
      entries.NodupKeys →
      ((entries.foldl (fun grants entry => addGrants grants entry.1 entry.2) grants).lookup agentId).getD [] =
        (grants.lookup agentId).getD [] ++ (entries.dlookup agentId).getD [] := by
    intro entries
    induction entries with
    | nil => simp
    | cons entry entries ih =>
      intro grants hn
      obtain ⟨agent, given⟩ := entry
      obtain ⟨hnot, hn⟩ := nodupKeys_cons.mp hn
      rw [foldl_cons, ih _ hn, listGrants_addGrants]
      by_cases h : agentId = agent
      · subst h
        simp [dlookup_eq_none.mpr hnot]
      · simp [h]
  exact hfold table.entries guard.grants table.nodupKeys

namespace PermissionSystem

variable {β : Type} {codec : Codec GrantTable β SameTable} {s : PermissionSystem β}

/-! ## What a restart would restore -/

variable {disk : Disk JsonFile β}

theorem listGrants_restorePermissions {grants : GrantTable} (h : disk.read .index = some (codec.encode grants)) :
    (restorePermissions codec disk .new).listGrants agentId = (grants.lookup agentId).getD [] := by
  obtain ⟨table, hdecode, hsame⟩ := codec.decode_encode grants
  have hread : (disk.read .index).bind codec.decode = some table := by rw [h]; exact hdecode
  unfold restorePermissions
  rw [hread, ← hsame agentId]
  exact PermissionGuard.listGrants_restore

theorem listGrants_restorePermissions_of_missing (h : disk.read .index = none) :
    (restorePermissions codec disk .new).listGrants agentId = [] := by
  unfold restorePermissions
  rw [h]
  rfl

/-- A restart would restore the grants in memory. -/
def InPlace (codec : Codec GrantTable β SameTable) (s : PermissionSystem β) : Prop :=
  ∀ agentId, (restorePermissions codec s.disk .new).listGrants agentId = s.guard.listGrants agentId

/-! ## Saves that do not overlap -/

/-- A snapshot is only taken when no other one is on its way into the file. -/
def Alone (s : PermissionSystem β) : PermissionStep → Prop
  | .step i =>
    match s.calls[i]? with
    | some .changed => ∀ call ∈ s.calls, call.saving = false
    | _ => True
  | _ => True

instance (s : PermissionSystem β) (step : PermissionStep) : Decidable (Alone s step) := by
  unfold Alone
  split
  · split <;> infer_instance
  · infer_instance

structure Kept (codec : Codec GrantTable β SameTable) (s : PermissionSystem β) : Prop where
  single : Sole PermissionCall.saving s.calls
  temp : ∀ (i : Nat) (grants : GrantTable), s.calls[i]? = some (.written grants) →
    s.disk.read .temp = some (codec.encode grants)
  /-- Some call has still to take its snapshot, or the newest snapshot is on its way, or in place. -/
  current : .changed ∈ s.calls ∨
    (∃ (i : Nat) (c : PermissionCall), s.calls[i]? = some c ∧
      (c = .taken s.guard.grants ∨ c = .written s.guard.grants)) ∨
    (∀ c ∈ s.calls, c.saving = false) ∧ InPlace codec s

theorem Kept.opened (codec : Codec GrantTable β SameTable) (disk : Disk JsonFile β) :
    Kept codec (opened codec disk) where
  single := .nil
  temp i grants hi := by simp [PermissionSystem.opened] at hi
  current := by
    refine .inr (.inr ⟨?_, fun agentId => rfl⟩)
    intro c hc
    exact absurd hc not_mem_nil

variable {call : PermissionCall} {i : Nat}

/-- A call that begins. -/
theorem Kept.begin (h : Kept codec s) (hcall : call.saving = false) :
    Kept codec { s with calls := s.calls ++ [call] } := by
  refine ⟨h.single.append hcall, fun i grants hi => ?_, ?_⟩
  · rw [getElem?_append] at hi
    split at hi
    · exact h.temp i grants hi
    · obtain hcall' := mem_singleton.mp (List.mem_of_getElem? hi)
      rw [← hcall'] at hcall
      cases hcall
  · obtain hpending | ⟨i, c, hi, hc⟩ | ⟨hnone, hplace⟩ := h.current
    · exact .inl (mem_append_left _ hpending)
    · refine .inr (.inl ⟨i, c, ?_, hc⟩)
      rw [List.getElem?_append_left (List.getElem?_eq_some_iff.mp hi).1]
      exact hi
    · refine .inr (.inr ⟨?_, hplace⟩)
      intro c hc
      rcases mem_append.mp hc with hc | hc
      · exact hnone c hc
      · rw [mem_singleton.mp hc, hcall]

/-- A call after its change: its snapshot is still to be taken. -/
theorem Kept.change {change : PermissionChange} (h : Kept codec s) (hi : s.calls[i]? = some (.changing change)) :
    Kept codec { s with guard := change.apply s.guard, calls := s.calls.set i .changed } := by
  refine ⟨h.single.leave hi rfl, ?_,
    .inl (List.mem_of_getElem? (List.getElem?_set_self (List.getElem?_eq_some_iff.mp hi).1))⟩
  intro j grants hj
  obtain ⟨-, hcall⟩ | ⟨-, hj⟩ := getElem?_set_eq_some hi hj
  · cases hcall
  · exact h.temp j grants hj

/-- The snapshot is taken while no other is on its way. -/
theorem Kept.take (hi : s.calls[i]? = some .changed) (halone : ∀ call ∈ s.calls, call.saving = false) :
    Kept codec { s with calls := s.calls.set i (.taken s.guard.grants) } := by
  refine ⟨.set hi fun j c _ hj => halone c (List.mem_of_getElem? hj), ?_,
    .inr (.inl ⟨i, .taken s.guard.grants, List.getElem?_set_self (List.getElem?_eq_some_iff.mp hi).1, .inl rfl⟩)⟩
  intro j grants hj
  obtain ⟨-, hcall⟩ | ⟨-, hj⟩ := getElem?_set_eq_some hi hj
  · cases hcall
  · cases halone _ (List.mem_of_getElem? hj)

/-- The only save moves on to `call`, over a changed disk. -/
theorem Kept.advance {c : PermissionCall} (h : Kept codec s) (hi : s.calls[i]? = some c) (hc : c.saving)
    (htemp : ∀ grants, call = .written grants → disk.read .temp = some (codec.encode grants))
    (hcurrent : c = .taken s.guard.grants ∨ c = .written s.guard.grants → call = .written s.guard.grants ∨
      call = .returned ∧
        ∀ agentId, (restorePermissions codec disk .new).listGrants agentId = s.guard.listGrants agentId) :
    Kept codec { s with disk, calls := s.calls.set i call } := by
  have hself : (s.calls.set i call)[i]? = some call := List.getElem?_set_self (List.getElem?_eq_some_iff.mp hi).1
  refine ⟨h.single.move hi hc, ?_, ?_⟩
  · intro j grants hj
    rcases h.single.mem_set hi hc (List.mem_of_getElem? hj) with hnew | ⟨-, hnot⟩
    · exact htemp grants hnew.symm
    · cases hnot
  · obtain hpending | ⟨j, c', hj, hc'⟩ | ⟨hnone, -⟩ := h.current
    · refine .inl ?_
      obtain ⟨j, hj⟩ := mem_iff_getElem?.mp hpending
      have hij : i ≠ j := by
        rintro rfl
        cases hi.symm.trans hj
        cases hc
      exact List.mem_of_getElem? ((getElem?_set_ne hij).trans hj)
    · have hsaving : c'.saving := by rcases hc' with rfl | rfl <;> rfl
      obtain rfl : i = j := h.single i j c c' hi hj hc hsaving
      cases hi.symm.trans hj
      rcases hcurrent hc' with hwritten | ⟨hreturned, hplace⟩
      · exact .inr (.inl ⟨i, call, hself, .inr hwritten⟩)
      · refine .inr (.inr ⟨?_, hplace⟩)
        intro c' hmem
        rcases h.single.mem_set hi hc hmem with rfl | ⟨-, hnot⟩
        · rw [hreturned]
          rfl
        · exact hnot
    · rw [hnone c (List.mem_of_getElem? hi)] at hc
      cases hc

theorem Kept.callStep (h : Kept codec s) (hi : s.calls[i]? = some call) (halone : Alone s (.step i)) :
    Kept codec (s.callStep codec i call) := by
  unfold PermissionSystem.callStep
  cases call with
  | changing change => exact h.change hi
  | changed =>
    simp only [Alone, hi] at halone
    exact Kept.take hi halone
  | taken grants =>
    dsimp only
    split
    · next hempty =>
      refine h.advance hi rfl (fun _ hcall => by cases hcall) (fun hcall => .inr ⟨rfl, fun agentId => ?_⟩)
      obtain rfl : grants = s.guard.grants := by simpa using hcall
      rw [listGrants_restorePermissions_of_missing read_remove_getD]
      have hnil : s.guard.grants.entries = [] := by simpa using hempty
      simp [PermissionGuard.listGrants, AList.lookup, hnil]
    · refine h.advance hi rfl ?_ fun hcall => .inl ?_
      · intro written hcall
        obtain rfl : grants = written := by simpa using hcall
        simp [read_writeFile]
      · obtain rfl : grants = s.guard.grants := by simpa using hcall
        rfl
  | written grants =>
    refine h.advance hi rfl (fun _ hcall => by cases hcall) (fun hcall => .inr ⟨rfl, fun agentId => ?_⟩)
    obtain rfl : grants = s.guard.grants := by simpa using hcall
    have htemp := h.temp i _ hi
    obtain ⟨disk, hrename⟩ := exists_rename (exists_iff.mpr ⟨_, htemp⟩) JsonFile.index
    have hindex : (moveIntoPlace s.disk).read .index = some (codec.encode s.guard.grants) := by
      simp [moveIntoPlace, hrename, read_rename hrename, htemp]
    exact listGrants_restorePermissions hindex
  | returned => exact h

theorem Kept.step (h : Kept codec s) (step : PermissionStep) (halone : Alone s step) :
    Kept codec (s.step codec step) := by
  cases step with
  | call change => exact h.begin rfl
  | persist => exact h.begin rfl
  | step i =>
    simp only [PermissionSystem.step]
    cases hi : s.calls[i]? with
    | some call => exact h.callStep hi halone
    | none => exact h

/-! ## Runs -/

theorem permission_changes_durable (codec : Codec GrantTable β SameTable) (disk : Disk JsonFile β)
    (steps : List PermissionStep) (halone : Throughout (step codec) Alone (opened codec disk) steps)
    (hreturned : ∀ call ∈ (run codec (opened codec disk) steps).calls, call matches .returned) (agentId : String) :
    (restorePermissions codec (run codec (opened codec disk) steps).disk .new).listGrants agentId =
      (run codec (opened codec disk) steps).guard.listGrants agentId := by
  have hkept := halone.invariant (fun s step h hs => h.step step hs) (Kept.opened codec disk)
  obtain hpending | ⟨i, c, hi, hc⟩ | ⟨-, hplace⟩ := hkept.current
  · cases hreturned _ hpending
  · have hmem := hreturned c (List.mem_of_getElem? hi)
    rcases hc with rfl | rfl <;> cases hmem
  · exact hplace agentId

/-! ### Two runs -/

def sampleCodec : Codec GrantTable GrantTable SameTable := .plain fun _ _ => rfl

def planner : String := "planner"

def grantPlanner : PermissionStep := .call (.grant planner .delete none none)

def grantCoder : PermissionStep := .call (.grant "coder" .execute (some "tool:*") none)

def revokePlanner : PermissionStep := .call (.revokeAll planner)

/-- Three calls and a periodic save; two of the changes fall into the saves of other calls. -/
def separateSaves : List PermissionStep :=
  [grantPlanner, grantCoder, revokePlanner, .step 0, .step 0, .step 1, .step 0, .step 0, .persist, .step 3, .step 2,
    .step 3, .step 3, .step 1, .step 1, .step 1, .step 2, .step 2, .step 2]

theorem separateSaves_restored :
    (restorePermissions sampleCodec (run sampleCodec (opened sampleCodec .empty) separateSaves).disk .new).listGrants
      planner = (run sampleCodec (opened sampleCodec .empty) separateSaves).guard.listGrants planner :=
  permission_changes_durable sampleCodec .empty separateSaves (by decide +kernel) (by decide +kernel) planner

/-- The save of the second grant, with a snapshot from before the revocation, ends after that of the revocation. -/
def overlappingSaves : List PermissionStep :=
  [grantPlanner, .step 0, .step 0, .step 0, .step 0, grantCoder, .step 1, .step 1, revokePlanner, .step 2, .step 2,
    .step 2, .step 2, .step 1, .step 1]

theorem revoked_grant_restored :
    let s := run sampleCodec (opened sampleCodec .empty) overlappingSaves
    (∀ call ∈ s.calls, call matches .returned) ∧
      s.guard.listGrants planner = [] ∧
      (restorePermissions sampleCodec s.disk .new).listGrants planner = [.new .delete] := by
  decide +kernel

end PermissionSystem

end Plico.Kernel
