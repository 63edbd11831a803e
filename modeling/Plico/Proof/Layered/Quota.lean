import Plico.Framework.Run
import Plico.Proof.Layered.Runtime

/-!
# The quota of an agent

A creating call counts all entries of the agent, also replaced ones and tombstones, and adds no more than its
quota leaves. It counts one tier after the other, so its number is right only as long as no other call adds
an entry of the agent: `WithinQuota` is what then holds of the calls in progress. Updates and deletions add
an entry each and do not count.
-/

namespace Plico.Layered

open List Ledger LayeredMemory QuotaCall QuotaSystem

variable {P : LedgerPlatform} {m m' : LayeredMemory} {a agentId : String} {q quota current n : Nat}
  {inputs : CommitInputs} {entry : MemoryEntry} {entries : List MemoryEntry} {tier : MemoryTier}

/-! ## What calls add -/

/-- At most `n` entries are added, all to one agent. -/
structure Adds (m m' : LayeredMemory) (agentId : String) (n : Nat) : Prop where
  frame : ∀ b ≠ agentId, ∀ tier, m'.getTier b tier = m.getTier b tier
  le : m.countForAgent agentId ≤ m'.countForAgent agentId
  le_add : m'.countForAgent agentId ≤ m.countForAgent agentId + n

theorem countForAgent_congr (h : ∀ tier, m'.getTier a tier = m.getTier a tier) :
    m'.countForAgent a = m.countForAgent a := by
  simp only [countForAgent, h]

theorem Adds.of_same {m₀ : LayeredMemory} (h : Adds m m' agentId n)
    (hsame : ∀ role tier, m.getTier role tier = m₀.getTier role tier) : Adds m₀ m' agentId n := by
  have hcount : m.countForAgent agentId = m₀.countForAgent agentId := countForAgent_congr (hsame agentId)
  exact ⟨fun b hb tier => (h.frame b hb tier).trans (hsame b tier), hcount ▸ h.le, hcount ▸ h.le_add⟩

theorem adds_of_same (h : ∀ role tier, m'.getTier role tier = m.getTier role tier) : Adds m m' agentId n := by
  have hcount : m'.countForAgent agentId = m.countForAgent agentId := countForAgent_congr (h agentId)
  exact ⟨fun b _ => h b, hcount.ge, by omega⟩

theorem adds_extend (hn : entries.length ≤ n) : Adds m (m.extend agentId tier entries) agentId n := by
  have hcount : (m.extend agentId tier entries).countForAgent agentId =
      m.countForAgent agentId + entries.length := by
    simp only [countForAgent, tiers, getTier_extend]
    cases tier <;> simp <;> omega
  refine ⟨fun b hb t => ?_, by omega, by omega⟩
  rw [getTier_extend, if_neg (fun h => hb h.1.symm), append_nil]

section

variable {α : Type} {out : Mutated α}

theorem Creation.adds (h : Creation P m agentId quota current inputs out) :
    ∃ n, (0 < quota → n ≤ quota - current) ∧ Adds m out.1 agentId n := by
  cases h with
  | unchanged hsame => exact ⟨0, fun _ => Nat.zero_le _, adds_of_same hsame.2⟩
  | root hsame _ hagent hadmits _ =>
    refine ⟨1, by omega, ?_⟩
    unfold commitRoot
    split
    · exact adds_of_same fun role tier => (getTier_withLedger ..).trans (hsame.2 role tier)
    · exact hagent ▸ (adds_extend le_rfl).of_same fun role tier => (getTier_withLedger ..).trans (hsame.2 role tier)
  | @batch _ _ _ entries _ hsame _ hadmits _ =>
    refine ⟨entries.length, by omega, ?_⟩
    unfold commitRootBatch
    split
    · exact adds_of_same fun role tier => (getTier_withLedger ..).trans (hsame.2 role tier)
    · refine (adds_extend ?_).of_same fun role tier => (getTier_withLedger ..).trans (hsame.2 role tier)
      rw [length_zipWith]
      exact Nat.min_le_left ..

/-- A refusal for the quota comes before the commit. -/
theorem Creation.same_of_refused {x limit : Nat} (h : Creation P m agentId quota current inputs out)
    (hrefused : (discard out).2 = .error (.quotaExceeded x limit)) : Same m out.1 := by
  cases h with
  | unchanged hsame => exact hsame
  | root =>
    unfold QuotaCall.discard commitRoot at hrefused
    split at hrefused <;> cases hrefused
  | batch =>
    unfold QuotaCall.discard commitRootBatch at hrefused
    split at hrefused <;> cases hrefused

end

theorem storeCounted_adds : ∃ n, (0 < quota → n ≤ quota - current) ∧
    Adds m (m.storeCounted P entry quota current).1 entry.agentId n := by
  have hsame : ∃ n, (0 < quota → n ≤ quota - current) ∧ Adds m m entry.agentId n :=
    ⟨0, fun _ => Nat.zero_le _, adds_of_same fun _ _ => rfl⟩
  unfold storeCounted
  split
  · exact hsame
  · rename_i hadmits
    have hadmits := refuse_eq_ok.mp hadmits
    unfold store
    split
    · exact hsame
    · rename_i sealed hseal
      split
      · exact hsame
      · exact ⟨1, by omega, agentId_of_sealed hseal ▸ adds_extend le_rfl⟩

/-- An update or a deletion adds one entry at most, to the agent whose entry it names. -/
theorem mutation_adds {callerRoleId entryId : String}
    {mutate : Mutator}
    (hmutate : AppendsTo False entryId inputs.now mutate) :
    let out := (m.commitWorkingMutation P callerRoleId entryId mutate inputs).1
    (∀ role tier, out.getTier role tier = m.getTier role tier) ∨
      ∃ role, (∃ e ∈ m.getTier role .working, e.id = entryId) ∧ Adds m out role 1 := by
  intro out
  unfold out commitWorkingMutation
  split
  · exact .inl fun _ _ => rfl
  · exact .inl fun _ _ => rfl
  · rename_i originRole _ committed _ hcommit
    obtain ⟨-, -, live, hlive, hcandidate, -⟩ := workingMutation_eq_commit hcommit
    obtain ⟨previous, hprevious, hid, e, rfl, -⟩ := hmutate live _ hcandidate
    split
    · exact .inl fun _ _ => getTier_withLedger ..
    · rename_i ledger receipt _
      have hget : m.getTier originRole .working = live := by
        rw [getTier, tierMap, hlive, Option.getD_some]
      have hadds : Adds m ({ m with ledger := some ledger }.extend originRole .working
          [committed.publishedAt receipt.committedAt]) originRole 1 :=
        (adds_extend le_rfl).of_same fun _ _ => getTier_withLedger ..
      rw [extend, getTier_withLedger, hget] at hadds
      rw [dropLast_concat]
      exact .inr ⟨originRole, ⟨previous, hget ▸ hprevious, hid⟩, hadds⟩

namespace QuotaCall

/-- The quota of a creating call. -/
def limit : QuotaCall → Option Nat
  | .storeChecked _ quota | .createWorking _ quota _ | .create _ quota _ | .createBatch _ quota _
  | .createWorkingBatch _ quota _ => some quota
  | .update .. | .delete .. => none

/-- The call creates entries of the agent. -/
def Creates (a : String) (call : QuotaCall) : Prop :=
  call.limit.isSome ∧ call.agentId = a

instance : Decidable (Creates a call) := inferInstanceAs (Decidable (_ ∧ _))

/-- The call updates or deletes an entry of the agent. -/
def Changes (a : String) (m : LayeredMemory) : QuotaCall → Prop
  | .update _ _ entryId .. | .delete _ _ entryId .. => ∃ e ∈ m.getTier a .working, e.id = entryId
  | _ => False

instance : Decidable (Changes a m call) := by unfold Changes; split <;> infer_instance

/-- The room a change has to find: for the revision of an update, and for a tombstone and a new entry. -/
def room : QuotaCall → Nat
  | .update .. => 1
  | .delete .. => 2
  | _ => 0

end QuotaCall

variable {call : QuotaCall}

theorem finish_of_creates (h : call.limit = some quota) :
    ∃ n, (0 < quota → n ≤ quota - current) ∧ Adds m (call.finish P m current).1 call.agentId n := by
  cases call <;> cases h
  case storeChecked => exact storeCounted_adds
  case createWorking => exact (creation_working ..).adds
  case create => exact (creation_durable ..).adds
  case createBatch => exact (creation_batch ..).adds
  case createWorkingBatch => exact (creation_workingBatch ..).adds

theorem finish_of_changes (h : call.limit = none) :
    (∀ role tier, (call.finish P m current).1.getTier role tier = m.getTier role tier) ∨
      ∃ role, call.Changes role m ∧ Adds m (call.finish P m current).1 role call.room := by
  cases call with
  | update agentId namespace_ entryId newContent newRevisionId now inputs =>
    unfold finish QuotaCall.discard updateWorkingDurable
    dsimp only
    split
    · exact .inl fun _ _ => rfl
    · exact mutation_adds updateMutation_appends
  | delete =>
    rcases mutation_adds (deleteMutation_appends False.elim) with hsame | ⟨role, hchanges, hadds⟩
    · exact .inl hsame
    · exact .inr ⟨role, hchanges, hadds.frame, hadds.le, hadds.le_add.trans (Nat.le_succ _)⟩
  | _ => cases h

theorem mutation_same_of_refused {callerRoleId entryId : String} {x limit : Nat}
    {mutate : Mutator}
    (h : (discard (m.commitWorkingMutation P callerRoleId entryId mutate inputs)).2 =
      .error (.quotaExceeded x limit)) : Same m (m.commitWorkingMutation P callerRoleId entryId mutate inputs).1 := by
  unfold QuotaCall.discard commitWorkingMutation at h
  unfold commitWorkingMutation
  split
  · exact same_refl
  · exact same_refl
  · next hmutation =>
    simp only [hmutation] at h
    split at h <;> cases h

theorem same_of_finish_refused {x limit : Nat}
    (h : (call.finish P m current).2 = .error (.quotaExceeded x limit)) : Same m (call.finish P m current).1 := by
  cases call with
  | storeChecked =>
    unfold finish storeCounted store at h ⊢
    repeat' split
    all_goals first | exact same_refl | simp_all
  | createWorking => exact (creation_working ..).same_of_refused h
  | create => exact (creation_durable ..).same_of_refused h
  | createBatch => exact (creation_batch ..).same_of_refused h
  | createWorkingBatch => exact (creation_workingBatch ..).same_of_refused h
  | update agentId namespace_ entryId newContent newRevisionId now inputs =>
    by_cases hblank : isBlank newContent
    · simp only [finish, updateWorkingDurable, if_pos hblank]
      exact same_refl
    · simp only [finish, updateWorkingDurable, if_neg hblank] at h ⊢
      exact mutation_same_of_refused h
  | delete => exact mutation_same_of_refused h

/-! ## Calls in progress -/

/-- The thread is a creating call of the agent that has begun to count. -/
def QuotaThread.counts (a : String) (t : QuotaThread) : Bool :=
  t.call.Creates a && t.phase matches .counting ..

namespace QuotaSystem

variable {s : QuotaSystem} {i : Nat} {t : QuotaThread}

/-- No creating call of the agent is in progress. -/
def Idle (a : String) (s : QuotaSystem) : Prop :=
  ∀ t ∈ s.threads, t.counts a = false

/-- A creating call of the agent begins with the agent's quota and when no other one is in progress; an
entry of the agent is changed when there is room and no creating call of the agent is in progress. -/
def Keeps (a : String) (q : Nat) (s : QuotaSystem) (i : Nat) : Prop :=
  match s.threads[i]? with
  | some ⟨call, .waiting⟩ => s.admits call → call.Creates a → call.limit = some q ∧ s.Idle a
  | some ⟨call, .counting [] _⟩ =>
    call.Changes a s.memory → s.memory.countForAgent a + call.room ≤ q ∧ s.Idle a
  | _ => True

instance : Decidable (s.Idle a) := inferInstanceAs (Decidable (∀ t ∈ s.threads, t.counts a = false))

instance : Decidable (s.Keeps a q i) := by unfold Keeps; split <;> infer_instance

/-- The agent is within its quota, and the one call that counts its entries has the right number of those
it has seen. -/
structure WithinQuota (a : String) (q : Nat) (s : QuotaSystem) : Prop where
  le : s.memory.countForAgent a ≤ q
  sole : Sole (QuotaThread.counts a) s.threads
  counted : ∀ t ∈ s.threads, t.counts a → t.call.limit = some q ∧ ∀ unread counted,
    t.phase = .counting unread counted →
      counted + (unread.map fun tier => (s.memory.getTier a tier).length).sum = s.memory.countForAgent a

theorem withinQuota_of_idle (hidle : s.Idle a) (hle : s.memory.countForAgent a ≤ q) : WithinQuota a q s := by
  refine ⟨hle, fun i j t u hi _ ht _ => ?_, fun t ht hcounts => ?_⟩
  · rw [hidle t (mem_of_getElem? hi)] at ht
    cases ht
  · rw [hidle t ht] at hcounts
    cases hcounts

theorem idle_start {calls : List QuotaCall} : (start m calls).Idle a := by
  simp [Idle, start, QuotaThread.counts]

/-- Entries of other agents do not matter. -/
theorem WithinQuota.frame (h : WithinQuota a q s) (hm : ∀ tier, m.getTier a tier = s.memory.getTier a tier) :
    WithinQuota a q { s with memory := m } := by
  refine ⟨(countForAgent_congr hm).trans_le h.le, h.sole, fun t ht hcounts => ?_⟩
  simp only [hm, countForAgent_congr hm]
  exact h.counted t ht hcounts

theorem WithinQuota.finished (h : WithinQuota a q s) (hi : s.threads[i]? = some t) :
    WithinQuota a q { s with threads := s.setPhase i t .finished } := by
  have hnot : QuotaThread.counts a { t with phase := .finished } = false := by simp [QuotaThread.counts]
  refine ⟨h.le, h.sole.leave hi hnot, fun u hu hcounts => ?_⟩
  rcases mem_or_eq_of_mem_set hu with hu | rfl
  · exact h.counted u hu hcounts
  · rw [hnot] at hcounts
    cases hcounts

/-- What a call is to count is all that there is. -/
theorem sum_countedTiers (h : call.limit = some q) (hq : 0 < q) :
    (call.countedTiers.map fun tier => (m.getTier a tier).length).sum = m.countForAgent a := by
  cases call <;> cases h <;> simp only [countedTiers, countForAgent, tiers, hq, if_true]
  case create =>
    split
    · simp
      omega
    · simp
  case createWorking | createWorkingBatch => simp; omega

theorem WithinQuota.begins (h : WithinQuota a q s) (hq : 0 < q) (hi : s.threads[i]? = some t)
    (hkeeps : t.call.Creates a → t.call.limit = some q ∧ s.Idle a) :
    WithinQuota a q { s with threads := s.setPhase i t (.counting t.call.countedTiers 0) } := by
  refine ⟨h.le, ?_, fun u hu hcounts => ?_⟩
  · by_cases hcreates : t.call.Creates a
    · exact Sole.set hi fun j u _ hj => (hkeeps hcreates).2 u (mem_of_getElem? hj)
    · exact h.sole.leave hi (by simp [QuotaThread.counts, hcreates])
  · rcases mem_or_eq_of_mem_set hu with hu | rfl
    · exact h.counted u hu hcounts
    · have hlimit := (hkeeps (by simpa [QuotaThread.counts] using hcounts)).1
      refine ⟨hlimit, fun unread counted hphase => ?_⟩
      cases hphase
      rw [sum_countedTiers hlimit hq, Nat.zero_add]

theorem WithinQuota.counts (h : WithinQuota a q s) (hi : s.threads[i]? = some t) {unread : List MemoryTier}
    {counted : Nat} (hphase : t.phase = .counting (tier :: unread) counted) :
    WithinQuota a q { s with
      threads := s.setPhase i t (.counting unread (counted + (s.memory.getTier t.call.agentId tier).length)) } := by
  have hsame : ∀ n, QuotaThread.counts a { t with phase := .counting unread n } = t.counts a := by
    simp [QuotaThread.counts, hphase]
  refine ⟨h.le, ?_, fun u hu hcounts => ?_⟩
  · cases hcounts : t.counts a with
    | true => exact h.sole.move hi hcounts
    | false => exact h.sole.leave hi ((hsame _).trans hcounts)
  · rcases mem_or_eq_of_mem_set hu with hu | rfl
    · exact h.counted u hu hcounts
    · rw [hsame] at hcounts
      obtain ⟨hlimit, hcounted⟩ := h.counted t (mem_of_getElem? hi) hcounts
      refine ⟨hlimit, fun unread counted hphase' => ?_⟩
      cases hphase'
      have hagent : t.call.agentId = a := by simp_all [QuotaThread.counts, Creates]
      rw [hagent, ← hcounted _ _ hphase, map_cons, sum_cons, Nat.add_assoc]

theorem WithinQuota.finishes (h : WithinQuota a q s) (hq : 0 < q) (hi : s.threads[i]? = some t) {counted : Nat}
    (hphase : t.phase = .counting [] counted)
    (hkeeps : t.call.Changes a s.memory → s.memory.countForAgent a + t.call.room ≤ q ∧ s.Idle a) :
    WithinQuota a q ⟨(t.call.finish P s.memory counted).1, s.setPhase i t .finished⟩ := by
  have hthreads := h.finished hi
  cases hlimit : t.call.limit with
  | none =>
    rcases finish_of_changes hlimit with hsame | ⟨role, hchanges, hadds⟩
    · exact hthreads.frame (hsame a)
    · by_cases hrole : a = role
      · subst hrole
        obtain ⟨hroom, hidle⟩ := hkeeps hchanges
        refine withinQuota_of_idle (fun u hu => ?_) (hadds.le_add.trans hroom)
        rcases mem_or_eq_of_mem_set hu with hu | rfl
        · exact hidle u hu
        · simp [QuotaThread.counts]
      · exact hthreads.frame (hadds.frame a hrole)
  | some quota =>
    obtain ⟨n, hn, hadds⟩ : ∃ n, (0 < quota → n ≤ quota - counted) ∧
      Adds s.memory (t.call.finish P s.memory counted).1 t.call.agentId n := finish_of_creates hlimit
    by_cases hagent : a = t.call.agentId
    · -- no other call of the agent is in progress, and this one has counted all entries
      have hcounts : t.counts a := by simp [QuotaThread.counts, Creates, hlimit, hagent, hphase]
      obtain ⟨hlimit', hcounted⟩ := h.counted t (mem_of_getElem? hi) hcounts
      cases hlimit.symm.trans hlimit'
      have hcounted := hcounted _ _ hphase
      have hle := h.le
      refine withinQuota_of_idle (fun u hu => ?_) ?_
      · rcases h.sole.mem_set hi hcounts hu with rfl | ⟨-, hu⟩
        · simp [QuotaThread.counts]
        · exact hu
      · have hadded := hadds.le_add
        rw [← hagent] at hadded
        have hn := hn hq
        rw [map_nil, sum_nil, Nat.add_zero] at hcounted
        dsimp only
        omega
    · exact hthreads.frame (hadds.frame a hagent)

theorem WithinQuota.step (h : WithinQuota a q s) (hq : 0 < q) (hkeeps : s.Keeps a q i) :
    WithinQuota a q (s.step P i) := by
  unfold QuotaSystem.step
  unfold Keeps at hkeeps
  split
  · exact h
  · rename_i t hi
    rw [hi] at hkeeps
    obtain ⟨call, phase⟩ := t
    match phase with
    | .waiting =>
      dsimp only at hkeeps ⊢
      split
      · next hadmits => exact h.begins hq hi (hkeeps hadmits)
      · exact h
    | .counting (tier :: unread) counted => exact h.counts hi rfl
    | .counting [] counted => exact h.finishes hq hi rfl hkeeps
    | .finished => exact h

end QuotaSystem

/-! ## Room for a new entry -/

theorem Adds.count (h : Adds m m' agentId n) (a : String) :
    m.countForAgent a ≤ m'.countForAgent a ∧ m'.countForAgent a ≤ m.countForAgent a + n := by
  by_cases ha : a = agentId
  · exact ha ▸ ⟨h.le, h.le_add⟩
  · have hcount := countForAgent_congr (h.frame a ha)
    omega

/-- A deletion adds an entry and takes none away. -/
theorem deletion_count {namespace_ entryId newRevisionId : String} {now : Nat} :
    let deleted := (m.deleteWorkingDurable P agentId namespace_ entryId newRevisionId now inputs).1
    m.countForAgent a ≤ deleted.countForAgent a ∧ deleted.countForAgent a ≤ m.countForAgent a + 1 := by
  rcases mutation_adds (deleteMutation_appends False.elim) with hsame | ⟨role, -, hadds⟩
  · have hcount := countForAgent_congr (hsame a)
    exact ⟨hcount.ge, hcount.le.trans (Nat.le_succ _)⟩
  · exact hadds.count a

/-- An entry that is kept for the session only. -/
def sessionEntry (agentId : String) : MemoryEntry :=
  { sampleEntry with agentId, tier := .ephemeral }

end Plico.Layered
