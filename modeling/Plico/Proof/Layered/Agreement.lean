import Mathlib.Data.List.Forall2
import Plico.Proof.Layered.Origin
import Plico.Proof.Layered.Tiers

/-!
# The runtime follows the ledger

`Agreement m l`: for every role and durable tier, the entries the runtime holds are, one by one, the
revisions a restart would restore. Every operation keeps it, whatever fails (`Agreement.run`). With
`timed` the entries also carry the deletion times of the ledger, which needs the two clock readings of a
delete to be the same; without it they only agree on what is deleted.
-/

namespace Plico.Layered

open MemoryEntry Option List Ledger LayeredMemory

variable {P : LedgerPlatform} {timed : Prop} {e : MemoryEntry} {role : String} {revision : CanonicalRevision}

/-- `e` is what the runtime holds of the revision `r` of a memory of `role`. -/
structure Agrees (timed : Prop) (role : String) (e : MemoryEntry) (r : CanonicalRevision) : Prop where
  id : e.id = r.revisionId
  memoryId : e.memoryId = r.memoryId
  parentRevisionId : e.parentRevisionId = r.parentRevisionId
  content : e.content = r.content
  canonicalContentHash : e.canonicalContentHash = r.contentHash
  agentId : e.agentId = role
  tier : e.tier = r.cognitiveTier
  tags : e.tags = r.tags
  memoryType : e.memoryType = r.memoryType
  createdAt : e.createdAt = r.committedAt
  supersededBy : e.supersededBy = none
  deleted : e.deletedAt.isSome = r.deletedAt.isSome
  deletedAt : timed → e.deletedAt = r.deletedAt

structure Agreement (P : LedgerPlatform) (timed : Prop) (m : LayeredMemory) (l : CASCanonicalLedger) : Prop where
  ledger : m.ledger = some l
  sound : Sound P l.state
  governed : AllGoverned l.state
  entries : ∀ role tier, tier ≠ .ephemeral →
    List.Forall₂ (Agrees timed role) (m.getTier role tier) (originRevisions l.state role tier)

variable {r : CanonicalRevision} {roleId : String} {now : Nat} {id : MemoryRevisionId}

theorem entryToRevision_eq_ok (h : entryToRevision e = .ok r) :
    e.supersededBy = none ∧
      r = ⟨revisionSchema, 0, e.memoryId, e.id, e.parentRevisionId, e.content, e.canonicalContentHash, e.tags,
        e.memoryType, e.tier, e.deletedAt, e.createdAt, e.agentId⟩ := by
  obtain ⟨_, -, _, -, _, -, h⟩ := of_seq₃ h
  obtain ⟨_, -, h⟩ := of_seq h
  obtain ⟨_, hlegacy, h⟩ := of_seq h
  simp only [refuse_eq_ok, not_or, Bool.not_eq_true, isSome_eq_false_iff, isNone_iff_eq_none] at hlegacy
  exact ⟨hlegacy.2, (pure_ok_inj.mp h).symm⟩

/-- A published entry agrees with the revision the writer stamped. -/
theorem agrees_of_commit {sequence : Nat} (h : entryToRevision e = .ok r)
    (hrole : e.agentId = role) (hdel : timed → e.deletedAt = e.deletedAt.map fun _ => now) :
    Agrees timed role (e.publishedAt now) (stamp roleId now sequence r) := by
  obtain ⟨hsup, rfl⟩ := entryToRevision_eq_ok h
  exact ⟨rfl, rfl, rfl, rfl, rfl, hrole, rfl, rfl, rfl, rfl, hsup, by simp [publishedAt, stamp], hdel⟩

/-! ## Commits -/

/-- The ledger after a call to it, or as it was. -/
def Follows (P : LedgerPlatform) (l l' : CASCanonicalLedger) : Prop :=
  l' = l ∨ ∃ call inputs, l' = (CommitCall.run P l call inputs).1

section

variable {m : LayeredMemory} {l l' : CASCanonicalLedger}

/-- A commit that fails leaves the runtime in agreement. -/
theorem Agreement.failed (h : Agreement P timed m l) (hs : Sound P l'.state)
    (hr : l'.state.revisions = l.state.revisions) (hp : l'.state.policies = l.state.policies) :
    Agreement P timed { m with ledger := some l' } l' := by
  refine ⟨rfl, hs, fun memoryId => ?_, fun role tier ht => ?_⟩
  · rw [hr, hp]
    exact h.governed memoryId
  · have horigin : originRevisions l'.state role tier = originRevisions l.state role tier := by
      unfold originRevisions originMemories
      rw [hr, hp]
    rw [horigin]
    exact h.entries role tier ht

variable {roleId : String} {tier : MemoryTier} {revisions : List CanonicalRevision} {inputs : CommitInputs}
  {c : PreparedCommit}

/-- Publishing the roots of a committed batch. -/
theorem Agreement.roots (h : Agreement P timed m l)
    (hc : Prepared P l.state roleId tier revisions (List.replicate revisions.length .absent) inputs c)
    (hl : l'.state = c.apply l.state) {entries : List MemoryEntry}
    (he : List.Forall₂ (fun e r => entryToRevision e = .ok r) entries revisions) :
    Agreement P timed ({ m with ledger := some l' }.extend roleId tier (entries.map (publishedAt inputs.now))) l' := by
  refine ⟨by simp, hl ▸ h.sound.apply hc, hl ▸ fun memoryId => (h.governed memoryId).apply h.sound hc,
    fun role t ht => ?_⟩
  rw [getTier_extend, hl, hc.originRevisions_roots h.sound h.governed]
  refine rel_append (h.entries role t ht) ?_
  split
  · rename_i hrole
    rw [hc.newRevisions, forall₂_map_left_iff, ← hrole.1]
    rw [forall₂_iff_get] at he ⊢
    refine ⟨by simp [stampAll, he.1], fun i hi hi' => ?_⟩
    have hlt : i < revisions.length := by simpa [stampAll] using hi'
    have hrev := he.2 i hi hlt
    obtain ⟨hauthor, hlive⟩ := hc.root_spec (get_mem revisions ⟨i, hlt⟩)
    obtain ⟨-, hfields⟩ := entryToRevision_eq_ok hrev
    have hagent : (entries.get ⟨i, hi⟩).agentId = roleId := by rw [← hauthor, hfields]
    have hdel : (entries.get ⟨i, hi⟩).deletedAt = none := by rw [← hlive, hfields]
    have hstamp : (stampAll l.state roleId inputs.now revisions).get ⟨i, hi'⟩ =
        stamp roleId inputs.now (l.state.revisions.length + 1 + i) (revisions.get ⟨i, hlt⟩) := by
      simp [stampAll]
    rw [hstamp]
    exact agrees_of_commit hrev hagent fun _ => by rw [hdel]; rfl
  · exact .nil

/-- Publishing a later revision of a memory of `p.originRoleId`. -/
theorem Agreement.append (h : Agreement P timed m l)
    (hc : Prepared P l.state roleId tier [revision] [.revision id] inputs c) (hl : l'.state = c.apply l.state)
    {p : PolicyRecord} (hp : memoryPolicies l.state.policies revision.memoryId = [p])
    (he : entryToRevision e = .ok revision) (hrole : e.agentId = p.originRoleId)
    (hdel : timed → e.deletedAt = e.deletedAt.map fun _ => inputs.now) :
    Agreement P timed ({ m with ledger := some l' }.extend p.originRoleId tier [e.publishedAt inputs.now]) l' := by
  refine ⟨by simp, hl ▸ h.sound.apply hc, hl ▸ fun memoryId => (h.governed memoryId).apply h.sound hc,
    fun role t ht => ?_⟩
  rw [getTier_extend, hl, hc.originRevisions_update h.sound hp]
  refine rel_append (h.entries role t ht) ?_
  split
  · rename_i horigin
    rw [hc.newRevisions, ← horigin.1]
    exact .cons (agrees_of_commit he hrole hdel) .nil
  · exact .nil

end

variable {l : CASCanonicalLedger} {tier : MemoryTier} {inputs : CommitInputs}

/-- Every way a commit of one revision can end, as the runtime sees it. -/
theorem commitExpected_cases (hs : Sound P l.state) {expectedHead : ExpectedHead} :
    (∃ c l' receipt, Prepared P l.state roleId tier [revision] [expectedHead] inputs c ∧
      commitExpected P l roleId tier expectedHead revision inputs = (l', .ok receipt) ∧ Follows P l l' ∧
      l'.state = c.apply l.state ∧ receipt.committedAt = inputs.now) ∨
    (∃ l' e, commitExpected P l roleId tier expectedHead revision inputs = (l', .error e) ∧ Follows P l l' ∧
      Sound P l'.state ∧ l'.state.revisions = l.state.revisions ∧ l'.state.policies = l.state.policies) := by
  have hsound := hs.step (.expected roleId tier expectedHead revision) inputs
  have hcases := run_cases (P := P) l (.expected roleId tier expectedHead revision) inputs
  obtain ⟨l', result, hrun⟩ : ∃ l' result, commitExpected P l roleId tier expectedHead revision inputs = (l', result) :=
    ⟨_, _, rfl⟩
  have hcall : CommitCall.run P l (.expected roleId tier expectedHead revision) inputs = (l', result.map ([·])) := by
    rw [CommitCall.run, hrun]
  have hfollows : Follows P l l' := .inr ⟨_, inputs, (congrArg Prod.fst hcall).symm⟩
  rw [hcall] at hsound hcases
  rcases hcases with ⟨c, hc, hstate, hok⟩ | ⟨e, herr, hr, hp⟩
  · cases result with
    | error e => cases hok
    | ok receipt =>
      refine .inl ⟨c, l', receipt, hc, hrun, hfollows, hstate, ?_⟩
      have hmem : receipt ∈ c.receipts inputs.now := Except.ok.inj hok ▸ mem_singleton_self receipt
      obtain ⟨r, -, rfl⟩ := mem_map.mp hmem
      rfl
  · cases result with
    | error e => exact .inr ⟨l', e, hrun, hfollows, hsound, hr, hp⟩
    | ok receipt => cases herr

/-- The same of a batch of roots. -/
theorem commitRoots_cases (hs : Sound P l.state) {revisions : List CanonicalRevision} :
    (∃ c l', Prepared P l.state roleId tier revisions (List.replicate revisions.length .absent) inputs c ∧
      commitRoots P l roleId tier revisions inputs = (l', .ok (c.receipts inputs.now)) ∧ Follows P l l' ∧
      l'.state = c.apply l.state) ∨
    (∃ l' e, commitRoots P l roleId tier revisions inputs = (l', .error e) ∧ Follows P l l' ∧ Sound P l'.state ∧
      l'.state.revisions = l.state.revisions ∧ l'.state.policies = l.state.policies) := by
  have hsound := hs.step (.roots roleId tier revisions) inputs
  have hcases := run_cases (P := P) l (.roots roleId tier revisions) inputs
  obtain ⟨l', result, hrun⟩ : ∃ l' result, commitRoots P l roleId tier revisions inputs = (l', result) := ⟨_, _, rfl⟩
  have hcall : CommitCall.run P l (.roots roleId tier revisions) inputs = (l', result) := hrun
  have hfollows : Follows P l l' := .inr ⟨_, inputs, (congrArg Prod.fst hcall).symm⟩
  rw [hcall] at hsound hcases
  rcases hcases with ⟨c, hc, hstate, hok⟩ | ⟨e, herr, hr, hp⟩
  · obtain rfl : result = .ok (c.receipts inputs.now) := hok
    exact .inl ⟨c, l', hc, hrun, hfollows, hstate⟩
  · obtain rfl : result = .error e := herr
    exact .inr ⟨l', e, hrun, hfollows, hsound, hr, hp⟩

theorem fromEntry_eq_ok (h : fromEntry e = .ok r) : entryToRevision e = .ok r :=
  mapError_ok_iff.mp h

/-! ## Creating -/

section

variable {m : LayeredMemory} {l : CASCanonicalLedger} {entry : MemoryEntry} {agentId : String} {m' : LayeredMemory}

/-- The same ledger and the same entries. -/
def Same (m m' : LayeredMemory) : Prop := m'.ledger = m.ledger ∧ ∀ role tier, m'.getTier role tier = m.getTier role tier

theorem same_extend_nil : Same m (m.extend agentId tier []) :=
  ⟨extend_ledger .., fun role t => by rw [getTier_extend, ite_self, append_nil]⟩

theorem Agreement.same (h : Agreement P timed m l) (hsame : Same m m') : Agreement P timed m' l :=
  ⟨hsame.1.trans h.ledger, h.sound, h.governed, fun role t ht => hsame.2 role t ▸ h.entries role t ht⟩

theorem Agreement.commitRoot (h : Agreement P timed m l) (tier : MemoryTier)
    (he : fromEntry entry = .ok revision) (inputs : CommitInputs) :
    ∃ l', Agreement P timed (m.commitRoot P l tier entry revision inputs).1 l' ∧ Follows P l l' := by
  unfold LayeredMemory.commitRoot
  rcases commitExpected_cases h.sound with
    ⟨c, l', receipt, hc, hrun, hfollows, hstate, hnow⟩ | ⟨l', e, hrun, hfollows, hsound, hr, hp⟩
  · rw [hrun]
    dsimp only
    rw [hnow]
    exact ⟨l', h.roots hc hstate (.cons (fromEntry_eq_ok he) .nil), hfollows⟩
  · rw [hrun]
    exact ⟨l', h.failed hsound hr hp, hfollows⟩

variable {entries : List MemoryEntry} {revisions : List CanonicalRevision} {ledger : CASCanonicalLedger}
  {entryId : String} {origin : String} {newRevisionId namespace_ : String} {clock : Nat} {entry' : MemoryEntry}

theorem forall₂_of_mapM (h : entries.mapM fromEntry = .ok revisions) :
    List.Forall₂ (fun e r => entryToRevision e = .ok r) entries revisions := by
  induction entries generalizing revisions with
  | nil =>
    obtain rfl := mapM_nil_eq_ok.mp h
    exact .nil
  | cons e es ih =>
    obtain ⟨r, rs, hr, hrs, rfl⟩ := mapM_cons_eq_ok.mp h
    exact .cons (fromEntry_eq_ok hr) (ih hrs)

theorem Agreement.commitRootBatch (h : Agreement P timed m l) (agentId : String) (tier : MemoryTier)
    (he : entries.mapM fromEntry = .ok revisions) (inputs : CommitInputs) :
    ∃ l', Agreement P timed (m.commitRootBatch P l agentId tier entries revisions inputs).1 l' ∧ Follows P l l' := by
  unfold LayeredMemory.commitRootBatch
  have hentries := forall₂_of_mapM he
  rcases commitRoots_cases h.sound with
    ⟨c, l', hc, hrun, hfollows, hstate⟩ | ⟨l', e, hrun, hfollows, hsound, hr, hp⟩
  · rw [hrun]
    dsimp only
    have hzip : entries.zipWith (fun entry receipt => entry.publishedAt receipt.committedAt)
        (c.receipts inputs.now) = entries.map (publishedAt inputs.now) := by
      have hlen : (c.receipts inputs.now).length = entries.length := by
        rw [receipts_length hc, hentries.length_eq]
      refine ext_getElem (by simp [hlen]) fun i hi hi' => ?_
      simp [PreparedCommit.receipts]
    rw [hzip]
    exact ⟨l', h.roots hc hstate hentries, hfollows⟩
  · rw [hrun]
    exact ⟨l', h.failed hsound hr hp, hfollows⟩

/-- What a creating call comes to that has counted `current` entries: it changes nothing, or it commits and
publishes what the quota admits. -/
inductive Creation (P : LedgerPlatform) (m : LayeredMemory) (agentId : String) (quota current : Nat)
    (inputs : CommitInputs) : {α : Type} → Mutated α → Prop where
  | unchanged {α : Type} {m' : LayeredMemory} {result : Except DurableMemoryMutationError α} (h : Same m m') :
    Creation P m agentId quota current inputs (m', result)
  | root {m' : LayeredMemory} {ledger : CASCanonicalLedger} {tier : MemoryTier} {entry : MemoryEntry}
    {revision : CanonicalRevision} (h : Same m m') (hledger : m.ledger = some ledger) (hagent : entry.agentId = agentId)
    (hquota : ¬ (0 < quota ∧ quota ≤ current)) (hrevision : fromEntry entry = .ok revision) :
    Creation P m agentId quota current inputs (m'.commitRoot P ledger tier entry revision inputs)
  | batch {m' : LayeredMemory} {ledger : CASCanonicalLedger} {tier : MemoryTier} {entries : List MemoryEntry}
    {revisions : List CanonicalRevision} (h : Same m m') (hledger : m.ledger = some ledger)
    (hquota : ¬ (0 < quota ∧ quota < current + entries.length))
    (hrevisions : entries.mapM fromEntry = .ok revisions) :
    Creation P m agentId quota current inputs (m'.commitRootBatch P ledger agentId tier entries revisions inputs)

theorem Agreement.creation {α : Type} {quota current : Nat}
    {out : Mutated α} (h : Agreement P timed m l)
    (hc : Creation P m agentId quota current inputs out) : ∃ l', Agreement P timed out.1 l' ∧ Follows P l l' := by
  cases hc with
  | unchanged hsame => exact ⟨l, h.same hsame, .inl rfl⟩
  | root hsame hledger _ _ hrevision =>
    cases h.ledger.symm.trans hledger
    exact (h.same hsame).commitRoot _ hrevision inputs
  | batch hsame hledger _ hrevisions =>
    cases h.ledger.symm.trans hledger
    exact (h.same hsame).commitRootBatch _ _ hrevisions inputs

theorem agentId_of_sealed (h : sealed P entry = .ok entry') : entry'.agentId = entry.agentId := by
  have h := mapError_ok_iff.mp h
  unfold sealRootIdentity at h
  split at h <;> dsimp only at h <;> split at h
  · obtain ⟨_, -, h⟩ := of_seq h
    cases pure_ok_inj.mp h
    rfl
  · cases pure_ok_inj.mp h
    rfl
  · obtain ⟨_, -, h⟩ := of_seq h
    cases pure_ok_inj.mp h
    rfl
  · exact congrArg agentId (pure_ok_inj.mp h).symm

theorem sealWithLedger_eq_ok (h : m.sealWithLedger P entry = .ok (entry', ledger)) :
    entry'.agentId = entry.agentId ∧ m.ledger = some ledger := by
  obtain ⟨_, hsealed, h⟩ := of_seq h
  obtain ⟨_, hledger, h⟩ := of_seq h
  cases pure_ok_inj.mp h
  exact ⟨agentId_of_sealed hsealed, required_eq_ok.mp hledger⟩

theorem same_refl : Same m m := ⟨rfl, fun _ _ => rfl⟩

section

variable (m) (quota current : Nat) (inputs : CommitInputs) (entry : MemoryEntry) (entries : List MemoryEntry)

theorem creation_working : Creation P m entry.agentId quota current inputs
    (m.createWorkingCounted P entry quota current inputs) := by
  unfold createWorkingCounted
  cases hseal : m.sealWithLedger P entry with
  | error e => exact .unchanged same_refl
  | ok sealed =>
    obtain ⟨hagent, hledger⟩ := sealWithLedger_eq_ok hseal
    dsimp only
    rw [hagent]
    split
    · exact .unchanged (same_extend_nil ..)
    · rename_i hrev
      obtain ⟨_, hquota, hrev⟩ := of_seq hrev
      exact .root (same_extend_nil ..) hledger hagent (refuse_eq_ok.mp hquota) hrev

theorem creation_inTier : Creation P m entry.agentId quota current inputs
    (m.createInTier P tier entry quota current inputs) := by
  unfold LayeredMemory.createInTier
  cases hseal : m.sealWithLedger P entry with
  | error e => exact .unchanged same_refl
  | ok sealed =>
    obtain ⟨hagent, hledger⟩ := sealWithLedger_eq_ok hseal
    dsimp only
    split
    · exact .unchanged same_refl
    · rename_i hrev
      obtain ⟨_, hquota, hrev⟩ := of_seq hrev
      exact .root same_refl hledger hagent (refuse_eq_ok.mp hquota) hrev

theorem creation_durable : Creation P m entry.agentId quota current inputs
    (m.createCounted P entry quota current inputs) := by
  unfold createCounted
  split
  · exact creation_working ..
  · exact .unchanged same_refl
  · exact creation_inTier ..

theorem creation_batch : Creation P m (agentOf entries) quota current inputs
    (m.createBatchCounted P entries quota current inputs) := by
  unfold createBatchCounted
  split
  · exact .unchanged same_refl
  · split
    · exact .unchanged same_refl
    · rename_i hb
      obtain ⟨_, -, _, -, _, hquota, hb⟩ := of_seq₃ hb
      obtain ⟨_, hledger, hb⟩ := of_seq hb
      obtain ⟨_, hrev, hb⟩ := of_seq hb
      cases pure_ok_inj.mp hb
      exact .batch same_refl (required_eq_ok.mp hledger) (refuse_eq_ok.mp hquota) hrev

theorem creation_workingBatch : Creation P m (agentOf entries) quota current inputs
    (m.createWorkingBatchCounted P entries quota current inputs) := by
  unfold createWorkingBatchCounted
  split
  · exact .unchanged same_refl
  · split
    · exact .unchanged same_refl
    · rename_i hseal
      obtain ⟨_, -, hseal⟩ := of_seq hseal
      obtain ⟨_, hledger, hseal⟩ := of_seq hseal
      cases pure_ok_inj.mp hseal
      dsimp only
      split
      · exact .unchanged (same_extend_nil ..)
      · rename_i hrev
        obtain ⟨_, hquota, hrev⟩ := of_seq hrev
        exact .batch (same_extend_nil ..) (required_eq_ok.mp hledger) (refuse_eq_ok.mp hquota) hrev

end

/-! ## Updating and deleting -/

/-- A mutation appends one entry, of the memory and the role of the entry it names. -/
def AppendsTo (timed : Prop) (entryId : String) (now : Nat)
    (mutate : Mutator) : Prop :=
  ∀ live candidate, mutate live = .ok (.candidate candidate) → ∃ previous ∈ live, previous.id = entryId ∧
    ∃ e, candidate = live ++ [e] ∧ e.memoryId = previous.memoryId ∧ e.agentId = previous.agentId ∧
      (timed → e.deletedAt = e.deletedAt.map fun _ => now)

theorem updateMutation_appends {newContent : String} :
    AppendsTo timed entryId now (updateMutation P namespace_ entryId newRevisionId newContent clock) := by
  intro live candidate h
  obtain ⟨previous, hprev, _, -, _, -, h⟩ := of_seq₃ h
  rw [required_eq_ok] at hprev
  have hid : previous.id = entryId := by simpa using find?_some hprev
  exact ⟨previous, mem_of_find?_eq_some hprev, hid, _, (Mutation.candidate.inj (pure_ok_inj.mp h)).symm, rfl, rfl,
    fun _ => rfl⟩

/-- The tombstone carries the reading of the clock it was built at. -/
theorem deleteMutation_appends (hclock : timed → clock = now) :
    AppendsTo timed entryId now (deleteMutation namespace_ entryId newRevisionId clock) := by
  intro live candidate h
  obtain ⟨entry, hentry, _, -, _, -, h⟩ := of_seq₃ h
  rw [required_eq_ok] at hentry
  have hid : entry.id = entryId := by simpa using find?_some hentry
  split at h
  · split at h
    · cases h
    · cases h
  · refine ⟨entry, mem_of_find?_eq_some hentry, hid, _, (Mutation.candidate.inj (pure_ok_inj.mp h)).symm, rfl, rfl,
      fun ht => ?_⟩
    rw [hclock ht]
    rfl

theorem originForRevision_eq_some {s : LedgerState} (hs : Sound P s) (hg : AllGoverned s) {write : Bool}
    (h : originForRevision s roleId id write = .ok (some origin)) :
    ∃ r ∈ s.revisions, r.revisionId = id ∧ ∃ p, memoryPolicies s.policies r.memoryId = [p] ∧
      p.originRoleId = origin := by
  unfold originForRevision at h
  split at h
  · cases h
  · rename_i r hr
    split at h
    · cases h
    · rename_i stream hstream
      obtain ⟨policy, hpolicy, h⟩ := of_seq h
      rw [required_eq_ok] at hpolicy
      have hrm := mem_of_find?_eq_some hr
      refine ⟨r, hrm, by simpa using find?_some hr, ?_⟩
      obtain ⟨v, hv, hview⟩ := hs.isViewOf
      rw [hv, bind_some, streamFor_eq_some hview] at hstream
      obtain ⟨_, p, _, hlast, hste⟩ := (hview.mem stream).mp hstream.1
      rw [hstream.2] at hlast
      -- the only policy of the memory is the one the view names
      have hgov := hg r.memoryId
      generalize memoryRevisions s.revisions r.memoryId = rs at hgov
      generalize hps : memoryPolicies s.policies r.memoryId = ps at hgov hlast ⊢
      cases hgov with
      | absent => cases hlast
      | @present _ _ q _ _ _ _ =>
        obtain rfl : q = p := by simpa using hlast
        have hqm : q ∈ s.policies := ((mem_stream _).mp (hps ▸ mem_singleton_self q :
          q ∈ memoryPolicies s.policies r.memoryId)).1
        have hid : policy.policyId = q.policyId := by
          rw [hste] at hpolicy
          simpa using find?_some hpolicy
        obtain rfl : policy = q := inj_on_of_nodup_map (policyIds_nodup (validatePolicies_grown hs.policies))
          (mem_of_find?_eq_some hpolicy) hqm hid
        have hsome := pure_ok_inj.mp h
        rw [ite_none_right_eq_some] at hsome
        exact ⟨policy, rfl, some.inj hsome.2⟩

/-- What `commit_working_mutation` has settled when it gets to commit. -/
theorem workingMutation_eq_commit {callerRoleId originRole : String}
    {mutate : Mutator}
    {candidate : List MemoryEntry} {committed : MemoryEntry}
    (h : m.workingMutation callerRoleId entryId mutate =
      .ok (.commit ledger originRole candidate committed revision)) :
    required m.ledger DurableMemoryMutationError.persistenceUnavailable = .ok ledger ∧
      originForRevision ledger.state callerRoleId entryId true = .ok (some originRole) ∧
      ∃ live, m.working.lookup originRole = some live ∧ mutate live = .ok (.candidate candidate) ∧
        candidate.getLast? = some committed ∧ fromEntry committed = .ok revision := by
  obtain ⟨l₁, hledger, origin, horigin, role, hrole, h⟩ := of_seq₃ h
  obtain ⟨live, hlive, h⟩ := of_seq h
  obtain ⟨mutation, hmutate, h⟩ := of_seq h
  rw [required_eq_ok] at hrole hlive
  cases mutation with
  | existing entry => cases h
  | candidate entries =>
    obtain ⟨⟨e, r⟩, hcand, h⟩ := of_seq h
    obtain ⟨e', he', hcand⟩ := of_seq hcand
    obtain ⟨r', hr', hcand⟩ := of_seq hcand
    have hcommit := pure_ok_inj.mp h
    have hpair := pure_ok_inj.mp hcand
    obtain ⟨rfl, rfl, rfl, rfl, rfl⟩ := hcommit
    obtain ⟨rfl, rfl⟩ := hpair
    rw [required_eq_ok, filter_eq_some_iff] at he'
    exact ⟨hledger, hrole ▸ mapError_ok_iff.mp horigin, live, hlive, hmutate, he'.1, hr'⟩

variable {r : CanonicalRevision}

/-- The entry a mutation names is a revision of the origin, with the memory of the ledger's revision. -/
theorem Agreement.memoryId_eq (h : Agreement P timed m l) {previous : MemoryEntry}
    (hprev : previous ∈ m.getTier origin .working) (hr : r ∈ l.state.revisions) (hid : previous.id = r.revisionId) :
    previous.memoryId = r.memoryId ∧ previous.agentId = origin := by
  obtain ⟨q, hq, hagrees⟩ : ∃ q ∈ originRevisions l.state origin .working, Agrees timed origin previous q := by
    have hall := h.entries origin .working (by simp)
    generalize m.getTier origin .working = es at hall hprev
    generalize originRevisions l.state origin .working = rs at hall
    induction hall with
    | nil => cases hprev
    | cons he _ ih =>
      rcases mem_cons.mp hprev with rfl | hprev
      · exact ⟨_, mem_cons_self, he⟩
      · obtain ⟨q, hq, hqa⟩ := ih hprev
        exact ⟨q, mem_cons_of_mem _ hq, hqa⟩
  have hqr : q = r := eq_of_revisionId_eq (nodup_of_grown h.sound.grown) (mem_of_mem_filter hq) hr
    (hagrees.id.symm.trans hid)
  exact ⟨hqr ▸ hagrees.memoryId, hagrees.agentId⟩

theorem Agreement.mutate (h : Agreement P timed m l) {callerRoleId entryId : String} {inputs : CommitInputs}
    {mutate : Mutator}
    (hm : AppendsTo timed entryId inputs.now mutate) :
    ∃ l', Agreement P timed (m.commitWorkingMutation P callerRoleId entryId mutate inputs).1 l' ∧ Follows P l l' := by
  unfold commitWorkingMutation
  cases hw : m.workingMutation callerRoleId entryId mutate with
  | error e => exact ⟨l, h, .inl rfl⟩
  | ok mutation =>
    cases mutation with
    | existing entry => exact ⟨l, h, .inl rfl⟩
    | commit ledger originRole candidate committed revision =>
      obtain ⟨hledger, horigin, live, hlive, hmutate, hlast, hfrom⟩ := workingMutation_eq_commit hw
      cases h.ledger.symm.trans (required_eq_ok.mp hledger)
      obtain ⟨r, hr, hrid, p, hp, rfl⟩ := originForRevision_eq_some h.sound h.governed horigin
      obtain ⟨previous, hprev, hpid, e, rfl, hmemory, hagent, hdel⟩ := hm live candidate hmutate
      obtain rfl : e = committed := by simpa using hlast
      have hget : m.getTier p.originRoleId .working = live := by rw [getTier, tierMap, hlive, getD_some]
      obtain ⟨hpm, hpa⟩ := h.memoryId_eq (hget ▸ hprev) hr (hpid.trans hrid.symm)
      have hrev := fromEntry_eq_ok hfrom
      have hrmem : revision.memoryId = r.memoryId := by
        rw [(entryToRevision_eq_ok hrev).2]
        exact hmemory.trans hpm
      dsimp only
      rcases commitExpected_cases h.sound with
        ⟨c, l', receipt, hc, hrun, hfollows, hstate, hnow⟩ | ⟨l', err, hrun, hfollows, hsound, hrs, hps⟩
      · rw [hrun]
        dsimp only
        rw [hnow, dropLast_concat]
        have happ := h.append hc hstate (hrmem ▸ hp) hrev (hagent.trans hpa) hdel
        rw [extend, getTier_withLedger, hget] at happ
        exact ⟨l', happ, hfollows⟩
      · rw [hrun]
        exact ⟨l', h.failed hsound hrs hps, hfollows⟩

/-! ## Restoring and tracking -/

/-- What a restore leaves in the durable tiers. -/
theorem getTier_restoreAgent (hl : m.ledger = some l)
    (ht : tier ≠ .ephemeral) : (m.restoreAgent agentId).getTier role tier =
      if agentId = role then (originRevisions l.state agentId tier).map (CanonicalRevision.intoRuntimeEntry agentId)
      else m.getTier role tier := by
  unfold restoreAgent
  rw [hl]
  rw [getTier_foldl m role tier (g := fun role t es =>
      if agentId = role then
        (((rebuildOriginRole l.state agentId).lookup t).getD []).map (CanonicalRevision.intoRuntimeEntry agentId)
      else es) (fun m' t' r' t'' => ?_) (by decide)]
  · have hmem : tier ∈ [MemoryTier.working, .longTerm, .procedural] := by cases tier <;> simp_all
    rw [if_pos hmem, lookup_rebuildOriginRole ht]
  · rw [getTier_restoreTier]
    by_cases htt : t' = t''
    · subst htt
      rfl
    · rw [if_neg htt, if_neg htt]

theorem Agreement.restore (h : Agreement P timed m l) (agentId : String) :
    Agreement P timed (m.restoreAgent agentId) l := by
  have hledger : (m.restoreAgent agentId).ledger = m.ledger := by
    unfold restoreAgent
    rw [h.ledger]
    exact (ledger_foldl m (fun m' t => restoreTier_ledger m' agentId t)).trans h.ledger
  refine ⟨hledger.trans h.ledger, h.sound, h.governed, fun role tier ht => ?_⟩
  rw [getTier_restoreAgent h.ledger ht]
  split
  · rename_i hrole
    subst hrole
    rw [forall₂_map_left_iff, forall₂_same]
    exact fun r _ => ⟨rfl, rfl, rfl, rfl, rfl, rfl, rfl, rfl, rfl, rfl, rfl, rfl, fun _ => rfl⟩
  · exact h.entries role tier ht

/-- An operation that changes entries only where the ledger does not look. -/
theorem Agreement.frame (h : Agreement P timed m l) (hl : m'.ledger = m.ledger)
    (he : ∀ role tier, tier ≠ .ephemeral → ∀ rs, List.Forall₂ (Agrees timed role) (m.getTier role tier) rs →
      List.Forall₂ (Agrees timed role) (m'.getTier role tier) rs) : Agreement P timed m' l :=
  ⟨hl.trans h.ledger, h.sound, h.governed, fun role tier ht => he role tier ht _ (h.entries role tier ht)⟩

theorem Agrees.onMemoryAccess (h : Agrees timed role e r) (now : Nat) : Agrees timed role (e.onMemoryAccess now) r :=
  { h with }

theorem Agrees.touch (h : Agrees timed role e r) (now : Nat) : Agrees timed role (LayeredMemory.touch now e) r :=
  { h with }

theorem forall₂_mapIdx {α β : Type} {R : α → β → Prop} {f : Nat → α → α} (hf : ∀ i a b, R a b → R (f i a) b)
    {as : List α} {bs : List β} (h : List.Forall₂ R as bs) : List.Forall₂ R (as.mapIdx f) bs := by
  rw [forall₂_iff_get] at h ⊢
  refine ⟨by simpa using h.1, fun i hi hi' => ?_⟩
  have hget : (as.mapIdx f).get ⟨i, hi⟩ = f i (as.get ⟨i, by simpa using hi⟩) := by simp
  rw [hget]
  exact hf i _ _ (h.2 i _ hi')

theorem Agreement.recall (h : Agreement P timed m l) (agentId : String) (clock : MemoryTier → Nat → Nat) :
    Agreement P timed (m.recallWithTracking agentId clock).1 l := by
  refine h.frame (ledger_foldl m (fun m' t => recallTier_ledger m' agentId t)) fun role tier _ rs hrs => ?_
  show List.Forall₂ _ ((tiers.foldl (recallTier agentId clock) m).getTier role tier) rs
  rw [getTier_foldl m role tier (g := fun role t es =>
      if agentId = role then es.mapIdx fun i entry => entry.onMemoryAccess (clock t i) else es)
      (fun m' t' r' t'' => ?_) (by decide)]
  · split
    · split
      · exact forall₂_mapIdx (fun i e r hagrees => hagrees.onMemoryAccess _) hrs
      · exact hrs
    · exact hrs
  · rw [getTier_recallTier]

theorem forall₂_touchFirst {es : List MemoryEntry} {rs : List CanonicalRevision}
    (h : List.Forall₂ (Agrees timed role) es rs) : List.Forall₂ (Agrees timed role) (touchFirst entryId now es) rs := by
  induction h with
  | nil => exact .nil
  | cons he hrest ih =>
    unfold touchFirst
    split
    · exact .cons (he.touch now) hrest
    · exact .cons he ih

theorem Agreement.touch (h : Agreement P timed m l) (agentId entryId : String) (now : Nat) :
    Agreement P timed (m.touchEntry agentId entryId now).1 l := by
  unfold touchEntry
  split
  · exact h
  · rename_i t _
    refine h.frame (setTier_ledger m agentId t _) fun role tier _ rs hrs => ?_
    rw [getTier_setTier]
    split
    · rename_i hrole
      obtain ⟨rfl, rfl⟩ := hrole
      exact forall₂_touchFirst hrs
    · exact hrs

theorem Agreement.store (h : Agreement P timed m l) (entry : MemoryEntry) :
    Agreement P timed (m.store P entry).1 l := by
  unfold LayeredMemory.store
  split
  · exact h
  · rename_i e _
    split
    · exact h
    · rename_i htier
      refine h.frame (extend_ledger m e.agentId e.tier [e]) fun role tier ht rs hrs => ?_
      show List.Forall₂ _ ((m.extend e.agentId e.tier [e]).getTier role tier) rs
      rw [getTier_extend, if_neg, append_nil]
      · exact hrs
      · rintro ⟨-, rfl⟩
        exact htier ht

/-! ## Runs -/

/-- The two clock readings of a delete are the same: the one the tombstone is built at and the one the
ledger commits it at. -/
def Op.ReadsOneClock : Op → Prop
  | .delete _ _ _ _ now inputs => now = inputs.now
  | _ => True

theorem Agreement.step (h : Agreement P timed m l) (op : Op) (hop : timed → op.ReadsOneClock) :
    ∃ l', Agreement P timed (op.run P m) l' ∧ Follows P l l' := by
  cases op with
  | createWorking => exact h.creation (creation_working ..)
  | create => exact h.creation (creation_durable ..)
  | createBatch => exact h.creation (creation_batch ..)
  | createWorkingBatch => exact h.creation (creation_workingBatch ..)
  | update agentId namespace_ entryId newContent newRevisionId now inputs =>
    unfold Op.run updateWorkingDurable
    dsimp only
    split
    · exact ⟨l, h, .inl rfl⟩
    · exact h.mutate updateMutation_appends
  | delete agentId namespace_ entryId newRevisionId now inputs =>
    exact h.mutate (deleteMutation_appends hop)
  | restore agentId => exact ⟨l, h.restore agentId, .inl rfl⟩
  | «recall» agentId clock => exact ⟨l, h.recall agentId clock, .inl rfl⟩
  | touch agentId entryId now => exact ⟨l, h.touch agentId entryId now, .inl rfl⟩
  | store entry => exact ⟨l, h.store entry, .inl rfl⟩

end

theorem Agreement.run {m : LayeredMemory} (h : Agreement P timed m l) (ops : List Op)
    (hops : timed → ∀ op ∈ ops, op.ReadsOneClock) : ∃ l', Agreement P timed (runOps P m ops) l' := by
  induction ops generalizing m l with
  | nil => exact ⟨l, h⟩
  | cons op ops ih =>
    obtain ⟨l', h', -⟩ := h.step op fun ht => hops ht op mem_cons_self
    exact ih h' fun ht op' hop' => hops ht op' (mem_cons_of_mem _ hop')

theorem agreement_new {t : Prop} {st : LedgerStorage} {rootHash viewHash : String} :
    Agreement P t (LayeredMemory.new ⟨st, .genesis rootHash viewHash⟩) ⟨st, .genesis rootHash viewHash⟩ :=
  ⟨rfl, sound_genesis rootHash viewHash, fun _ => .absent, fun role tier _ => by cases tier <;> exact .nil⟩

end Plico.Layered
