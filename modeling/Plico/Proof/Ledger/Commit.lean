import Plico.Model.Ledger.Commit
import Plico.Proof.Ledger.View

/-!
# What a commit can do

`commitRecords_outcome` lists every way a commit can end, with the storage and the state it leaves.
`prepared_of_ok` says what an accepted batch has passed, item by item (`BatchAdmits`), and what the
next generation is made of. Every invariant of the ledger is derived from these two.
-/

namespace Plico.Ledger

/-! ## The batch -/

/-- An item of a batch passed the checks against the view and the items before it. -/
structure BatchAdmits (roleId : String) (tier : MemoryTier) (view : CurrentView)
    (pre : List (CanonicalRevision × ExpectedHead)) (item : CanonicalRevision × ExpectedHead) : Prop where
  tier : item.1.cognitiveTier = tier
  author : item.2 = .absent → item.1.committedByRole = roleId
  fresh : ∀ q ∈ pre, q.1.memoryId ≠ item.1.memoryId
  head : headMatches item.1 (headFor view item.1.memoryId) item.2 = true

variable {seen : List MemoryId} {view : CurrentView}

theorem checkBatchItem_eq_ok {roleId : String} {tier : MemoryTier}
    {pre : List (CanonicalRevision × ExpectedHead)} {item : CanonicalRevision × ExpectedHead}
    (h : checkBatchItem roleId tier view (pre.map (·.1.memoryId)).reverse item = .ok seen) :
    BatchAdmits roleId tier view pre item ∧ seen = ((pre ++ [item]).map (·.1.memoryId)).reverse := by
  obtain ⟨_, hbound, _, hdup, _, hhead, h⟩ := of_seq₃ h
  simp only [refuse_eq_ok, not_or, not_not, not_and, Bool.not_eq_false] at hbound hdup hhead
  refine ⟨⟨hbound.1, hbound.2, fun q hq he => hdup ?_, hhead⟩, ?_⟩
  · simpa using ⟨q.1, ⟨q.2, hq⟩, he⟩
  · simpa using (pure_ok_inj.mp h).symm

theorem batch_grown {roleId : String} {tier : MemoryTier} {batch : List (CanonicalRevision × ExpectedHead)}
    (h : batch.foldlM (checkBatchItem roleId tier view) [] = .ok seen) :
    Grown (BatchAdmits roleId tier view) batch := by
  refine (grown_of_scan (A := fun pre seen => seen = (pre.map (·.1.memoryId)).reverse) rfl
    (fun {pre s item s'} hpre hstep => ?_) h).1
  subst hpre
  exact checkBatchItem_eq_ok hstep

def ExpectedHead.id : ExpectedHead → Option MemoryRevisionId
  | .absent => none
  | .revision id => some id

theorem headMatches_iff {r : CanonicalRevision} {actual : Option MemoryRevisionId} {expected : ExpectedHead} :
    headMatches r actual expected = true ↔ actual = expected.id ∧ r.parentRevisionId = expected.id := by
  cases expected <;> simp [headMatches, ExpectedHead.id]

/-! ## Preparation -/

variable (P : LedgerPlatform)

/-- The revisions of the batch as the writer stamps them. -/
def stampAll (s : LedgerState) (roleId : String) (committedAt : Nat) (revisions : List CanonicalRevision) :
    List CanonicalRevision :=
  revisions.mapIdx fun offset revision => stamp roleId committedAt (s.revisions.length + 1 + offset) revision

/-- The view a commit is checked against. -/
def LedgerState.currentView (s : LedgerState) : CurrentView :=
  s.view.getD genesisView

/-- What an accepted commit has passed, and the logs and the view it leads to. -/
structure Prepared (s : LedgerState) (roleId : String) (tier : MemoryTier) (revisions : List CanonicalRevision)
    (expectedHeads : List ExpectedHead) (inputs : CommitInputs) (c : PreparedCommit) : Prop where
  length : revisions.length = expectedHeads.length
  nonempty : revisions ≠ []
  durable : tier ≠ .ephemeral
  healthy : s.poisoned = false
  batch : Grown (BatchAdmits roleId tier s.currentView) (revisions.zip expectedHeads)
  writers : ∀ r ∈ revisions, checkWriter roleId s.currentView s.policies r = .ok ()
  newRevisions : c.newRevisions = stampAll s roleId inputs.now revisions
  revisions : c.revisions = s.revisions ++ c.newRevisions
  policies : c.policies = s.policies ++ newPolicies roleId inputs.now (s.policies.length + 1) inputs.policyIds
    (c.newRevisions.zip expectedHeads)
  validRevisions : validateRevisions P.toPlatform c.revisions = .ok ()
  validPolicies : validatePolicies P.toPlatform c.policies c.revisions = .ok ()
  encoded : encodeCommit P s roleId inputs.now c.newRevisions (newPolicies roleId inputs.now (s.policies.length + 1)
    inputs.policyIds (c.newRevisions.zip expectedHeads)) = .ok c

variable {P} {c : PreparedCommit} {s : LedgerState} {calls : List (CommitCall × CommitInputs)}

theorem canonicalBytesAndHash_eq_ok {α : Type} {domain : String} {codec : Serde α} {value : α} {bytes : Bytes}
    {hash : String} (h : canonicalBytesAndHash P domain codec value = .ok (bytes, hash)) :
    codec.toVec value = some bytes ∧ hash = domainHash P domain bytes := by
  obtain ⟨b, hb, h⟩ := of_seq h
  cases h
  exact ⟨jcs_eq_ok.mp hb, rfl⟩

/-- The parts of an encoded commit. -/
structure Encoded (P : LedgerPlatform) (s : LedgerState) (roleId : String) (committedAt : Nat)
    (revisions : List CanonicalRevision) (policies : List PolicyRecord) (c : PreparedCommit)
    (revisionBytes : Bytes) (policy : Option (Nat × Bytes × String)) (viewBytes rootBytes : Bytes) : Prop where
  segment : P.revisionSegment.toVec (revisionSegmentOf s revisions) = some revisionBytes
  policyObject_eq : policyObject P s policies = .ok policy
  generation : c.generation = s.root.elim 1 (·.generation + 1)
  view : rebuildCurrentView c.generation c.revisions c.policies s.relations.length = .ok c.view
  view_bytes : P.view.toVec c.view = some viewBytes
  root : c.root = candidateRoot s roleId committedAt c.generation (domainHash P segmentDomain revisionBytes)
    (revisionSegmentOf s revisions).lastSequence policy (domainHash P viewDomain viewBytes)
  root_bytes : P.root.toVec c.root = some rootBytes
  rootHash : c.rootHash = domainHash P rootDomain rootBytes
  newRevisions : c.newRevisions = revisions
  revisions : c.revisions = s.revisions ++ revisions
  policies : c.policies = s.policies ++ policies
  objects : c.objects = (domainHash P segmentDomain revisionBytes, revisionBytes) ::
    (policy.toList.map fun p => (p.2.2, p.2.1)) ++
      [(domainHash P viewDomain viewBytes, viewBytes), (c.rootHash, rootBytes)]

theorem encoded_of_ok {roleId : String} {committedAt : Nat} {revisions : List CanonicalRevision}
    {policies : List PolicyRecord} (h : encodeCommit P s roleId committedAt revisions policies = .ok c) :
    ∃ revisionBytes policy viewBytes rootBytes,
      Encoded P s roleId committedAt revisions policies c revisionBytes policy viewBytes rootBytes := by
  obtain ⟨⟨revisionBytes, revisionHash⟩, hseg, h⟩ := of_seq h
  obtain ⟨policy, hpolicy, view, hview, ⟨viewBytes, viewHash⟩, hvb, h⟩ := of_seq₃ h
  obtain ⟨⟨rootBytes, rootHash⟩, hrb, h⟩ := of_seq h
  cases h
  obtain ⟨hsegb, rfl⟩ := canonicalBytesAndHash_eq_ok hseg
  obtain ⟨hvbb, rfl⟩ := canonicalBytesAndHash_eq_ok hvb
  obtain ⟨hrbb, rfl⟩ := canonicalBytesAndHash_eq_ok hrb
  exact ⟨revisionBytes, policy, viewBytes, rootBytes, hsegb, hpolicy, rfl, hview, hvbb, rfl, hrbb, rfl, rfl, rfl,
    rfl, rfl⟩

section

variable {s : LedgerState} {roleId : String} {tier : MemoryTier} {revisions : List CanonicalRevision}
  {expectedHeads : List ExpectedHead} {inputs : CommitInputs} {c : PreparedCommit}

theorem prepared_of_ok (h : prepareCommit P s roleId tier revisions expectedHeads inputs = .ok c) :
    Prepared P s roleId tier revisions expectedHeads inputs c := by
  obtain ⟨_, hshape, _, htier, _, hpoison, h⟩ := of_seq₃ h
  obtain ⟨seen, hbatch, us, hwriters, _, hrev, h⟩ := of_seq₃ h
  obtain ⟨_, hpol, h⟩ := of_seq h
  simp only [refuse_eq_ok, not_or, not_not, Bool.not_eq_true, List.isEmpty_eq_false_iff] at hshape htier hpoison
  obtain ⟨revisionBytes, policy, viewBytes, rootBytes, henc⟩ := encoded_of_ok h
  have hnew : c.newRevisions = stampAll s roleId inputs.now revisions := henc.newRevisions
  refine ⟨hshape.1, hshape.2, htier, hpoison, batch_grown hbatch,
    fun r hr => ok_of_mapM hwriters hr |>.elim fun _ h => h, hnew, ?_, ?_, ?_, ?_, ?_⟩
  · rw [henc.revisions, hnew]; rfl
  · rw [henc.policies, hnew]; rfl
  · rw [henc.revisions]; exact hrev
  · rw [henc.policies, henc.revisions]; exact hpol
  · rw [hnew]; exact h

end

/-! ## Outcomes -/

section

variable (l : CASCanonicalLedger) (roleId : String) (tier : MemoryTier) (revisions : List CanonicalRevision)
  (expectedHeads : List ExpectedHead) (inputs : CommitInputs)

variable (P) in
/-- Every way a commit can end: where it stopped, and the ledger and the result it leaves. -/
inductive CommitOutcome : CASCanonicalLedger × Except LedgerError (List LedgerCommit) → Prop where
  | refused {e : LedgerError} :
      prepareCommit P l.state roleId tier revisions expectedHeads inputs = .error e →
      CommitOutcome (l, .error e)
  | interrupted {c : PreparedCommit} {st : LedgerStorage} {e : LedgerError} :
      prepareCommit P l.state roleId tier revisions expectedHeads inputs = .ok c →
      writeObjects l.storage c.objects inputs.putFaults = (st, .error e) →
      CommitOutcome (⟨st, l.state⟩, .error e)
  | unpublished {c : PreparedCommit} {st : LedgerStorage} {e : LedgerError} :
      prepareCommit P l.state roleId tier revisions expectedHeads inputs = .ok c →
      writeObjects l.storage c.objects inputs.putFaults = (st, .ok ()) →
      CommitOutcome (⟨st, l.state⟩, .error e)
  | indeterminate {c : PreparedCommit} {st : LedgerStorage} {bytes : Bytes} :
      prepareCommit P l.state roleId tier revisions expectedHeads inputs = .ok c →
      writeObjects l.storage c.objects inputs.putFaults = (st, .ok ()) →
      P.pointer.toVec (activePointer c.rootHash) = some bytes →
      inputs.publishFault = .unsynced →
      CommitOutcome (⟨st.publish bytes .unsynced, { l.state with poisoned := true }⟩, .error .commitIndeterminate)
  | committed {c : PreparedCommit} {st : LedgerStorage} {bytes : Bytes} :
      prepareCommit P l.state roleId tier revisions expectedHeads inputs = .ok c →
      writeObjects l.storage c.objects inputs.putFaults = (st, .ok ()) →
      P.pointer.toVec (activePointer c.rootHash) = some bytes →
      inputs.publishFault = .none →
      CommitOutcome (⟨st.publish bytes .none, c.apply l.state⟩, .ok (c.receipts inputs.now))

theorem commitRecords_outcome : CommitOutcome P l roleId tier revisions expectedHeads inputs
    (commitRecords P l roleId tier revisions expectedHeads inputs) := by
  unfold commitRecords
  split
  · next e hprep => exact .refused hprep
  · rename_i c hprep
    split
    · next st e hwrite => exact .interrupted hprep hwrite
    · rename_i st u hwrite
      unfold publishCommit
      split
      · exact .unpublished hprep hwrite
      · rename_i bytes hbytes
        cases hfault : inputs.publishFault with
        | none => exact .committed hprep hwrite (jcs_eq_ok.mp hbytes) hfault
        | lost => exact .unpublished hprep hwrite
        | unsynced => exact .indeterminate hprep hwrite (jcs_eq_ok.mp hbytes) hfault

end

/-! ## Requests -/

namespace CommitCall

def roleId : CommitCall → String
  | .expected roleId .. => roleId
  | .roots roleId .. => roleId

def tier : CommitCall → MemoryTier
  | .expected _ tier .. => tier
  | .roots _ tier _ => tier

def revisions : CommitCall → List CanonicalRevision
  | .expected _ _ _ revision => [revision]
  | .roots _ _ revisions => revisions

def expectedHeads : CommitCall → List ExpectedHead
  | .expected _ _ expectedHead _ => [expectedHead]
  | .roots _ _ revisions => List.replicate revisions.length .absent

/-- The revisions of a request with the heads they expect. -/
def items (call : CommitCall) : List (CanonicalRevision × ExpectedHead) :=
  call.revisions.zip call.expectedHeads

theorem length_expectedHeads (call : CommitCall) : call.revisions.length = call.expectedHeads.length := by
  cases call <;> simp [revisions, expectedHeads]

end CommitCall

variable {inputs : CommitInputs}

theorem receipts_length {roleId : String} {tier : MemoryTier} {revisions : List CanonicalRevision}
    {expectedHeads : List ExpectedHead} (h : Prepared P s roleId tier revisions expectedHeads inputs c) (now : Nat) :
    (c.receipts now).length = revisions.length := by
  simp [PreparedCommit.receipts, h.newRevisions, stampAll]

variable {l : CASCanonicalLedger}

/-- Both entry points are one batch commit. -/
theorem run_eq_commitRecords {call : CommitCall} :
    call.run P l inputs =
      commitRecords P l call.roleId call.tier call.revisions call.expectedHeads inputs := by
  cases call with
  | roots roleId tier revisions => rfl
  | expected roleId tier expectedHead revision =>
    have hout := commitRecords_outcome (P := P) l roleId tier [revision] [expectedHead] inputs
    simp only [CommitCall.run, commitExpected, CommitCall.roleId, CommitCall.tier, CommitCall.revisions,
      CommitCall.expectedHeads]
    generalize commitRecords P l roleId tier [revision] [expectedHead] inputs = out at hout
    cases hout with
    | committed hprep _ _ _ =>
      have hlen := receipts_length (prepared_of_ok hprep) inputs.now
      obtain ⟨receipt, hreceipt⟩ := List.length_eq_one_iff.mp hlen
      simp [hreceipt, Except.map]
    | refused _ => rfl
    | interrupted _ _ => rfl
    | unpublished _ _ => rfl
    | indeterminate _ _ _ _ => rfl

theorem run_outcome (l : CASCanonicalLedger) (call : CommitCall) (inputs : CommitInputs) :
    CommitOutcome P l call.roleId call.tier call.revisions call.expectedHeads inputs (call.run P l inputs) := by
  rw [run_eq_commitRecords]
  exact commitRecords_outcome l call.roleId call.tier call.revisions call.expectedHeads inputs

/-- A request either commits its batch or leaves both logs as they were. -/
theorem run_cases (l : CASCanonicalLedger) (call : CommitCall) (inputs : CommitInputs) :
    (∃ c, Prepared P l.state call.roleId call.tier call.revisions call.expectedHeads inputs c ∧
      (call.run P l inputs).1.state = c.apply l.state ∧ (call.run P l inputs).2 = .ok (c.receipts inputs.now)) ∨
    (∃ e, (call.run P l inputs).2 = .error e ∧ (call.run P l inputs).1.state.revisions = l.state.revisions ∧
      (call.run P l inputs).1.state.policies = l.state.policies) := by
  have hout := run_outcome (P := P) l call inputs
  generalize call.run P l inputs = out at hout ⊢
  cases hout with
  | refused | interrupted | unpublished | indeterminate => exact .inr ⟨_, rfl, rfl, rfl⟩
  | committed hprep _ _ _ => exact .inl ⟨_, prepared_of_ok hprep, rfl, rfl⟩

theorem runCommits_append {calls' : List (CommitCall × CommitInputs)} :
    runCommits P l (calls ++ calls') = runCommits P (runCommits P l calls) calls' :=
  List.foldl_append

end Plico.Ledger
