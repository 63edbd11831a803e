import Plico.Model.Ledger.Commit
import Plico.Model.Projection.CurrentView

/-!
# Canonical truth as the projection sees it (memory/ledger/store.rs, memory/projection/store.rs)

A `CanonicalProjectionSnapshot` is the ledger's revisions with its chain of roots back to genesis.
`expectedAbsentReason` says which revisions get no embedding, and `validateCandidate` compares a
candidate view with a snapshot: its sources are canonical, its reconciled watermark is an ancestor, and
every revision up to that watermark is classified as the ledger up to that watermark says.
-/

namespace Plico.Projection

open Plico.Ledger

variable (P : LedgerPlatform)

structure CanonicalProjectionSnapshot where
  genesisRootHash : String
  genesisRoot : LedgerRoot
  rootHash : String
  root : LedgerRoot
  rootChain : List (String × LedgerRoot)
  revisions : List CanonicalRevision

def readRoot (st : LedgerStorage) (hash : String) : Except LedgerError LedgerRoot := do
  let root ← readHashedObject P.root st hash
  verifyRootHash P root hash
  pure root

/-- The loop that follows the previous roots has no bound of its own; it is run with one step for each
stored object, which is all a chain without a repeated root can need. -/
def projectionSnapshotFromState (st : LedgerStorage) (s : LedgerState) :
    Except LedgerError CanonicalProjectionSnapshot := do
  let rootHash ← required s.rootHash (.invalid "missing_active_root")
  let root ← required s.root (.invalid "missing_active_root")
  let previous ← walk (readRoot P st) (·.previousRootHash) (.invalid "root_chain_does_not_end")
    (st.keys.length + 1) [] root.previousRootHash
  let rootChain := ((rootHash, root) :: previous).reverse
  let genesis ← required rootChain.head? (.invalid "missing_genesis_root")
  pure
    { genesisRootHash := genesis.1
      genesisRoot := genesis.2
      rootHash, root, rootChain
      revisions := s.revisions }

def projectionSnapshot (l : CASCanonicalLedger) : Except LedgerError CanonicalProjectionSnapshot := do
  refuse (l.state.poisoned = true) .writerPoisoned
  projectionSnapshotFromState P l.storage l.state

/-! ## The current source -/

def isEmbeddableTier (tier : MemoryTier) : Bool :=
  tier == .working || tier == .longTerm

/-- The revision that `expected` names, when it is still the live, embeddable head of its memory. -/
def currentProjectionRevision (s : LedgerState) (expected : CanonicalSourceIdentity) :
    Option CanonicalRevision := do
  let actual ← s.revisions.find? fun revision => revision.revisionId = expected.revisionId
  guard (actual.memoryId = expected.memoryId ∧ actual.sequence = expected.revisionSequence ∧
    actual.contentHash = expected.contentHash)
  let view ← s.view
  let stream ← view.streams.find? fun stream => stream.memoryId = actual.memoryId
  guard (stream.deleted = false ∧ stream.headRevisionId = actual.revisionId ∧ actual.deletedAt = none ∧
    isEmbeddableTier actual.cognitiveTier = true)
  guard (∃ policy ∈ s.policies, policy.policyId = stream.policyId ∧ policy.memoryId = actual.memoryId ∧
    personalOwnerRoleId ∈ policy.readerRoles)
  match actual.content with
  | .text text => if isBlank text then none else some actual
  | _ => none

structure CanonicalProjectionGuard where
  source : CanonicalSourceIdentity
  snapshot : CanonicalProjectionSnapshot

/-- Run `complete` with the ledger's lock held, if the source is still current. -/
def withCurrentProjectionSource {α : Type} (l : CASCanonicalLedger) (expected : CanonicalSourceIdentity)
    (complete : CanonicalProjectionGuard → α) : Except LedgerError (Option α) := do
  refuse (l.state.poisoned = true) .writerPoisoned
  if (currentProjectionRevision l.state expected).isNone then pure none
  else do
    let snapshot ← projectionSnapshotFromState P l.storage l.state
    pure (some (complete ⟨expected, snapshot⟩))

/-! ## Watermarks and sources -/

def watermark (hash : String) (root : LedgerRoot) : CanonicalWatermark :=
  ⟨hash, root.generation, root.revisionWatermark, root.policyWatermark, root.relationWatermark⟩

def CanonicalProjectionSnapshot.watermark (canonical : CanonicalProjectionSnapshot) : CanonicalWatermark :=
  Projection.watermark canonical.rootHash canonical.root

def canonicalSource (revision : CanonicalRevision) : CanonicalSourceIdentity :=
  { canonicalKind := "memory_revision"
    memoryId := revision.memoryId
    revisionId := revision.revisionId
    revisionSequence := revision.sequence
    contentHash := revision.contentHash }

structure AuthorizedCurrentRevisionProof where
  source : CanonicalSourceIdentity
  canonicalAncestry : List CanonicalWatermark

/-- Run `observe` with the ledger's lock held, if the revision is a live head that the role may read. -/
def withAuthorizedCurrentRevision {α : Type} (l : CASCanonicalLedger) (trustedRole : String)
    (revisionId : MemoryRevisionId) (observe : AuthorizedCurrentRevisionProof → α) :
    Except LedgerError (Option α) := do
  refuse (l.state.poisoned = true) .writerPoisoned
  match l.state.revisions.find? fun revision => revision.revisionId = revisionId with
  | none => pure none
  | some actual =>
    match l.state.view.bind fun view => streamFor view actual.memoryId with
    | none => pure none
    | some stream =>
      if stream.deleted = true ∨ stream.headRevisionId ≠ actual.revisionId ∨ actual.deletedAt.isSome then pure none
      else if ∃ policy ∈ l.state.policies, policy.policyId = stream.policyId ∧ policy.memoryId = actual.memoryId ∧
          trustedRole ∈ policy.readerRoles then do
        let snapshot ← projectionSnapshotFromState P l.storage l.state
        pure (some (observe ⟨canonicalSource actual, snapshot.rootChain.map fun root => watermark root.1 root.2⟩))
      else pure none

/-! ## Classification -/

/-- Why a revision has no embedding, given the revisions that may supersede it. -/
def expectedAbsentReason (revision : CanonicalRevision) (revisions : List CanonicalRevision) :
    Option AbsentReason :=
  if revisions.any fun candidate => candidate.parentRevisionId == some revision.revisionId then some .superseded
  else if revision.deletedAt.isSome then some .deleted
  else if isEmbeddableTier revision.cognitiveTier = false then some .unsupportedTier
  else
    match revision.content with
    | .text text => if isBlank text then some .blankText else none
    | _ => some .unsupportedContent

/-! ## Validation against a snapshot -/

variable (canonical : CanonicalProjectionSnapshot)

def validateSourceAgainstCanonical (source : CanonicalSourceIdentity) : Except ProjectionError Unit := do
  let revision ← required (canonical.revisions.find? fun revision => revision.revisionId = source.revisionId)
    (.invalid "projection_source_not_canonical")
  refuse (revision.memoryId ≠ source.memoryId ∨ revision.sequence ≠ source.revisionSequence ∨
    revision.contentHash ≠ source.contentHash) (.invalid "projection_source_identity_mismatch")

def validateReconciledCoverage (value : CanonicalWatermark) (canonical : CanonicalProjectionSnapshot) :
    Except ProjectionError Unit := do
  validateWatermark value
  refuse (value ≠ canonical.watermark) (.invalid "canonical_watermark_mismatch")

/-- The sources of the transitions among `records`. -/
def transitionSources (records : List ManifestRecord) : List CanonicalSourceIdentity :=
  records.filterMap fun record =>
    match record.event with
    | .projectionTransition event => some event.source
    | _ => none

/-- The revisions that a watermark covers. -/
def CanonicalProjectionSnapshot.upTo (watermark : Nat) : List CanonicalRevision :=
  canonical.revisions.filter fun revision => revision.sequence ≤ watermark

/-- The state of an entry fits the reason its revision is absent for, if any. -/
def checkClassification (state : ProjectionState) (expected : Option AbsentReason) : Except ProjectionError Unit :=
  match state, expected with
  | .absentByPolicy reason, some expected =>
    refuse (reason ≠ expected) (.invalid "ineligible_revision_has_projection_state")
  | .absentByPolicy _, none => .error (.invalid "eligible_revision_marked_absent")
  | _, some _ => .error (.invalid "ineligible_revision_has_projection_state")
  | _, none => .ok ()

def validateEntry (source : CanonicalWatermark) (entry : ProjectionEntry) : Except ProjectionError Unit :=
  if entry.source.revisionSequence > source.revisionWatermark then
    refuse (entry.state ≠ .queued .canonicalCommit) (.invalid "invalid_write_through_projection_state")
  else do
    let revision ← required (canonical.revisions.find? fun revision => revision.revisionId = entry.source.revisionId)
      (.invalid "projection_source_not_canonical")
    checkClassification entry.state (expectedAbsentReason revision (canonical.upTo source.revisionWatermark))

def validateCandidate (view : ProjectionCurrentView) (records : List ManifestRecord)
    (canonical : CanonicalProjectionSnapshot) : Except ProjectionError Unit := do
  checkAll (validateSourceAgainstCanonical canonical) (transitionSources records)
  let source := view.reconciledSource
  refuse (¬ ∃ ancestor ∈ canonical.rootChain, source = watermark ancestor.1 ancestor.2)
    (.invalid "projection_reconciliation_not_canonical_ancestor")
  let covered := canonical.upTo source.revisionWatermark
  refuse (covered.length ≠ source.revisionWatermark ∨
    ∃ revision ∈ covered, ∀ entry ∈ view.entries, entry.source.revisionId ≠ revision.revisionId)
    (.invalid "projection_reconciliation_incomplete")
  checkAll (validateEntry canonical source) view.entries
  checkIf (source.rootHash = canonical.rootHash) (validateReconciledCoverage source canonical)

end Plico.Projection
