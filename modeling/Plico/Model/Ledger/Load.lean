import Plico.Framework.HashChain
import Plico.Model.Ledger.Storage

/-!
# Opening the ledger (memory/ledger/store.rs)

`ensureGenesis` writes the first root into an empty store and `loadState` reads a ledger back: it
follows the chain of roots to genesis, validates the snapshot of every generation on the way, and
returns the logs and the view of the active root. The loops that follow previous-hash links run with
the number of stored objects as their fuel, which is as many links as they can follow without meeting
a hash twice.
-/

namespace Plico.Ledger

variable (P : LedgerPlatform)

/-! ## Segments -/

def segmentSchema : LogKind → String
  | .revision => revisionSegmentSchema
  | .policy => policySegmentSchema
  | .relation => relationSegmentSchema

section Segments

variable {α : Type} (codec : Serde (Segment α)) (kind : LogKind) (st : LedgerStorage)

def readSegment (hash : String) : Except LedgerError (Segment α) := do
  let segment ← readHashedObject codec st hash
  verifySegmentHash P codec segment hash
  refuse (segment.schema ≠ segmentSchema kind ∨ segment.records.isEmpty) (.invalid "invalid_segment")
  pure segment

/-- Append one segment; the expected first sequence and the records so far are the state. -/
def appendSegment (s : Nat × List α) (segment : Segment α) : Except LedgerError (Nat × List α) := do
  refuse (segment.firstSequence ≠ s.1 ∨
    segment.lastSequence ≠ segment.firstSequence + segment.records.length - 1)
    (.invalid "non_contiguous_segment_sequence")
  pure (segment.lastSequence + 1, s.2 ++ segment.records)

def loadSegmentChain (head : Option String) (watermark : Nat) : Except LedgerError (List α) :=
  if watermark = 0 then do
    refuse head.isSome (.invalid "empty_log_has_segment")
    pure []
  else do
    let segments ← walk (readSegment P codec kind st) (·.previousSegmentHash) (.invalid "segment_cycle")
      (st.keys.length + 1) [] head
    let (_, records) ← (segments.reverse.map Prod.snd).foldlM appendSegment (1, [])
    refuse (records.length ≠ watermark) (.invalid "log_head_sequence_mismatch")
    pure records

def headExtends (current previous : Option String) : Except LedgerError Bool :=
  match previous with
  | none => .ok true
  | some previous =>
    reaches (readSegment P codec kind st) (·.previousSegmentHash) previous (st.keys.length + 1) [] current

end Segments

variable (st : LedgerStorage)
variable (root : LedgerRoot)

def loadRevisions : Except LedgerError (List CanonicalRevision) :=
  loadSegmentChain P P.revisionSegment .revision st root.revisionHead root.revisionWatermark

def loadPolicies : Except LedgerError (List PolicyRecord) :=
  loadSegmentChain P P.policySegment .policy st root.policyHead root.policyWatermark

def loadRelations : Except LedgerError (List RelationRecord) :=
  loadSegmentChain P P.relationSegment .relation st root.relationHead root.relationWatermark

/-! ## Roots -/

def verifyMigrationManifestObjects (manifestHash : Option String) : Except LedgerError Unit :=
  match manifestHash with
  | none => .ok ()
  | some manifestHash => do
    let manifest ← readHashedObject P.migrationManifest st manifestHash
    manifest.verifyHash P manifestHash
    let source ← readHashedObject P.sourceManifest st manifest.sourceManifestHash
    source.verifyHash P manifest.sourceManifestHash

def validateMigrationBoundary : Except LedgerError Unit := do
  let manifestHash ← required root.migrationManifestHash (.invalid "missing_migration_manifest")
  let manifest ← readHashedObject P.migrationManifest st manifestHash
  manifest.verifyHash P manifestHash
  let source ← readHashedObject P.sourceManifest st manifest.sourceManifestHash
  source.verifyHash P manifest.sourceManifestHash
  refuse (manifest.importedAt ≠ root.committedAt ∨ manifest.importedByRole ≠ root.committedByRole)
    (.invalid "migration_manifest_commit_boundary_mismatch")
  let revisions ← loadRevisions P st root
  let policies ← loadPolicies P st root
  let relations ← loadRelations P st root
  manifest.validateTargetRecords source revisions policies relations.length

/-- The stored view carries the generation and the watermarks of its root. -/
def viewMatchesRoot (view : CurrentView) : Bool :=
  view.schema == currentViewSchema && view.generation == root.generation &&
    view.revisionWatermark == root.revisionWatermark && view.policyWatermark == root.policyWatermark &&
    view.relationWatermark == root.relationWatermark

def validateRootSnapshot : Except LedgerError Unit := do
  let view ← readHashedObject P.view st root.currentViewHash
  verifyViewHash P view root.currentViewHash
  let revisions ← loadRevisions P st root
  let policies ← loadPolicies P st root
  let relations ← loadRelations P st root
  validateRevisions P.toPlatform revisions
  validatePolicies P.toPlatform policies revisions
  validateRelations P.toPlatform relations revisions
  verifyMigrationManifestObjects P st root.migrationManifestHash
  let rebuilt ← rebuildCurrentView root.generation revisions policies root.relationWatermark
  let viewBytes ← jcs P.view view
  let rebuiltBytes ← jcs P.view rebuilt
  refuse (viewMatchesRoot root view = false ∨ viewBytes ≠ rebuiltBytes) (.invalid "historical_root_view_mismatch")

def refuseUnlessPrefix (c : Prop) [Decidable c] : Except LedgerError Unit :=
  refuse (¬ c) (.invalid "historical_root_not_prefix")

/-- The logs of `root` extend those of `previous`, and a migration can only be the second root. -/
def validateRootPrefix (root previous : LedgerRoot) : Except LedgerError Unit := do
  refuseUnlessPrefix (previous.revisionWatermark ≤ root.revisionWatermark ∧
    previous.policyWatermark ≤ root.policyWatermark ∧ previous.relationWatermark ≤ root.relationWatermark)
  let revisions ← headExtends P P.revisionSegment .revision st root.revisionHead previous.revisionHead
  refuseUnlessPrefix (revisions = true)
  let policies ← headExtends P P.policySegment .policy st root.policyHead previous.policyHead
  refuseUnlessPrefix (policies = true)
  let relations ← headExtends P P.relationSegment .relation st root.relationHead previous.relationHead
  refuseUnlessPrefix (relations = true)
  refuseUnlessPrefix (¬ (previous.migrationManifestHash.isSome ∧
      root.migrationManifestHash ≠ previous.migrationManifestHash) ∧
    ¬ (previous.migrationManifestHash.isNone ∧ root.migrationManifestHash.isSome ∧ previous.generation ≠ 0))

/-- The shape of the root that `ensureGenesis` writes. -/
def isGenesisRoot : Bool :=
  root.revisionHead.isNone && root.revisionWatermark == 0 && root.policyHead.isNone &&
    root.policyWatermark == 0 && root.relationHead.isNone && root.relationWatermark == 0 &&
    root.migrationManifestHash.isNone && root.committedAt == 0 && root.committedByRole == personalOwnerRoleId

/-- Follow the chain of roots to genesis. Every link lowers the expected generation by one. -/
def validateRootChain (st : LedgerStorage) :
    Nat → List String → String → LedgerRoot → Except LedgerError Unit
  | 0, seen, hash, root => do
    refuse (hash ∈ seen ∨ root.schema ≠ rootSchema ∨ root.generation ≠ 0) (.invalid "invalid_root_chain")
    validateRootSnapshot P st root
    match root.previousRootHash with
    | some _ => .error (.invalid "invalid_root_generation")
    | none => refuse (isGenesisRoot root = false) (.invalid "truncated_root_chain")
  | expectedGeneration + 1, seen, hash, root => do
    refuse (hash ∈ seen ∨ root.schema ≠ rootSchema ∨ root.generation ≠ expectedGeneration + 1)
      (.invalid "invalid_root_chain")
    validateRootSnapshot P st root
    match root.previousRootHash with
    | some previousHash => do
      let previous ← readHashedObject P.root st previousHash
      verifyRootHash P previous previousHash
      checkIf (root.migrationManifestHash.isSome ∧ previous.migrationManifestHash.isNone)
        (validateMigrationBoundary P st root)
      validateRootPrefix P st root previous
      validateRootChain st expectedGeneration (hash :: seen) previousHash previous
    | none => .error (.invalid "truncated_root_chain")

def loadState : Except LedgerError LedgerState := do
  let pointerBytes ← required (readActive st) (.invalid "missing_active_pointer")
  let pointer ← required (P.pointer.fromSlice pointerBytes) .serialization
  let canonical ← jcs P.pointer pointer
  refuse (canonical ≠ pointerBytes) (.invalid "non_canonical_active_pointer")
  refuse (pointer.schema ≠ rootPointerSchema) (.invalid "unsupported_active_pointer_schema")
  let root ← readHashedObject P.root st pointer.rootHash
  verifyRootHash P root pointer.rootHash
  refuse (root.schema ≠ rootSchema) (.invalid "invalid_ledger_root")
  validateRootChain P st root.generation [] pointer.rootHash root
  let view ← readHashedObject P.view st root.currentViewHash
  verifyViewHash P view root.currentViewHash
  let revisions ← loadRevisions P st root
  let policies ← loadPolicies P st root
  let relations ← loadRelations P st root
  validateRevisions P.toPlatform revisions
  validatePolicies P.toPlatform policies revisions
  validateRelations P.toPlatform relations revisions
  let rebuilt ← rebuildCurrentView root.generation revisions policies root.relationWatermark
  refuse (viewMatchesRoot root view = false) (.invalid "current_view_rebuild_mismatch")
  let viewBytes ← jcs P.view view
  let rebuiltBytes ← jcs P.view rebuilt
  refuse (viewBytes ≠ rebuiltBytes) (.invalid "current_view_rebuild_mismatch")
  pure
    { poisoned := false
      rootHash := some pointer.rootHash
      root := some root
      view := some view
      revisions, policies, relations }

/-! ## Genesis -/

def genesisView : CurrentView :=
  { schema := currentViewSchema
    generation := 0
    revisionWatermark := 0
    policyWatermark := 0
    relationWatermark := 0
    streams := [] }

def genesisRoot (viewHash : String) : LedgerRoot :=
  { schema := rootSchema
    generation := 0
    previousRootHash := none
    revisionHead := none
    revisionWatermark := 0
    policyHead := none
    policyWatermark := 0
    relationHead := none
    relationWatermark := 0
    currentViewHash := viewHash
    migrationManifestHash := none
    committedAt := 0
    committedByRole := personalOwnerRoleId }

/-- The state of a ledger that holds only the genesis root. -/
def LedgerState.genesis (rootHash viewHash : String) : LedgerState :=
  { poisoned := false
    rootHash := some rootHash
    root := some (genesisRoot viewHash)
    view := some genesisView
    revisions := []
    policies := []
    relations := [] }

def activePointer (rootHash : String) : ActivePointer := ⟨rootPointerSchema, rootHash⟩

/-- Write one object and go on with the store it leaves. -/
def thenPut (hash : String) (bytes : Bytes)
    (next : LedgerStorage → Except LedgerError LedgerStorage) : Except LedgerError LedgerStorage :=
  match putImmutable st hash bytes .none with
  | (st, .ok _) => next st
  | (_, .error e) => .error (.io e)

def ensureGenesis : Except LedgerError LedgerStorage :=
  if (readActive st).isSome then .ok st
  else do
    let (viewBytes, viewHash) ← canonicalBytesAndHash P viewDomain P.view genesisView
    let (rootBytes, rootHash) ← canonicalBytesAndHash P rootDomain P.root (genesisRoot viewHash)
    refuse (∃ hash ∈ st.keys, hash ∉ [viewHash, rootHash]) (.invalid "missing_active_pointer")
    thenPut st viewHash viewBytes fun st =>
      thenPut st rootHash rootBytes fun st => do
        let pointerBytes ← jcs P.pointer (activePointer rootHash)
        pure (st.publish pointerBytes .none)

end Plico.Ledger
