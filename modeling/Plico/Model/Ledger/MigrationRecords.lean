import Plico.Model.Ledger.Storage

/-!
# Records of an offline migration (memory/ledger/model.rs, mod.rs, migration_manifest.rs)

The factories through which the migrator builds revisions, policies and the two manifests, and the ids it derives.
-/

namespace Plico.Ledger

variable (P : LedgerPlatform)

/-! ## Ids -/

/-- `Uuid::NAMESPACE_OID`. -/
def namespaceOid : Uuid := 0x6ba7b8129dad11d180b400c04fd430c8

def deterministicMigrationRevisionId (sourceManifestHash legacyId kind : String) : String :=
  P.hyphenated (P.newV5 namespaceOid
    (utf8 ("plico-memory-migration:" ++ sourceManifestHash ++ ":" ++ legacyId ++ ":" ++ kind)))

def deterministicMigrationPolicyId (sourceManifestHash memoryId : String) (sequence : Nat) : String :=
  P.hyphenated (P.newV5 namespaceOid
    (utf8 ("plico-memory-policy:" ++ sourceManifestHash ++ ":" ++ memoryId ++ ":" ++ toString sequence)))

/-! ## Revisions -/

structure MigrationRevisionInput where
  sequence : Nat
  memoryId : MemoryId
  revisionId : MemoryRevisionId
  parentRevisionId : Option MemoryRevisionId
  content : MemoryContent
  tags : List String
  memoryType : MemoryType
  cognitiveTier : MemoryTier
  deletedAt : Option Nat
  committedAt : Nat
  actor : String

def CanonicalRevision.migrationImport (input : MigrationRevisionInput) : Except LedgerError CanonicalRevision := do
  let hash ← Ledger.contentHash P.toPlatform input.content
  pure
    { schema := revisionSchema
      sequence := input.sequence
      memoryId := input.memoryId
      revisionId := input.revisionId
      parentRevisionId := input.parentRevisionId
      content := input.content
      contentHash := hash
      tags := input.tags
      memoryType := input.memoryType
      cognitiveTier := input.cognitiveTier
      deletedAt := input.deletedAt
      committedAt := input.committedAt
      committedByRole := input.actor }

/-! ## Policies -/

structure MigrationPolicyInput where
  sequence : Nat
  policyId : String
  memoryId : MemoryId
  effectiveFromRevisionId : MemoryRevisionId
  sourceRole : String
  committedAt : Nat
  actor : String

def validateRole (role : String) : Except LedgerError Unit :=
  refuse (isBlank role) (.invalid "empty_migration_role")

def strictSortedRoles (roles : List String) : Bool :=
  roles.all (fun role => !isBlank role) && isSortedUnique roles

/-- The record that both factories build. -/
def MigrationPolicyInput.policy (input : MigrationPolicyInput) (mode : PolicyMode) (readerRoles : List String) :
    PolicyRecord where
  schema := policySchema
  sequence := input.sequence
  policyId := input.policyId
  memoryId := input.memoryId
  effectiveFromRevisionId := input.effectiveFromRevisionId
  originRoleId := input.sourceRole
  mode := mode
  readerRoles := readerRoles
  writerRoles := sortDedup [input.sourceRole, personalOwnerRoleId]
  committedAt := input.committedAt
  committedByRole := input.actor

def PolicyRecord.migrationPrivate (input : MigrationPolicyInput) : Except LedgerError PolicyRecord := do
  validateRole input.sourceRole
  validateRole input.actor
  pure (input.policy .private_ (sortDedup [input.sourceRole, personalOwnerRoleId]))

def PolicyRecord.migrationExplicitRoleSet (input : MigrationPolicyInput) (readerRoles : List String) :
    Except LedgerError PolicyRecord := do
  validateRole input.sourceRole
  validateRole input.actor
  refuse (readerRoles = [] ∨ strictSortedRoles readerRoles = false ∨ input.sourceRole ∉ readerRoles ∨
    personalOwnerRoleId ∉ readerRoles) (.invalid "invalid_migration_audience")
  pure (input.policy .explicitRoleSet readerRoles)

def validateMigrationRecordSets (revisions : List CanonicalRevision) (policies : List PolicyRecord) :
    Except LedgerError Unit := do
  validateRevisions P.toPlatform revisions
  validatePolicies P.toPlatform policies revisions

/-! ## Manifests -/

/-- `SourceManifest::new` on the fields of its input. -/
def SourceManifest.new (m : SourceManifest) : Except LedgerError SourceManifest := do
  m.validate
  pure m

def SourceManifest.canonicalBytesAndHash (m : SourceManifest) : Except LedgerError (Bytes × String) := do
  m.validate
  Ledger.canonicalBytesAndHash P sourceManifestDomain P.sourceManifest m

/-- `MigrationManifest::new` on the fields of its input. -/
def MigrationManifest.new (m : MigrationManifest) : Except LedgerError MigrationManifest := do
  m.validateShape P.toPlatform
  pure m

def MigrationManifest.canonicalBytesAndHash (m : MigrationManifest) : Except LedgerError (Bytes × String) := do
  m.validateShape P.toPlatform
  Ledger.canonicalBytesAndHash P targetManifestDomain P.migrationManifest m

end Plico.Ledger
