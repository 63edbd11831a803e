import Plico.Model.Projection.Snapshot

/-!
# Stored objects of the projection (memory/projection/hash.rs, store.rs, cas/projection_store.rs)

Manifest objects and artifacts live in two write-once stores. An object is read back through
`parseCanonicalWithSchema`: its bytes must be JSON with the expected schema, in canonical form, with
known schemas inside, and must decode. An unknown schema is `unsupportedFormat`, everything else is
damage.
-/

namespace Plico.Projection

open Plico.Ledger

/-- The manifest and artifact stores; only the manifest uses its pointer. -/
structure ProjectionStorage where
  manifest : LedgerStorage
  artifacts : LedgerStorage

def readBounded (st : LedgerStorage) (hash : String) (maximumBytes : Nat) : Except IoError Bytes := do
  let bytes ← getImmutable st hash
  refuse (bytes.length > maximumBytes) .tooLarge
  pure bytes

def readActiveBounded (st : LedgerStorage) (maximumBytes : Nat) : Except IoError (Option Bytes) := do
  refuse (∃ bytes ∈ st.active, bytes.length > maximumBytes) .tooLarge
  pure (readActive st)

/-! ## Schemas -/

variable (value : Value)

def requireSchema (expectedSchema component : String) : Except ProjectionError Unit := do
  let schema ← required ((value.get "schema").bind (·.asStr)) (.invalid "missing_projection_schema")
  refuse (schema ≠ expectedSchema) (.unsupportedFormat component)

def requireNamedSchemaIfPresent (field expected component : String) : Except ProjectionError Unit :=
  refuse (∃ actual ∈ (value.get field).bind (·.asStr), actual ≠ expected) (.unsupportedFormat component)

/-- Run a check on a field that may be missing. -/
def checkField (field : String) (check : Value → Except ProjectionError Unit) : Except ProjectionError Unit :=
  match value.get field with
  | some inner => check inner
  | none => .ok ()

/-- Run a check on the elements of an array that may be missing. -/
def checkElements (field : String) (check : Value → Except ProjectionError Unit) : Except ProjectionError Unit :=
  checkAll check (((value.get field).bind (·.asArray)).getD [])

def validateBuilderSchemaTree : Except ProjectionError Unit := do
  requireSchema value builderSpecSchema "builder_spec"
  requireNamedSchemaIfPresent value "artifact_schema" embeddingArtifactSchema "embedding_artifact"

def validateStateArtifactSchema : Except ProjectionError Unit :=
  checkField value "artifact" fun artifact =>
    requireNamedSchemaIfPresent artifact "artifact_schema" embeddingArtifactSchema "embedding_artifact"

def validateEventSchema (event : Value) : Except ProjectionError Unit :=
  if (event.get "type").bind (·.asStr) = some "builder_activated" then
    checkField event "builder_spec" validateBuilderSchemaTree
  else if (event.get "type").bind (·.asStr) = some "projection_transition" then
    checkField event "state" validateStateArtifactSchema
  else .ok ()

def validateRecordSchema (record : Value) : Except ProjectionError Unit := do
  requireSchema record manifestRecordSchema "manifest_record"
  checkField record "event" validateEventSchema

def validateSegmentSchemaTree : Except ProjectionError Unit :=
  checkElements value "records" validateRecordSchema

def validateCurrentViewSchemaTree : Except ProjectionError Unit := do
  checkElements value "active_builder_specs" fun active => checkField active "builder_spec" validateBuilderSchemaTree
  checkElements value "entries" fun entry => checkField entry "state" validateStateArtifactSchema

/-! ## Object types -/

/-- `ProjectionStoredObject` with its codec and, for hashed objects, its hash domain. -/
structure StoredObject (α : Type) where
  schema : String
  component : String
  domain : String
  toValue : α → Value
  fromValue : Value → Option α
  validateNestedSchemas : Value → Except ProjectionError Unit

variable (P : ProjectionPlatform)

def rootObject : StoredObject ProjectionRoot where
  schema := manifestRootSchema
  component := "manifest_root"
  domain := rootDomain
  toValue := ProjectionRoot.toValue
  fromValue := P.decodeRoot
  validateNestedSchemas _ := .ok ()

def segmentObject : StoredObject ProjectionSegment where
  schema := manifestSegmentSchema
  component := "manifest_segment"
  domain := segmentDomain
  toValue := ProjectionSegment.toValue P.toPlatform
  fromValue := P.decodeSegment
  validateNestedSchemas := validateSegmentSchemaTree

def viewObject : StoredObject ProjectionCurrentView where
  schema := currentViewSchema
  component := "current_view"
  domain := viewDomain
  toValue := ProjectionCurrentView.toValue P.toPlatform
  fromValue := P.decodeView
  validateNestedSchemas := validateCurrentViewSchemaTree

/-- The pointer is not hashed. -/
def pointerObject : StoredObject RootPointer where
  schema := rootPointerSchema
  component := "root_pointer"
  domain := ""
  toValue := RootPointer.toValue
  fromValue := P.decodePointer
  validateNestedSchemas _ := .ok ()

def artifactObject : StoredObject EmbeddingArtifact where
  schema := embeddingArtifactSchema
  component := "embedding_artifact"
  domain := artifactDomain
  toValue := EmbeddingArtifact.toValue P
  fromValue := P.decodeArtifact
  validateNestedSchemas _ := .ok ()

variable {α : Type} (object : StoredObject α)

def parseCanonicalWithSchema (bytes : Bytes) : Except ProjectionError α := do
  let value ← required (P.value.fromSlice bytes) .serialization
  requireSchema value object.schema object.component
  let canonical ← canonicalBytes P value
  refuse (canonical ≠ bytes) (.invalid "non_canonical_projection_json")
  object.validateNestedSchemas value
  required (object.fromValue value) .serialization

def verifyHash (value : α) (expected : String) : Except ProjectionError Unit := do
  validateHash expected
  let (_, actual) ← canonicalBytesAndHash P object.domain (object.toValue value)
  refuse (actual ≠ expected) (.invalid "projection_hash_mismatch")

def readObject (st : LedgerStorage) (hash : String) : Except ProjectionError α := do
  let bytes ← (readBounded st hash maxProjectionManifestObjectBytes).mapError .io
  let value ← parseCanonicalWithSchema P object bytes
  verifyHash P object value hash
  pure value

def parseEmbeddingArtifact (bytes : Bytes) : Except ProjectionError EmbeddingArtifact :=
  parseCanonicalWithSchema P (artifactObject P) bytes

def requireSize (bytes : Bytes) (maximumBytes : Nat) : Except ProjectionError Unit :=
  refuse (bytes.length > maximumBytes) (.invalid "projection_object_exceeds_size_limit")

end Plico.Projection
