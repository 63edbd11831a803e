import Plico.Model.Memory.Json
import Plico.Model.Ledger.Storage

/-!
# Canonical JSON of the ledger's objects

The texts that serde and the canonicalizer give the objects a ledger stores, and the platform that
knows the objects of one run: their texts, and the SHA-256 digests of their bytes.
-/

namespace Plico

open Json

/-- The content of the runs that are evaluated is text; other content has no text here. -/
def MemoryContent.json : MemoryContent → Bytes
  | .text value => object [("Text", string value)]
  | _ => []

namespace Ledger

def CanonicalRevision.json (r : CanonicalRevision) : Bytes :=
  object
    [("cognitive_tier", r.cognitiveTier.json), ("committed_at", nat r.committedAt),
     ("committed_by_role", string r.committedByRole),
     ("content", r.content.json),
     ("content_hash", string r.contentHash),
     ("deleted_at", option nat r.deletedAt),
     ("memory_id", string r.memoryId),
     ("memory_type", r.memoryType.json),
     ("parent_revision_id", option string r.parentRevisionId),
     ("revision_id", string r.revisionId),
     ("schema", string r.schema),
     ("sequence", nat r.sequence),
     ("tags", array string r.tags)]

def PolicyMode.json : PolicyMode → Bytes
  | .private_ => string "private"
  | .explicitRoleSet => string "explicit_role_set"

def PolicyRecord.json (p : PolicyRecord) : Bytes :=
  object
    [("committed_at", nat p.committedAt), ("committed_by_role", string p.committedByRole),
     ("effective_from_revision_id", string p.effectiveFromRevisionId),
     ("memory_id", string p.memoryId),
     ("mode", p.mode.json),
     ("origin_role_id", string p.originRoleId),
     ("policy_id", string p.policyId),
     ("reader_roles", array string p.readerRoles),
     ("schema", string p.schema),
     ("sequence", nat p.sequence),
     ("writer_roles", array string p.writerRoles)]

def Segment.json {α : Type} (text : α → Bytes) (s : Segment α) : Bytes :=
  object
    [("first_sequence", nat s.firstSequence), ("last_sequence", nat s.lastSequence),
     ("previous_segment_hash", option string s.previousSegmentHash),
     ("records", array text s.records),
     ("schema", string s.schema)]

def LedgerRoot.json (r : LedgerRoot) : Bytes :=
  object
    [("committed_at", nat r.committedAt), ("committed_by_role", string r.committedByRole),
     ("current_view_hash", string r.currentViewHash),
     ("generation", nat r.generation),
     ("migration_manifest_hash", option string r.migrationManifestHash),
     ("policy_head", option string r.policyHead),
     ("policy_watermark", nat r.policyWatermark),
     ("previous_root_hash", option string r.previousRootHash),
     ("relation_head", option string r.relationHead),
     ("relation_watermark", nat r.relationWatermark),
     ("revision_head", option string r.revisionHead),
     ("revision_watermark", nat r.revisionWatermark),
     ("schema", string r.schema)]

def CurrentStream.json (s : CurrentStream) : Bytes :=
  object
    [("deleted", bool s.deleted), ("head_revision_id", string s.headRevisionId), ("memory_id", string s.memoryId),
     ("policy_id", string s.policyId)]

def CurrentView.json (v : CurrentView) : Bytes :=
  object
    [("generation", nat v.generation), ("policy_watermark", nat v.policyWatermark),
     ("relation_watermark", nat v.relationWatermark),
     ("revision_watermark", nat v.revisionWatermark),
     ("schema", string v.schema),
     ("streams", array CurrentStream.json v.streams)]

def ActivePointer.json (p : ActivePointer) : Bytes :=
  object [("root_hash", string p.rootHash), ("schema", string p.schema)]

/-! ## The platform of a run -/

/-- The objects of a run, and the digest of each hashed input by its domain and text. -/
structure RunObjects where
  contents : List MemoryContent
  revisionSegments : List (Segment CanonicalRevision)
  policySegments : List (Segment PolicyRecord)
  roots : List LedgerRoot
  views : List CurrentView
  pointers : List ActivePointer
  digests : List (Bytes × String)

def emptySerde (α : Type) : Serde α where
  toVec _ := none
  fromSlice _ := none
  fromSlice_nil := rfl

/-- The platform that encodes and hashes the objects of a run as the real one does. -/
def RunObjects.platform (o : RunObjects) : LedgerPlatform where
  sha256 input := ((o.digests.find? fun digest => digest.1 = input).map Prod.snd).getD ""
  parseUuid := parseUuidText
  hyphenated := uuidText
  newV5 _ _ := 0
  value := emptySerde _
  content := .listed MemoryContent.json o.contents
  revisionSegment := .listed (Segment.json CanonicalRevision.json) o.revisionSegments
  policySegment := .listed (Segment.json PolicyRecord.json) o.policySegments
  relationSegment := emptySerde _
  root := .listed LedgerRoot.json o.roots
  view := .listed CurrentView.json o.views
  pointer := .listed ActivePointer.json o.pointers
  sourceManifest := emptySerde _
  migrationManifest := emptySerde _

/-- No two objects of a kind have one text. -/
structure RunObjects.Distinct (o : RunObjects) : Prop where
  contents : Serde.Distinct MemoryContent.json o.contents
  revisionSegments : Serde.Distinct (Segment.json CanonicalRevision.json) o.revisionSegments
  policySegments : Serde.Distinct (Segment.json PolicyRecord.json) o.policySegments
  roots : Serde.Distinct LedgerRoot.json o.roots
  views : Serde.Distinct CurrentView.json o.views
  pointers : Serde.Distinct ActivePointer.json o.pointers

end Ledger

end Plico
