import Plico.Model.Api.Response
import Plico.Model.Kernel.Requests
import Plico.Model.Kernel.Sessions
import Plico.Model.Layered.Recall

/-!
# The domain service (kernel/public_service.rs, kernel/ops/memory.rs)

`handlePublicRequest` over the object filesystem, the memories, the sessions and the event bus. Requests run one after
another. What a request finds outside is `PublicInputs`: the clock, the random ids, the embedding provider, the devices,
the role's quota, and the answers of the readiness probe and of the projection, whose rebuilds are recorded by role.
-/

namespace Plico.Api

open Api Plico.Cas Plico.Fs Plico.Kernel Plico.Ledger Plico.Layered

structure PublicPlatform where
  api : ApiPlatform
  ledger : LedgerPlatform
  search : SearchPlatform

/-! ## Base64 -/

def base64Alphabet : List Char :=
  "ABCDEFGHIJKLMNOPQRSTUVWXYZabcdefghijklmnopqrstuvwxyz0123456789+/".toList

def base64Digit (n : Nat) : Char := base64Alphabet.getD n '='

/-- `STANDARD.encode`. -/
def base64Chars : Bytes → List Char
  | [] => []
  | [a] => [base64Digit (a.toNat / 4), base64Digit (a.toNat % 4 * 16), '=', '=']
  | [a, b] =>
    [base64Digit (a.toNat / 4), base64Digit (a.toNat % 4 * 16 + b.toNat / 16), base64Digit (b.toNat % 16 * 4), '=']
  | a :: b :: c :: rest =>
    base64Digit (a.toNat / 4) :: base64Digit (a.toNat % 4 * 16 + b.toNat / 16) ::
      base64Digit (b.toNat % 16 * 4 + c.toNat / 64) :: base64Digit (c.toNat % 64) :: base64Chars rest

def base64Encode (data : Bytes) : String := String.ofList (base64Chars data)

/-! ## Errors -/

def publicError (code : PublicErrorCode) (message : String) (retryable : Bool) (category : String) : PublicError :=
  ⟨code, message, retryable, category⟩

def invalidArgument (message : String) : PublicError :=
  publicError .invalidArgument message false "invalid_argument"

def notFound (category : String) : PublicError :=
  publicError .notFound "resource not found" false category

def dependencyUnavailable (category : String) : PublicError :=
  publicError .dependencyUnavailable "required durable dependency is unavailable" true category

def internal (category : String) : PublicError :=
  publicError .internal "internal invariant failed" false category

def notPermitted : PublicError :=
  publicError .permissionDenied "operation is not permitted for this local role" false "permission_denied"

def mapIoError (error : Fs.IoError) : PublicError :=
  match error.kind with
  | .notFound => notFound "object"
  | .invalidInput | .invalidData => invalidArgument "invalid object request"
  | .permissionDenied => publicError .permissionDenied "access denied" false "permission_denied"
  | .interrupted => dependencyUnavailable "canonical_storage"

def mapLedgerError : LedgerError → PublicError
  | .headConflict .. => publicError .conflict "memory head changed; refresh and retry" false "head_conflict"
  | .unsupportedPolicy category =>
    if category = "role_not_policy_writer" then notPermitted else invalidArgument "memory policy is unsupported"
  | .invalid _ => publicError .internal "canonical memory validation failed" false "memory_integrity"
  | .commitIndeterminate =>
    publicError .dependencyUnavailable "memory commit outcome is uncertain; restart and reconcile before writing" false
      "commit_indeterminate"
  | .writerPoisoned =>
    publicError .dependencyUnavailable "memory writer requires restart and reconciliation" false "writer_poisoned"
  | .io _ | .serialization | .cas _ | .vaultLocked => dependencyUnavailable "memory_persistence"

def mapMemoryError : DurableMemoryMutationError → PublicError
  | .notFound _ | .namespaceMismatch _ => notFound "memory_entry"
  | .inactive _ => publicError .conflict "memory entry is no longer active" false "inactive"
  | .emptyContent => invalidArgument "memory content must not be empty"
  | .invalidCanonicalContent _ => invalidArgument "memory content cannot be represented canonically"
  | .quotaExceeded .. => publicError .limitExceeded "memory quota exceeded" false "quota_exceeded"
  | .permissionDenied => notPermitted
  | .persistenceUnavailable => dependencyUnavailable "memory_persistence"
  | .ledger error => mapLedgerError error

def mapSessionError : SessionError → PublicError
  | .notFound _ | .ownership .. => notFound "session"
  | .persistence .. => dependencyUnavailable "session_persistence"

inductive ProjectionRuntimeError where
  | allEligibleRequired
  | notFound
  | notEligible
  | nothingToRebuild
  | unavailable (category : String)
  deriving DecidableEq, Repr

def mapProjectionRuntimeError : ProjectionRuntimeError → PublicError
  | .notFound => notFound "projection_revision"
  | .notEligible => invalidArgument "projection revision is not eligible"
  | .nothingToRebuild =>
    publicError .conflict "no eligible projection revision exists" false "projection_nothing_to_rebuild"
  | .allEligibleRequired =>
    publicError .conflict "this projection operation requires selector all_eligible" false
      "projection_all_eligible_required"
  | .unavailable category => publicError .dependencyUnavailable "projection is unavailable" false category

/-! ## The kernel -/

structure PublicKernel where
  kernel : AIKernel
  memory : LayeredMemory
  sessions : SessionSystem
  /-- The roles whose rebuild reached the projection. -/
  rebuilds : List String

structure PublicInputs where
  now : Nat
  mono : Nat
  queued : Bool
  answer : EmbedOutcome
  search : SearchEnv
  revisionId : Uuid
  quota : Nat
  commit : CommitInputs
  sessionId : Uuid
  sessionFault : Option String
  readiness : Answer
  projectionStatus : Except ProjectionRuntimeError (Option Answer)
  projectionRebuild : Except ProjectionRuntimeError Answer

/-- A request ends with data, with an error, or in a panic. -/
inductive Dispatched where
  | data (data : PublicData)
  | error (error : PublicError)
  | panicked

def Dispatched.ofExcept : Except PublicError PublicData → Dispatched
  | .ok d => .data d
  | .error e => .error e

namespace PublicKernel

variable (P : PublicPlatform) (k : PublicKernel) (inputs : PublicInputs)

def emit (event : KernelEvent) : PublicKernel :=
  { k with sessions := { k.sessions with bus := k.sessions.bus.emit (event, inputs.now) } }

/-! ### Objects -/

def putContent (input : ObjectPutInput) : Except PublicError Bytes :=
  match input.encoding with
  | .utf8 => .ok (utf8 input.content)
  | .base64 =>
    required (P.api.base64Decode input.content) (invalidArgument "content must be valid standard base64")

variable (roleId : String)

def objectPut (input : ObjectPutInput) : PublicKernel × Except PublicError PublicData :=
  match putContent P input with
  | .error error => (k, .error error)
  | .ok content =>
    match k.kernel.semanticCreate P.search.toFsPlatform content input.tags roleId none .private_
      ⟨inputs.now, inputs.queued, inputs.answer⟩ with
    | .error error => (k, .error (mapIoError error))
    | .ok (kernel, cid) =>
      ({ k with kernel }.emit inputs (.objectStored cid roleId input.tags), .ok (.objectPut cid))

def objectGet (roleId cid : String) : Except PublicError PublicData := do
  let object ← (k.kernel.getObject P.search.toFsPlatform cid roleId Plico.defaultTenant inputs.now).mapError mapIoError
  pure (.objectGet ⟨object.cid, base64Encode object.data, object.meta_.contentType.display, object.meta_.tags,
    object.meta_.createdAt⟩)

def searchHit (hit : SearchResult) : ObjectSearchHit :=
  ⟨hit.cid, hit.relevance, hit.snippet, hit.meta_.tags, hit.meta_.contentType.display, hit.meta_.createdAt⟩

def objectSearch (input : ObjectSearchInput) : Except PublicError PublicData := do
  let diagnosed ← (k.kernel.semanticSearchDiagnosed P.search inputs.search input.query roleId input.limit
    input.requireTags input.excludeTags inputs.now inputs.mono).mapError mapIoError
  pure (.objectSearch ⟨diagnosed.results.map searchHit, diagnosed.execution.paths, diagnosed.execution.embedding⟩)

/-! ### Memories -/

def parseInternalUuid (value category : String) : Except PublicError Uuid :=
  required (P.api.parseUuid value) (internal category)

def memoryView (entry : MemoryEntry) : Except PublicError MemoryEntryView := do
  let entryId ← parseInternalUuid P entry.id "memory_entry_id"
  match entry.content with
  | .text content => pure ⟨entryId, content, entry.tags, entry.createdAt⟩
  | _ => .error (internal "memory_content_not_text")

variable (context : PublicRequestContext)

def checkPublicPermission (action : PermissionAction) : Except PublicError Unit :=
  if context.access = .localOwner then .ok ()
  else (k.kernel.permissions.check (.new context.roleId Plico.defaultTenant) action inputs.now).mapError fun _ =>
    notPermitted

/-- The entry that `remember_working_with_request_id` makes. -/
def workingEntry (roleId content : String) (tags : List String) : MemoryEntry where
  id := uuidText inputs.revisionId
  memoryId := ""
  parentRevisionId := none
  canonicalContentHash := ""
  agentId := roleId
  tenantId := Plico.defaultTenant
  tier := .working
  content := .text content
  importance := 50
  accessCount := 0
  lastAccessed := inputs.now
  createdAt := inputs.now
  tags := tags
  ttlMs := none
  originalTtlMs := none
  scope := .private_
  memoryType := .untyped
  causalParent := none
  supersedes := none
  supersededBy := none
  deletedAt := none

def rememberWorking (roleId content : String) (tags : List String) :
    PublicKernel × Except DurableMemoryMutationError MemoryEntry :=
  match k.kernel.permissions.check (.new roleId Plico.defaultTenant) .write inputs.now with
  | .error _ => (k, .error .permissionDenied)
  | .ok _ =>
    match k.memory.createWorkingDurable P.ledger (workingEntry inputs roleId content tags) inputs.quota
        inputs.commit with
    | (memory, .error error) => ({ k with memory }, .error error)
    | (memory, .ok entry) => ({ k with memory }.emit inputs (.memoryStored roleId "working"), .ok entry)

def memoryCreate (input : MemoryCreateInput) : PublicKernel × Except PublicError PublicData :=
  let (k, entry) := k.rememberWorking P inputs roleId input.content input.tags
  (k, do
    let entry ← entry.mapError mapMemoryError
    let view ← memoryView P entry
    pure (.memoryCreate view))

def publicWorkingEntry (entryId : Uuid) : Except PublicError MemoryEntry := do
  let entry ← (k.memory.findActiveAuthorized roleId .working (uuidText entryId)).mapError mapLedgerError
  required (entry.filter fun entry => entry.tenantId = Plico.defaultTenant) (notFound "memory_entry")

def memoryGet (entryId : Uuid) : Except PublicError PublicData := do
  k.checkPublicPermission inputs context .read
  let entry ← k.publicWorkingEntry context.roleId entryId
  let view ← memoryView P entry
  pure (.memoryGet view)

def recallHit (hit : MemoryEntry × F32) : Except PublicError MemoryRecallHit := do
  let entry ← memoryView P hit.1
  pure ⟨entry, hit.2⟩

def memoryRecall (input : MemoryRecallInput) : Except PublicError PublicData := do
  k.checkPublicPermission inputs context .read
  let hits ← (k.memory.recallWorkingLexicalAuthorized P.search context.roleId Plico.defaultTenant input.query
    input.limit).mapError mapLedgerError
  let hits ← hits.mapM (recallHit P)
  pure (.memoryRecall hits)

def memoryUpdate (input : MemoryUpdateInput) : PublicKernel × Except PublicError PublicData :=
  match k.checkPublicPermission inputs context .write with
  | .error error => (k, .error error)
  | .ok _ =>
    let (memory, entry) := k.memory.updateWorkingDurable P.ledger context.roleId Plico.defaultTenant
      (uuidText input.entryId) input.content (uuidText inputs.revisionId) inputs.now inputs.commit
    ({ k with memory }, do
      let entry ← entry.mapError mapMemoryError
      let view ← memoryView P entry
      pure (.memoryUpdate input.entryId view))

def memoryDelete (entryId : Uuid) : PublicKernel × Except PublicError PublicData :=
  match k.checkPublicPermission inputs context .delete with
  | .error error => (k, .error error)
  | .ok _ =>
    let (memory, deleted) := k.memory.deleteWorkingDurable P.ledger context.roleId Plico.defaultTenant
      (uuidText entryId) (uuidText inputs.revisionId) inputs.now inputs.commit
    ({ k with memory }, do
      let deleted ← deleted.mapError mapMemoryError
      let deletedAt ← required deleted.deletedAt (internal "deleted_at_missing")
      pure (.memoryDelete entryId deletedAt))

/-! ### The projection -/

def projectionStatus : Except PublicError PublicData := do
  let status ← inputs.projectionStatus.mapError mapProjectionRuntimeError
  let status ← required status (notFound "projection_revision")
  pure (.projectionStatus status)

/-- The role is checked by the service and again by the projection. -/
def projectionRebuild (context : PublicRequestContext) : PublicKernel × Except PublicError PublicData :=
  if context.access ≠ .localOwner then
    (k, .error (publicError .permissionDenied "projection rebuild requires the personal owner" false
      "projection_owner_required"))
  else if context.roleId ≠ personalOwnerRoleId then
    (k, .error (mapProjectionRuntimeError (.unavailable "projection_owner_required")))
  else
    ({ k with rebuilds := k.rebuilds ++ [context.roleId] }, do
      let receipt ← inputs.projectionRebuild.mapError mapProjectionRuntimeError
      pure (.projectionRebuild receipt))

/-! ### Sessions -/

def changeView (change : ChangeEntry) : SessionChangeView :=
  ⟨change.seq, change.changeType, change.cid, change.changedAtMs⟩

def sessionStart (lastSeenSeq : Option Nat) : PublicKernel × Dispatched :=
  let (started, sessions) := startSession
    ⟨roleId, lastSeenSeq, uuidText inputs.sessionId, inputs.now, inputs.sessionFault, []⟩ k.sessions
  ({ k with sessions },
    match started with
    | .error .panicked => .panicked
    | .error (.error error) => .error (mapSessionError error)
    | .ok started => .ofExcept (do
      let sessionId ← parseInternalUuid P started.sessionId "session_id"
      pure (.sessionStart ⟨sessionId, started.watermark, started.changesSinceLast.map changeView⟩)))

def sessionEnd (sessionId : Uuid) : PublicKernel × Except PublicError PublicData :=
  let (ended, sessions) := endSession roleId (uuidText sessionId) inputs.sessionFault k.sessions
  ({ k with sessions }, do
    let lastSeq ← ended.mapError mapSessionError
    pure (.sessionEnd sessionId lastSeq))

/-! ### Dispatch -/

/-- The result of an operation that does not panic. -/
def settled (result : PublicKernel × Except PublicError PublicData) : PublicKernel × Dispatched :=
  (result.1, .ofExcept result.2)

def dispatchPublic : PublicCommand → PublicKernel × Dispatched
  | .capabilitiesDescribe => (k, .data .capabilitiesDescribe)
  | .runtimeReadiness => (k, .data (.runtimeReadiness inputs.readiness))
  | .objectPut input => settled (k.objectPut P inputs context.roleId input)
  | .objectGet cid => settled (k, k.objectGet P inputs context.roleId cid)
  | .objectSearch input => settled (k, k.objectSearch P inputs context.roleId input)
  | .memoryCreate input => settled (k.memoryCreate P inputs context.roleId input)
  | .memoryGet entryId => settled (k, k.memoryGet P inputs context entryId)
  | .memoryRecall input => settled (k, k.memoryRecall P inputs context input)
  | .memoryUpdate input => settled (k.memoryUpdate P inputs context input)
  | .memoryDelete entryId => settled (k.memoryDelete P inputs context entryId)
  | .projectionStatus _ _ => settled (k, projectionStatus inputs)
  | .projectionRebuild _ _ => settled (k.projectionRebuild inputs context)
  | .sessionStart lastSeenSeq => k.sessionStart P inputs context.roleId lastSeenSeq
  | .sessionEnd sessionId => settled (k.sessionEnd inputs context.roleId sessionId)

/-- The kernel after the request, and the response unless the request panicked. -/
def handlePublicRequest (request : PublicRequest) : PublicKernel × Option PublicResponse :=
  if context.transport ≠ .tcp ∧ request.auth.isSome then
    (k, some (.failure request.requestId (invalidArgument "auth is accepted only by the tcp transport")))
  else
    match request.validate P.api with
    | .error message => (k, some (.failure request.requestId (invalidArgument message)))
    | .ok _ =>
      match k.dispatchPublic P inputs context request.command with
      | (k, .data data) => (k, some (.success request.requestId data))
      | (k, .error error) => (k, some (.failure request.requestId error))
      | (k, .panicked) => (k, none)

end PublicKernel

end Plico.Api
