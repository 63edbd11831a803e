import Plico.Model.Kernel.Persistence
import Plico.Model.Kernel.Security
import Plico.Model.Ledger.Types

/-!
# The store of bearer credentials (api/agent_auth.rs, RegisterAgent of kernel/handlers/agent.rs)

A token table in memory behind a read-write lock, and its file `agent_tokens.json`. `RegisterAgent` stores a new token
in memory only. `persist` writes the table under the read lock; `ensure_personal_owner_credential` writes a candidate
table under the write lock and publishes it afterwards. Both replace the file by way of `agent_tokens.json.tmp`, which
is truncated, written and renamed in separate steps. The string of a new token (an HMAC of a random nonce) is an
input. The signing secret, which no check of a bearer reads, file modes, the time of issue and the capabilities of a
token are left out.
-/

namespace Plico.Kernel

abbrev TokenTable := AList (fun _ : String => AgentToken)

/-- `create_token`: daemon tokens do not expire. -/
def AgentToken.create (agentId token : String) : AgentToken := ⟨agentId, token, none⟩

def AgentToken.expired (token : AgentToken) (now : Nat) : Bool := token.expiresAt.any fun expiresAt => now > expiresAt

/-- The role of a bearer: that of the first token in the table with this string that has not expired. -/
def authenticateBearer (tokens : TokenTable) (now : Nat) (bearer : String) : Except String String :=
  if bearer = "" then .error "invalid bearer credential"
  else
    match tokens.entries.find? fun entry => !entry.2.expired now && utf8 entry.2.token == utf8 bearer with
    | some entry => .ok entry.2.agentId
    | none => .error "invalid bearer credential"

/-- `or_insert_with` on the entry of the personal owner. -/
def withOwner (tokens : TokenTable) (owner : AgentToken) : TokenTable :=
  match tokens.lookup personalOwnerRoleId with
  | some _ => tokens
  | none => tokens.insert personalOwnerRoleId owner

/-- Where a call is. A `RegisterAgent` has its token to store once or twice more; a save without a new owner token is a
`persist`, one with it an `ensure_personal_owner_credential`, and its lock is held from `locked` to its return. -/
inductive CredentialCall where
  | registering (token : AgentToken)
  | storing (token : AgentToken)
  | waiting (owner : Option AgentToken)
  | locked (owner : Option AgentToken) (candidate : TokenTable)
  | opened (owner : Option AgentToken) (candidate : TokenTable) (file : Nat)
  | written (owner : Option AgentToken) (candidate : TokenTable)
  | returned (result : Except Unit Unit)

/-- The call holds the lock of the table. -/
def CredentialCall.holds : CredentialCall → Bool
  | .locked .. | .opened .. | .written .. => true
  | _ => false

/-- The call holds it for writing. -/
def CredentialCall.excludes : CredentialCall → Bool
  | .locked owner _ | .opened owner _ _ | .written owner _ => owner.isSome
  | _ => false

structure CredentialSystem (β : Type) where
  up : Bool
  tokens : TokenTable
  disk : Disk JsonFile β
  calls : List CredentialCall
  /-- The history: all tokens created, those stored in the table in the order of storing, those handed out, and how many
  had been stored when the table that is in place was written. -/
  created : List AgentToken
  stored : List AgentToken
  handedOut : List AgentToken
  inFile : Nat

inductive CredentialStep where
  | start
  | registerAgent (id token : String)
  | persist
  | ensure (token : String)
  | call (i : Nat)
  | crash
  deriving DecidableEq, Repr

namespace CredentialSystem

variable {β : Type} [Inhabited β] (codec : Codec TokenTable β SameTable)

def fresh : CredentialSystem β where
  up := false
  tokens := ∅
  disk := .empty
  calls := []
  created := []
  stored := []
  handedOut := []
  inFile := 0

/-- `load_tokens`: no tokens when the file is missing or unreadable. -/
def loadTokens (disk : Disk JsonFile β) : TokenTable :=
  ((disk.read .index).bind codec.decode).getD ∅

variable (s : CredentialSystem β)

def start : CredentialSystem β :=
  if s.up then s else { s with up := true, tokens := loadTokens codec s.disk }

def crash : CredentialSystem β :=
  { s with up := false, tokens := ∅, calls := [] }

/-- A call gets the lock it needs, if it can, and has the table to write. -/
def lock (i : Nat) (owner : Option AgentToken) : CredentialSystem β :=
  match owner with
  | some token =>
    if s.calls.any CredentialCall.holds then s
    else { s with calls := s.calls.set i (.locked owner (withOwner s.tokens token)) }
  | none =>
    if s.calls.any CredentialCall.excludes then s
    else { s with calls := s.calls.set i (.locked none s.tokens) }

/-- The end of `persist_snapshot` and of the call. A failed rename removes the temporary file, if it is there. -/
def finish (i : Nat) (owner : Option AgentToken) (candidate : TokenTable) : CredentialSystem β :=
  match s.disk.rename .temp .index with
  | none =>
    { s with disk := (s.disk.remove .temp).getD s.disk, calls := s.calls.set i (.returned (.error ())) }
  | some disk =>
    match owner with
    | none => { s with disk, calls := s.calls.set i (.returned (.ok ())), inFile := s.stored.length }
    | some token =>
      let stored := if personalOwnerRoleId ∈ s.tokens then s.stored else s.stored ++ [token]
      { s with
        tokens := candidate
        disk
        calls := s.calls.set i (.returned (.ok ()))
        stored
        handedOut := s.handedOut ++ (candidate.lookup personalOwnerRoleId).toList
        inFile := stored.length }

def callStep (i : Nat) (call : CredentialCall) : CredentialSystem β :=
  match call with
  | .registering token =>
    -- `generate_token` stores the token under the write lock
    if s.calls.any CredentialCall.holds then s
    else
      { s with
        tokens := s.tokens.insert token.agentId token
        stored := s.stored ++ [token]
        calls := s.calls.set i (.storing token) }
  | .storing token =>
    -- and the handler stores it again
    if s.calls.any CredentialCall.holds then s
    else
      { s with
        tokens := s.tokens.insert token.agentId token
        handedOut := s.handedOut ++ [token]
        calls := s.calls.set i (.returned (.ok ())) }
  | .waiting owner => s.lock i owner
  | .locked owner candidate =>
    let (disk, file) := s.disk.openTruncate .temp
    { s with disk, calls := s.calls.set i (.opened owner candidate file) }
  | .opened owner candidate file =>
    { s with
      disk := s.disk.writeAt file 0 (codec.encode candidate)
      calls := s.calls.set i (.written owner candidate) }
  | .written owner candidate => s.finish i owner candidate
  | .returned _ => s

def upStep : CredentialStep → CredentialSystem β
  | .registerAgent id token =>
    { s with
      created := s.created ++ [.create id token]
      calls := s.calls ++ [.registering (.create id token)] }
  | .persist => { s with calls := s.calls ++ [.waiting none] }
  | .ensure token =>
    { s with
      created := s.created ++ [.create personalOwnerRoleId token]
      calls := s.calls ++ [.waiting (some (.create personalOwnerRoleId token))] }
  | .call i =>
    match s.calls[i]? with
    | some call => s.callStep codec i call
    | none => s
  | .start | .crash => s

def step : CredentialStep → CredentialSystem β
  | .crash => s.crash
  | .start => s.start codec
  | action => if s.up then s.upStep codec action else s

def run (steps : List CredentialStep) : CredentialSystem β :=
  steps.foldl (step codec) s

end CredentialSystem

end Plico.Kernel
