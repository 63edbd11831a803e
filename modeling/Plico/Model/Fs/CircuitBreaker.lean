import Plico.Framework.Run

/-!
# The circuit breaker around the embedding provider (fs/embedding/circuit_breaker.rs)

Many calls may be under way at once; each access to an atomic is a step of its own. The clock and the answers of the
provider are inputs.
-/

namespace Plico.Breaker

inductive EmbedError where
  | inputTooLarge (message : String)
  | serverUnavailable (message : String)
  /-- Any other error: the breaker does not tell them apart. -/
  | other (message : String)

inductive State where
  | closed
  | opened
  | halfOpen
  deriving DecidableEq

structure EmbeddingCircuitBreaker where
  state : State
  failureCount : Nat
  lastFailureMs : Nat

/-- What a call of `embed_operation` does next. -/
inductive Call (α : Type) where
  | loadState
  | loadLastFailure
  | exchangeState
  | invoke (ownsProbe : Bool)
  | storeClosed (result : α)
  | resetCount (result : α)
  | addFailure (error : EmbedError)
  | storeOpen (ownsProbe : Bool) (error : EmbedError)
  | storeLastFailure (error : EmbedError)
  | returned (result : Except EmbedError α)

variable {α : Type} (failureThreshold cooldownMs : Nat)

def Call.unavailable (message : String) : Call α := .returned (.error (.serverUnavailable message))

def Call.step (now : Nat) (answer : Except EmbedError α) (b : EmbeddingCircuitBreaker) :
    Call α → EmbeddingCircuitBreaker × Call α
  | .loadState => (b, match b.state with
    | .closed => .invoke false
    | .opened => .loadLastFailure
    | .halfOpen => .unavailable "embedding circuit probe in progress")
  | .loadLastFailure =>
    -- the subtraction wraps around
    (b, if cooldownMs ≤ (now + 2 ^ 64 - b.lastFailureMs) % 2 ^ 64 then .exchangeState
      else .unavailable "embedding circuit open")
  | .exchangeState =>
    if b.state = .opened then ({ b with state := .halfOpen }, .invoke true)
    else (b, .unavailable "embedding circuit probe in progress")
  | .invoke ownsProbe => (b, match answer with
    | .ok result => if ownsProbe then .storeClosed result else .resetCount result
    | .error error =>
      if ownsProbe then .storeOpen true error
      else match error with
        | .inputTooLarge _ => .returned (.error error)
        | _ => .addFailure error)
  | .storeClosed result => ({ b with state := .closed }, .resetCount result)
  | .resetCount result => ({ b with failureCount := 0 }, .returned (.ok result))
  | .addFailure error =>
    let count := (b.failureCount + 1) % 2 ^ 32
    ({ b with failureCount := count },
      if failureThreshold ≤ count then .storeOpen false error else .returned (.error error))
  | .storeOpen _ error => ({ b with state := .opened }, .storeLastFailure error)
  | .storeLastFailure error => ({ b with lastFailureMs := now }, .returned (.error error))
  | .returned result => (b, .returned result)

structure BreakerSystem (α : Type) where
  breaker : EmbeddingCircuitBreaker
  calls : List (Call α)

def BreakerSystem.new : BreakerSystem α := ⟨⟨.closed, 0, 0⟩, []⟩

inductive Action (α : Type) where
  | call
  | step (i now : Nat) (answer : Except EmbedError α)

def BreakerSystem.next (s : BreakerSystem α) : Action α → BreakerSystem α
  | .call => { s with calls := s.calls ++ [.loadState] }
  | .step i now answer =>
    match s.calls[i]? with
    | none => s
    | some call =>
      let (breaker, call) := call.step failureThreshold cooldownMs now answer s.breaker
      ⟨breaker, s.calls.set i call⟩

end Plico.Breaker
