import Mathlib.Algebra.Order.Ring.Nat
import Mathlib.Data.List.AList

/-!
# The token cost ledger (kernel/ops/cost_ledger.rs)

Sums are modulo the width of their field, as in a release build.
-/

namespace Plico.Kernel

/-- The fields of an entry that the summaries use. -/
structure CostEntry where
  timestampMs : Nat
  sessionId : String
  agentId : String
  inputTokens : UInt32
  outputTokens : UInt32

structure SessionCostSummary where
  sessionId : String
  agentId : String
  totalInputTokens : Nat
  totalOutputTokens : Nat
  totalCostMillicents : Nat
  operationsCount : Nat
  cacheHits : Nat
  cacheMisses : Nat
  timestampMs : Nat

structure TokenCostLedger where
  entries : List CostEntry
  sessionTotals : AList fun _ : String => SessionCostSummary

namespace TokenCostLedger

def new : TokenCostLedger := ⟨[], ∅⟩

def maxCostEntries : Nat := 50000

def updateSessionSummary (ledger : TokenCostLedger) (entry : CostEntry) : TokenCostLedger :=
  let summary := (ledger.sessionTotals.lookup entry.sessionId).getD
    ⟨entry.sessionId, entry.agentId, 0, 0, 0, 0, 0, 0, entry.timestampMs⟩
  let inputCost := entry.inputTokens.toNat * 10000 / 1000000
  let outputCost := entry.outputTokens.toNat * 30000 / 1000000
  let summary := { summary with
    totalInputTokens := (summary.totalInputTokens + entry.inputTokens.toNat) % 2 ^ 64
    totalOutputTokens := (summary.totalOutputTokens + entry.outputTokens.toNat) % 2 ^ 64
    operationsCount := (summary.operationsCount + 1) % 2 ^ 32
    totalCostMillicents := (summary.totalCostMillicents + (inputCost + outputCost)) % 2 ^ 64 }
  { ledger with sessionTotals := ledger.sessionTotals.insert entry.sessionId summary }

def record (ledger : TokenCostLedger) (entry : CostEntry) : TokenCostLedger :=
  let entries := if maxCostEntries ≤ ledger.entries.length then ledger.entries.tail else ledger.entries
  updateSessionSummary { ledger with entries := entries ++ [entry] } entry

/-- The ledger after these records, in any interleaving of the sessions. -/
def run (entries : List CostEntry) : TokenCostLedger := entries.foldl record new

/-- What the summary of the session shows; a session without records has none. -/
def sessionCost (ledger : TokenCostLedger) (sessionId : String) : Nat :=
  ((ledger.sessionTotals.lookup sessionId).map (·.totalCostMillicents)).getD 0

end TokenCostLedger

end Plico.Kernel
