import Mathlib.Data.List.Induction
import Plico.Model.Kernel.CostLedger

/-!
# What a session's cost loses

Each record is charged in whole units and the rest of its price is dropped, so the total is the exact price as long as
what was dropped stays small.
-/

namespace Plico.Kernel.TokenCostLedger

variable (entries : List CostEntry) (sessionId : String)

def total (f : CostEntry → Nat) : Nat := ((entries.filter (·.sessionId = sessionId)).map f).sum

/-- The price of a record, in millionths of a unit. -/
def price (entry : CostEntry) : Nat := 10000 * entry.inputTokens.toNat + 30000 * entry.outputTokens.toNat

/-- The whole units that are charged for a record: one for a hundred input tokens, three for a hundred output tokens. -/
def charge (entry : CostEntry) : Nat := entry.inputTokens.toNat / 100 + 3 * entry.outputTokens.toNat / 100

/-- What is dropped of a record's price, in hundredths of a unit. -/
def dropped (entry : CostEntry) : Nat := entry.inputTokens.toNat % 100 + 3 * entry.outputTokens.toNat % 100

/-- The cost and the price, in millionths of a unit, differ by less than two units. -/
def WithinTwo (cost price : Nat) : Prop := price < 1000000 * (cost + 2) ∧ 1000000 * cost < price + 2 * 1000000

instance (cost price : Nat) : Decidable (WithinTwo cost price) := inferInstanceAs (Decidable (_ ∧ _))

/-- Less than two units have been dropped, and the counter has not wrapped around. -/
def KeepsPrice : Prop := total entries sessionId dropped < 200 ∧ total entries sessionId charge < 2 ^ 64

variable {entries sessionId} {entry : CostEntry}

theorem total_concat {f : CostEntry → Nat} : total (entries ++ [entry]) sessionId f =
    total entries sessionId f + if entry.sessionId = sessionId then f entry else 0 := by
  unfold total
  split <;> simp [*]

theorem sessionCost_record {ledger : TokenCostLedger} :
    (ledger.record entry).sessionCost sessionId = if entry.sessionId = sessionId then
      (ledger.sessionCost sessionId + charge entry) % 2 ^ 64 else ledger.sessionCost sessionId := by
  have hcharge : charge entry =
      entry.inputTokens.toNat * 10000 / 1000000 + entry.outputTokens.toNat * 30000 / 1000000 := by
    unfold charge
    omega
  rw [hcharge]
  unfold record updateSessionSummary sessionCost
  by_cases h : entry.sessionId = sessionId
  · subst h
    rw [if_pos rfl, AList.lookup_insert]
    cases ledger.sessionTotals.lookup entry.sessionId <;> rfl
  · rw [if_neg h, AList.lookup_insert_ne (Ne.symm h)]

theorem sessionCost_run : (run entries).sessionCost sessionId = total entries sessionId charge % 2 ^ 64 := by
  induction entries using List.reverseRecOn with
  | nil => rfl
  | append_singleton entries entry ih =>
    rw [run, List.foldl_append, List.foldl_cons, List.foldl_nil, ← run, sessionCost_record, total_concat, ih]
    split
    · exact Nat.mod_add_mod ..
    · rfl

theorem total_price : total entries sessionId price =
    10000 * (100 * total entries sessionId charge + total entries sessionId dropped) := by
  induction entries using List.reverseRecOn with
  | nil => rfl
  | append_singleton entries entry ih =>
    have hprice : price entry = 10000 * (100 * charge entry + dropped entry) := by
      unfold price charge dropped
      omega
    simp only [total_concat]
    split <;> omega

/-- The total is within two units of the exact price exactly when less than that has been dropped; two ways to record
usage of the same price then have totals that differ by less than two units. -/
theorem sessionCost_withinTwo_iff (entries : List CostEntry) (sessionId : String) :
    (WithinTwo ((run entries).sessionCost sessionId) (total entries sessionId price) ↔ KeepsPrice entries sessionId) ∧
      ∀ entries', total entries' sessionId price = total entries sessionId price → KeepsPrice entries sessionId →
        KeepsPrice entries' sessionId →
          (run entries).sessionCost sessionId < (run entries').sessionCost sessionId + 2 := by
  simp only [WithinTwo, KeepsPrice, sessionCost_run, total_price]
  refine ⟨by omega, fun entries' hsame hkeeps hkeeps' => ?_⟩
  omega

/-- Ninety-nine input tokens, recorded three times, cost nothing; 297 tokens in one record cost two units. -/
theorem small_records_free : let usage tokens : CostEntry := ⟨0, "s", "a", tokens, 0⟩
    ¬ WithinTwo ((run [usage 99, usage 99, usage 99]).sessionCost "s")
    (total [usage 99, usage 99, usage 99] "s" price) ∧
      (run [usage 99, usage 99, usage 99]).sessionCost "s" = 0 ∧ (run [usage 297]).sessionCost "s" = 2 := by
  decide +kernel

end Plico.Kernel.TokenCostLedger
