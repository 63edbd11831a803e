import Plico.Model.Fs.CircuitBreaker

/-!
# A probe is always under way while the circuit is half open
-/

namespace Plico.Breaker

open List

variable {α : Type} {failureThreshold cooldownMs now : Nat} {answer : Except EmbedError α} {b : EmbeddingCircuitBreaker}

/-- The call has the probe, and has not yet stored what came of it. -/
def Call.ownsProbe : Call α → Bool
  | .invoke ownsProbe | .storeOpen ownsProbe _ => ownsProbe
  | .storeClosed _ => true
  | _ => false

/-- The circuit is half open because the call has the probe now, or because another has it. -/
theorem Call.step_halfOpen {call : Call α}
    (h : (call.step failureThreshold cooldownMs now answer b).1.state = .halfOpen) :
    (call.step failureThreshold cooldownMs now answer b).2.ownsProbe ∨ b.state = .halfOpen ∧ ¬ call.ownsProbe := by
  cases call with
  | invoke ownsProbe => cases ownsProbe <;> cases answer <;> simp_all [step, ownsProbe]
  | exchangeState => grind [step, ownsProbe]
  | storeClosed | storeOpen => cases h
  | _ => exact .inr ⟨h, by simp [ownsProbe]⟩

/-- A half-open circuit has a call that will close or open it. -/
def Probed (s : BreakerSystem α) : Prop := s.breaker.state = .halfOpen → ∃ call ∈ s.calls, call.ownsProbe

theorem Probed.next {s : BreakerSystem α} {action : Action α} (h : Probed s) :
    Probed (s.next failureThreshold cooldownMs action) := by
  unfold BreakerSystem.next
  cases action with
  | call =>
    intro hhalf
    obtain ⟨owner, howner, howns⟩ := h hhalf
    exact ⟨owner, mem_append_left _ howner, howns⟩
  | step i now answer =>
    dsimp only
    split
    · exact h
    next call hi =>
    intro hhalf
    rcases call.step_halfOpen hhalf with howns | ⟨hbefore, hother⟩
    · exact ⟨_, mem_set (List.getElem?_eq_some_iff.mp hi).1 _, howns⟩
    · obtain ⟨owner, howner, howns⟩ := h hbefore
      obtain ⟨j, hj⟩ := mem_iff_getElem?.mp howner
      have hij : i ≠ j := by
        rintro rfl
        cases hi.symm.trans hj
        exact hother howns
      exact ⟨owner, mem_of_getElem? ((getElem?_set_ne hij).trans hj), howns⟩

/-- However the calls are interleaved, whatever the provider answers and whatever the clock reads, the circuit is half
open only while a call has the probe; so it is closed or open whenever all calls have returned. -/
theorem halfOpen_only_while_probing (failureThreshold cooldownMs : Nat) (actions : List (Action α)) :
    let s := actions.foldl (BreakerSystem.next failureThreshold cooldownMs) .new
    (s.breaker.state = .halfOpen → ∃ call ∈ s.calls, call.ownsProbe) ∧
      ((∀ call ∈ s.calls, ∃ result, call = .returned result) → s.breaker.state ≠ .halfOpen) := by
  intro s
  have hprobed : Probed s := run_invariant (fun _ _ h => h.next) (fun h => by cases h)
  refine ⟨hprobed, fun hreturned hhalf => ?_⟩
  obtain ⟨call, hcall, howns⟩ := hprobed hhalf
  obtain ⟨result, rfl⟩ := hreturned call hcall
  cases howns

end Plico.Breaker
