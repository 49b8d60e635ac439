import AtsEndpoint.Proofs.Halting
import AtsEndpoint.Proofs.Operations

/-!
# Operations at a halted endpoint

A halted endpoint drops the trigger of an operation and says nothing of it on the bus. The
host learns that something is wrong from its wait alone. STATUS is clear then, so the wait
looks at the queue: where older requests are left in it, the run that the host lets happen
is refused, and the host is told of the halt; where the queue is empty, the host is told that
nothing is pending, as by an endpoint that has never halted. Either way the endpoint
has only taken register writes.
-/

namespace AtsEndpoint

namespace Endpoint

variable {α : Type u} {μ : Type v}

/-- What a host is told that waits at a halted endpoint for STATUS to be set. -/
def refusal (endpoint : Endpoint α μ) : Fault :=
  if endpoint.pending = [] then .state .nothingPending else .halted

/-- An operation is refused with this fault. The registers take its writes; the endpoint is
halted as before, and everything else is as it was. -/
structure Refuses (endpoint : Endpoint α μ) (operation : Host.Operation) (fault : Fault)
    (step : Step (Endpoint α μ) (Except Fault ρ)) : Prop where
  result : step.result = .error fault
  state : step.state =
    { endpoint with registers := endpoint.registers.writeAll operation.writes }

end Endpoint

namespace Host

open Endpoint

variable {α : Type u} {μ : Type v} [TranslationAgent α] [PhysicalMemory μ]
variable {endpoint : Endpoint α μ}

/-- A wait at a halted endpoint is refused when STATUS is clear. -/
theorem waitForDone_of_halted (endpoint : Endpoint α μ) (hhalted : endpoint.halted = true)
    (hclear : endpoint.registers.status = 0) :
    (waitForDone endpoint).result = .error endpoint.refusal ∧
      (waitForDone endpoint).state = endpoint := by
  unfold Endpoint.refusal
  split
  next hempty => exact waitForDone_eq_of_polls (.idle hclear hempty)
  next hpending =>
    obtain ⟨hresult, hstate⟩ := waitForDone_of_queued hclear hpending
    rw [runPending_of_halted hhalted] at hresult hstate
    exact ⟨hresult, hstate⟩

end Host

namespace Endpoint

variable {α : Type u} {μ : Type v} [TranslationAgent α] [PhysicalMemory μ]
variable {endpoint : Endpoint α μ}

/-- An operation that waits after its writes is refused by a halted endpoint. -/
theorem WaitsAfter.refuses {operation : Host.Operation} {answer : Completion → RegisterFile → ρ}
    {step : Step (Endpoint α μ) (Except Fault ρ)}
    (h : endpoint.WaitsAfter operation.writes answer step) (hhalted : endpoint.halted = true)
    (hown : operation.requests ≠ []) : endpoint.Refuses operation endpoint.refusal step := by
  -- The trigger is dropped, so the queue that the wait looks at is the one from before.
  have hready : endpoint.writeAll operation.writes =
      { endpoint with registers := endpoint.registers.writeAll operation.writes } := by
    simp [writeAll, askedBy_of_halted hhalted]
  have hclear : (endpoint.writeAll operation.writes).registers.status = 0 :=
    endpoint.registers.status_writes hown
  have hrefusal : (endpoint.writeAll operation.writes).refusal = endpoint.refusal := by
    rw [hready]
    rfl
  obtain ⟨hresult, hstate⟩ :=
    Host.waitForDone_of_halted (endpoint.writeAll operation.writes) hhalted hclear
  refine ⟨?_, ?_⟩
  · rw [h.result, hresult, hrefusal]
    rfl
  · rw [h.state, hstate, hready]

end Endpoint

namespace Host

open Endpoint

variable {α : Type u} {μ : Type v} [TranslationAgent α] [PhysicalMemory μ]
variable {endpoint : Endpoint α μ}

/-- At a halted endpoint every operation is refused, and the endpoint stays halted with the
queue that it had. The host is told of the halt exactly when a request is left in the queue;
else it is told that nothing is pending. A wait alone tells what STATUS says, if STATUS is
set, and is refused in the same words if it is clear. -/
theorem operation_of_halted (hhalted : endpoint.halted = true) (address : Address)
    (length word : UInt32) :
    endpoint.Refuses (.translate address length) endpoint.refusal
        (translate endpoint address length) ∧
      endpoint.Refuses (.readWord address) endpoint.refusal (readWord endpoint address) ∧
      endpoint.Refuses (.writeWord address word) endpoint.refusal
        (writeWord endpoint address word) ∧
      endpoint.Refuses (.checksum address length) endpoint.refusal
        (checksum endpoint address length) ∧
      (endpoint.refusal = .halted ↔ endpoint.pending ≠ []) ∧
      (waitForDone endpoint).state = endpoint ∧
      (waitForDone endpoint).result =
        if endpoint.registers.status = 0 then .error endpoint.refusal
        else .ok (.ofStatus endpoint.registers.status) := by
  have hasks {operation : Operation} {own : Work.Request} (h : operation.requests = [own]) :
      operation.requests ≠ [] := by
    simp [h]
  refine ⟨(waitsAfter_translate endpoint address length).refuses hhalted (hasks rfl),
    (waitsAfter_readWord endpoint address).refuses hhalted (hasks rfl),
    (waitsAfter_writeWord endpoint address word).refuses hhalted (hasks rfl),
    (waitsAfter_checksum endpoint address length).refuses hhalted (hasks rfl), ?_, ?_⟩
  · unfold refusal
    split
    next hempty => exact iff_of_false nofun (not_not_intro hempty)
    next hpending => exact iff_of_true rfl hpending
  · split
    next hclear =>
      obtain ⟨hresult, hstate⟩ := waitForDone_of_halted endpoint hhalted hclear
      exact ⟨hstate, hresult⟩
    next hset =>
      obtain ⟨hresult, hstate⟩ := waitForDone_eq_of_polls (.seen hset)
      exact ⟨hstate, hresult⟩

/-- An endpoint that a read by its host has halted. -/
def failed : SoftwareEndpoint :=
  (readWord paged 0x9000).state

/-- A word to be written at an endpoint with a request left, and at one without. -/
theorem operation_of_halted_left :
    stopped.halted = true ∧ (writeWord stopped 0x8000 7).result = .error .halted ∧
      (writeWord stopped 0x8000 7).state.pending = [.translate ⟨0x9000, 0x10⟩] ∧
      failed.halted = true ∧ (writeWord failed 0x8000 7).state.halted = true ∧
      (writeWord failed 0x8000 7).result = .error (.state .nothingPending) := by
  have hstopped : stopped.halted = true := by decide +kernel
  have hleft : stopped.pending = [.translate ⟨0x9000, 0x10⟩] := by decide +kernel
  have hfailed : failed.halted = true := by decide +kernel
  have hempty : failed.pending = [] := by decide +kernel
  obtain ⟨_, _, hwrite, _, hiff, _⟩ := operation_of_halted hstopped 0x8000 0 7
  obtain ⟨_, _, hidle, _⟩ := operation_of_halted hfailed 0x8000 0 7
  refine ⟨hstopped, ?_, ?_, hfailed, ?_, ?_⟩
  · rw [hwrite.result, hiff.mpr (by simp [hleft])]
  · rw [hwrite.state]
    exact hleft
  · rw [hidle.state]
    exact hfailed
  · rw [hidle.result, refusal, if_pos hempty]

/-- The host that has halted the endpoint is not told of it at the next operation, while
the run of the queue is refused as that of a halted endpoint. -/
theorem translate_of_halted_idle :
    failed.halted = true ∧ failed.runPending.result = .error .halted ∧
      (translate failed 0x8000 4).result = .error (.state .nothingPending) := by
  have hfailed : failed.halted = true := by decide +kernel
  have hempty : failed.pending = [] := by decide +kernel
  refine ⟨hfailed, ?_, ?_⟩
  · rw [runPending_of_halted hfailed]
  · have hrefused : failed.Refuses (.translate 0x8000 4) failed.refusal _ :=
      (waitsAfter_translate failed 0x8000 4).refuses hfailed (List.cons_ne_nil _ _)
    rw [hrefused.result, refusal, if_pos hempty]

end Host

end AtsEndpoint
