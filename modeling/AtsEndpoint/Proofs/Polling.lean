import AtsEndpoint.Proofs.Atomicity
import AtsEndpoint.Proofs.Driving

/-!
# Polling ends

A host that waits polls STATUS in a loop: it looks at STATUS, and while this is
clear and work is queued it lets the queue run and looks again. Nothing in the
loop counts the runs. It ends because every request that is counted as completed
leaves STATUS set: an operation sets it however it ends, and a failure that is
reported sets it as well. So the look after a run that ends well is the last one.

`Polls` is the loop as such, with nothing that bounds it. The main statement is
that waiting carries it out with one run at most, and which of its exits is
taken.
-/

namespace AtsEndpoint

/-- A request that has ended shows in STATUS. -/
theorem Work.Outcome.status_ne_zero (outcome : Work.Outcome) : outcome.status ≠ 0 := by
  cases outcome with
  | aborted consumed => exact (by decide : Status.done ||| Status.failed ≠ 0)
  | _ => exact (by decide : Status.done ≠ 0)

/-- What STATUS holds when a request has been counted as completed, by the way
in which it ended. -/
def Work.endStatus : Except Fault Work.Outcome → UInt32
  | .ok outcome => outcome.status
  | .error _ => Status.done ||| Status.failed

theorem Work.endStatus_ne_zero (ended : Except Fault Work.Outcome) : Work.endStatus ended ≠ 0 := by
  cases ended with
  | ok outcome => exact outcome.status_ne_zero
  | error fault => exact (by decide : Status.done ||| Status.failed ≠ 0)

/-- Some access to a memory of this kind fails with this fault. -/
inductive PhysicalMemory.CanFail (μ : Type v) [PhysicalMemory μ] (fault : Fault) : Prop
  | read {memory : μ} {physical : Address} {count : Nat}
      (h : (PhysicalMemory.read memory physical count).answer = .error fault)
  | write {memory : μ} {physical : Address} {bytes : List UInt8}
      (h : (PhysicalMemory.write memory physical bytes).answer = .error fault)

open PhysicalMemory (CanFail)

/-- A host memory fails with faults of the transport alone. -/
theorem HostMemory.kind_of_canFail {fault : Fault} (h : CanFail HostMemory fault) :
    fault.kind = .transport := by
  cases h with
  | @read memory physical count hread =>
      rw [answer_read] at hread
      by_cases hcovers : memory.Covers physical count
      · rw [peek_of_covers hcovers] at hread
        cases hread
      · obtain ⟨other, hpeek, hkind⟩ := peek_of_not_covers hcovers
        rwa [Except.error.inj (hread.symm.trans hpeek)]
  | @write memory physical bytes hwrite =>
      rw [answer_write] at hwrite
      by_cases hcovers : memory.Covers physical bytes.length
      · rw [poke_of_locate (locate_of_covers hcovers)] at hwrite
        cases hwrite
      · obtain ⟨other, hlocate, hkind⟩ := locate_of_not_covers hcovers
        rw [poke_of_locate_error hlocate] at hwrite
        rwa [← Except.error.inj hwrite]

namespace Worker

variable {α : Type u} {μ : Type v} [TranslationAgent α] [PhysicalMemory μ]
variable {worker : Worker α μ} {fault : Fault}

theorem canFail_gather {address : Address} {remaining : UInt64} {bytes : ByteArray}
    (h : (worker.gather address remaining bytes).1 = .error fault) : CanFail μ fault := by
  fun_induction Worker.gather worker address remaining bytes with
  | case1 => cases h
  | case2 => cases h
  | case3 worker address remaining bytes _ ensured region _ physical chunk _ after hread =>
      cases h
      exact .read (congrArg Prod.fst hread)
  | case4 _ _ _ _ _ _ _ _ _ _ _ _ _ ih => exact ih h

/-- Work fails only with a fault that the memory has given. -/
theorem canFail_perform {request : Work.Request} (h : (worker.perform request).1 = .error fault) :
    CanFail μ fault := by
  cases request with
  | translate range => cases h
  | read address =>
      obtain ⟨_, _, _, hended⟩ | ⟨_, _, _, _, _, hread, hended⟩ | ⟨_, _, _, _, _, _, hended⟩ :=
        worker.read_cases address
      · rw [perform, hended] at h
        cases h
      · rw [perform, hended] at h
        cases h
        exact .read (congrArg Prod.fst hread)
      · rw [perform, hended] at h
        cases h
  | write address word =>
      obtain ⟨_, _, _, hended⟩ | ⟨_, _, _, _, _, hwrite, hended⟩ | ⟨_, _, _, _, _, hended⟩ :=
        worker.write_cases address word
      · rw [perform, hended] at h
        cases h
      · rw [perform, hended] at h
        cases h
        exact .write (congrArg Prod.fst hwrite)
      · rw [perform, hended] at h
        cases h
  | checksum range =>
      rw [perform, fst_checksum] at h
      cases hgather : (worker.gather range.start range.length .empty).1 with
      | error other =>
          rw [hgather] at h
          cases h
          exact canFail_gather hgather
      | ok gathered =>
          rw [hgather] at h
          cases h

end Worker

namespace Endpoint

variable {α : Type u} {μ : Type v} [TranslationAgent α] [PhysicalMemory μ]
variable {endpoint current final : Endpoint α μ} {done rest : List Work.Request} {trace : Trace}
variable {request : Work.Request} {fault : Fault}

theorem canFail_execute (h : (endpoint.execute request).result = .error fault) :
    CanFail μ fault :=
  Worker.canFail_perform ((endpoint.worker.fst_execute request).symm.trans h)

/-- A turn that ends well leaves in STATUS how its request ended, and the other
registers as the request left them. A failure goes on only if it is reported. -/
theorem registers_advance (hok : (endpoint.advance request rest).result = .ok ()) :
    let run := (endpoint.atTurn rest).execute request
    (endpoint.advance request rest).state.registers =
        { run.state.registers with status := Work.endStatus run.result } ∧
      (endpoint.advance request rest).state.memory = run.state.memory ∧
      ∀ fault, run.result = .error fault → endpoint.config.onFailure = .report := by
  intro run
  have hends : (endpoint.atTurn rest).worker.Ends request run.state.toDatapath run.result :=
    (endpoint.atTurn rest).ends_execute request
  obtain ⟨outcome, hrun, _, hstate, _⟩ | ⟨fault, hrun, hpolicy, _, _, hstate⟩ |
    ⟨_, _, _, hfault, _⟩ := endpoint.advance_cases request rest
  · change run.result = .ok outcome at hrun
    rw [hrun] at hends ⊢
    have hstatus : run.state.registers.status = outcome.status :=
      congrArg RegisterFile.status hends.registers
    rw [hstate, Work.endStatus, ← hstatus]
    exact ⟨rfl, rfl, fun _ h => nomatch h⟩
  · change run.result = .error fault at hrun
    rw [hstate, hrun]
    exact ⟨rfl, rfl, fun _ _ => hpolicy⟩
  · rw [hok] at hfault
    cases hfault

/-- A turn that ends with a fault hands on that of its request. -/
theorem execute_of_advance_error (h : (endpoint.advance request rest).result = .error fault) :
    ((endpoint.atTurn rest).execute request).result = .error fault := by
  obtain ⟨_, _, hok, _⟩ | ⟨_, _, _, hok, _⟩ | ⟨_, hfailed, _, hsame, _⟩ :=
    endpoint.advance_cases request rest
  · rw [h] at hok
    cases hok
  · rw [h] at hok
    cases hok
  · rw [hfailed, Except.error.inj (hsame.symm.trans h)]

/-- After turns that end well STATUS is set, if there were any. -/
theorem Turns.status_ne_zero (h : endpoint.Turns done current rest trace) (hdone : done ≠ []) :
    current.registers.status ≠ 0 := by
  cases h with
  | start => exact absurd rfl hdone
  | next _ hok =>
      rw [(registers_advance hok).1]
      exact Work.endStatus_ne_zero _

/-- A run of queued work that ends well leaves STATUS set. -/
theorem status_runPending {count : Nat} (hrun : endpoint.runPending.result = .ok count)
    (hpending : endpoint.pending ≠ []) : endpoint.runPending.state.registers.status ≠ 0 := by
  cases hhalted : endpoint.halted with
  | true =>
      rw [runPending_of_halted hhalted] at hrun
      cases hrun
  | false =>
      obtain ⟨done, current, rest, trace, hturns, ⟨rfl, hended⟩ | ⟨_, _, _, _, _, hended⟩⟩ :=
        runPending_cases hhalted
      · have hqueue := hturns.progress.queue
        rw [List.append_nil] at hqueue
        rw [hended]
        exact hturns.status_ne_zero (hqueue ▸ hpending)
      · rw [hended] at hrun
        cases hrun

/-- A run is refused because the endpoint is halted, or ends with a fault that
the memory has given. -/
theorem fault_runPending (hrun : endpoint.runPending.result = .error fault) :
    fault = .halted ∨ CanFail μ fault := by
  cases hhalted : endpoint.halted with
  | true =>
      rw [runPending_of_halted hhalted] at hrun
      cases hrun
      exact .inl rfl
  | false =>
      obtain ⟨_, _, _, _, _, ⟨_, hended⟩ | ⟨_, _, _, _, hfault, hended⟩⟩ :=
        runPending_cases hhalted
      · rw [hended] at hrun
        cases hrun
      · rw [hended] at hrun
        cases hrun
        exact .inr (canFail_execute (execute_of_advance_error hfault))

/-- Polling STATUS until it is set, with queued work run between two looks: the
number of runs, the result, and the endpoint afterwards. -/
inductive Polls : Endpoint α μ → Nat → Except Fault Completion → Endpoint α μ → Prop
  | seen {endpoint : Endpoint α μ} (hset : endpoint.registers.status ≠ 0) :
      Polls endpoint 0 (.ok (.ofStatus endpoint.registers.status)) endpoint
  | idle {endpoint : Endpoint α μ} (hclear : endpoint.registers.status = 0)
      (hpending : endpoint.pending = []) :
      Polls endpoint 0 (.error (.state .nothingPending)) endpoint
  | failed {endpoint : Endpoint α μ} {fault : Fault} (hclear : endpoint.registers.status = 0)
      (hpending : endpoint.pending ≠ []) (hrun : endpoint.runPending.result = .error fault) :
      Polls endpoint 1 (.error fault) endpoint.runPending.state
  | again {endpoint final : Endpoint α μ} {count runs : Nat} {result : Except Fault Completion}
      (hclear : endpoint.registers.status = 0) (hpending : endpoint.pending ≠ [])
      (hrun : endpoint.runPending.result = .ok count)
      (h : Polls endpoint.runPending.state runs result final) :
      Polls endpoint (runs + 1) result final

namespace Polls

variable {runs : Nat} {result : Except Fault Completion}

/-- When STATUS is set, the loop ends at once. -/
theorem of_set (h : endpoint.Polls runs result final) (hset : endpoint.registers.status ≠ 0) :
    runs = 0 ∧ result = .ok (.ofStatus endpoint.registers.status) ∧ final = endpoint := by
  cases h with
  | seen => exact ⟨rfl, rfl, rfl⟩
  | idle hclear => exact absurd hclear hset
  | failed hclear => exact absurd hclear hset
  | again hclear => exact absurd hclear hset

/-- The loop runs the queue once at most. -/
theorem runs_le_one (h : endpoint.Polls runs result final) : runs ≤ 1 := by
  cases h with
  | seen => exact Nat.zero_le 1
  | idle => exact Nat.zero_le 1
  | failed => exact Nat.le_refl 1
  | again _ hpending hrun h =>
      obtain ⟨rfl, _, _⟩ := h.of_set (status_runPending hrun hpending)
      exact Nat.le_refl 1

/-- The exits of the loop: nothing is queued, the run of the queued work fails,
or STATUS is set. -/
theorem exits (h : endpoint.Polls runs result final) :
    let clear := endpoint.registers.status = 0
    let run := endpoint.runPending
    (clear ∧ endpoint.pending = [] ∧ result = .error (.state .nothingPending)) ∨
      (∃ fault, clear ∧ endpoint.pending ≠ [] ∧ run.result = .error fault ∧
        result = .error fault) ∨
      ((¬clear ∨ endpoint.pending ≠ [] ∧ ∃ count, run.result = .ok count) ∧
        final.registers.status ≠ 0 ∧ result = .ok (.ofStatus final.registers.status)) := by
  cases h with
  | seen hset => exact .inr (.inr ⟨.inl hset, hset, rfl⟩)
  | idle hclear hpending => exact .inl ⟨hclear, hpending, rfl⟩
  | failed hclear hpending hrun => exact .inr (.inl ⟨_, hclear, hpending, hrun, rfl⟩)
  | again _ hpending hrun h =>
      have hset := status_runPending hrun hpending
      obtain ⟨_, rfl, rfl⟩ := h.of_set hset
      exact .inr (.inr ⟨.inr ⟨hpending, _, hrun⟩, hset, rfl⟩)

end Polls

end Endpoint

namespace Host

open Endpoint

variable {α : Type u} {μ : Type v}

theorem result_read_status (endpoint : Endpoint α μ) :
    (endpoint.read32 Register.status.offset).result = endpoint.registers.status :=
  endpoint.registers.read_offset .status (by decide)

variable [TranslationAgent α] [PhysicalMemory μ] {endpoint final : Endpoint α μ}
variable {runs : Nat} {result : Except Fault Completion}

/-- Whatever the loop does, polling does. -/
theorem poll_of_polls (h : endpoint.Polls runs result final) (polls : Nat) (trace : Trace) :
    (poll endpoint polls trace).result = result ∧ (poll endpoint polls trace).state = final := by
  induction h generalizing polls trace with
  | seen hset =>
      rw [poll]
      simp only [result_read_status, if_pos hset, and_self]
  | idle hclear hpending =>
      rw [poll]
      simp only [result_read_status, if_neg (not_not_intro hclear), if_pos hpending,
        and_self]
  | failed hclear hpending hrun =>
      rw [poll]
      simp only [result_read_status, if_neg (not_not_intro hclear), if_neg hpending]
      split
      next hended =>
        rw [hended] at hrun ⊢
        cases hrun
        exact ⟨rfl, rfl⟩
      next hended =>
        rw [hended] at hrun
        cases hrun
  | again hclear hpending hrun _ ih =>
      rw [poll]
      simp only [result_read_status, if_neg (not_not_intro hclear), if_neg hpending]
      split
      next hended =>
        rw [hended] at hrun
        cases hrun
      next hended =>
        rw [hended] at ih
        exact ih _ _

/-- The loop ends, and waiting is what it does. -/
theorem waitForDone_eq_of_polls (h : endpoint.Polls runs result final) :
    (waitForDone endpoint).result = result ∧ (waitForDone endpoint).state = final :=
  poll_of_polls h 0 #[]

theorem exists_polls (endpoint : Endpoint α μ) :
    ∃ runs result final, endpoint.Polls runs result final := by
  by_cases hset : endpoint.registers.status = 0
  · by_cases hpending : endpoint.pending = []
    · exact ⟨_, _, _, .idle hset hpending⟩
    -- The look after a run that ends well finds STATUS set.
    · cases hrun : endpoint.runPending.result with
      | error fault => exact ⟨_, _, _, .failed hset hpending hrun⟩
      | ok count =>
          exact ⟨_, _, _, .again hset hpending hrun (.seen (status_runPending hrun hpending))⟩
  · exact ⟨_, _, _, .seen hset⟩

/-- Waiting for queued work gives the fault of its run, or what STATUS says
after it. -/
theorem waitForDone_of_queued (hclear : endpoint.registers.status = 0)
    (hpending : endpoint.pending ≠ []) :
    let run := endpoint.runPending
    (waitForDone endpoint).result =
        run.result.map (fun _ => .ofStatus run.state.registers.status) ∧
      (waitForDone endpoint).state = run.state := by
  intro run
  cases hrun : run.result with
  | error fault => exact waitForDone_eq_of_polls (.failed hclear hpending hrun)
  | ok count =>
      have hset := status_runPending hrun hpending
      exact waitForDone_eq_of_polls (.again hclear hpending hrun (.seen hset))

/-- The state is not one to wait in if STATUS is clear and nothing is queued. Any
other fault of the state is that of a run. -/
theorem waitForDone_state_iff (endpoint : Endpoint α μ) :
    (∃ problem, (waitForDone endpoint).result = .error (.state problem)) ↔
      endpoint.registers.status = 0 ∧ (endpoint.pending = [] ∨
        ∃ problem, endpoint.runPending.result = .error (.state problem)) := by
  by_cases hclear : endpoint.registers.status = 0
  · by_cases hpending : endpoint.pending = []
    · have hidle := (waitForDone_eq_of_polls (.idle hclear hpending)).1
      exact ⟨fun _ => ⟨hclear, .inl hpending⟩, fun _ => ⟨_, hidle⟩⟩
    · rw [(waitForDone_of_queued hclear hpending).1]
      cases endpoint.runPending.result <;> simp [Except.map, hclear, hpending]
  · rw [(waitForDone_eq_of_polls (.seen hclear)).1]
    simp [hclear]

/-- Waiting ends after one run of the queue at most. If STATUS is clear and
nothing is queued, the state is not one to wait in. If STATUS is clear and the
run of the queued work fails, its fault is handed on: that of a halted endpoint,
or one that the memory has given. In all other cases STATUS is set at the end,
and the host is told what it says. So waiting refuses just when there is nothing
to wait for, and a fault of the state that is not this refusal is handed on from a
run; a memory that never fails with such a fault leaves the refusal alone. -/
theorem waitForDone_runs_once (endpoint : Endpoint α μ) :
    let wait := waitForDone endpoint
    let run := endpoint.runPending
    let clear := endpoint.registers.status = 0
    (∃ runs ≤ 1, endpoint.Polls runs wait.result wait.state) ∧
      (∀ runs result final, endpoint.Polls runs result final →
        runs ≤ 1 ∧ result = wait.result ∧ final = wait.state) ∧
      ((clear ∧ endpoint.pending = [] ∧ wait.result = .error (.state .nothingPending)) ∨
        (∃ fault, clear ∧ endpoint.pending ≠ [] ∧ run.result = .error fault ∧
          wait.result = .error fault ∧ (fault = .halted ∨ CanFail μ fault)) ∨
        ((¬clear ∨ endpoint.pending ≠ [] ∧ ∃ count, run.result = .ok count) ∧
          wait.state.registers.status ≠ 0 ∧
          wait.result = .ok (.ofStatus wait.state.registers.status))) ∧
      ((∃ problem, wait.result = .error (.state problem)) ↔
        clear ∧ (endpoint.pending = [] ∨ ∃ problem, run.result = .error (.state problem))) ∧
      ((∀ problem, ¬ CanFail μ (.state problem)) →
        ((∃ problem, wait.result = .error (.state problem)) ↔
          clear ∧ endpoint.pending = [])) := by
  intro wait run clear
  obtain ⟨runs, result, final, hpolls⟩ := exists_polls endpoint
  obtain ⟨hresult, hstate⟩ := waitForDone_eq_of_polls hpolls
  have hexits := hpolls.exits
  change wait.result = result at hresult
  change wait.state = final at hstate
  rw [← hresult, ← hstate] at hpolls hexits
  refine ⟨⟨runs, hpolls.runs_le_one, hpolls⟩, ?_, ?_, waitForDone_state_iff endpoint, ?_⟩
  · intro runs result final h
    obtain ⟨hresult, hstate⟩ := waitForDone_eq_of_polls h
    exact ⟨h.runs_le_one, hresult.symm, hstate.symm⟩
  · refine hexits.imp_right (.imp_left ?_)
    rintro ⟨fault, hclear, hpending, hrun, hfault⟩
    exact ⟨fault, hclear, hpending, hrun, hfault, fault_runPending hrun⟩
  · intro hmemory
    have hnone : ¬ ∃ problem, run.result = .error (.state problem) := by
      rintro ⟨problem, hproblem⟩
      obtain hhalted | hmem := fault_runPending hproblem
      · cases hhalted
      · exact hmemory problem hmem
    exact (waitForDone_state_iff endpoint).trans (and_congr_right fun _ => or_iff_left hnone)

/-- Waiting on an empty queue, behind a read that fails, and behind one that is done. -/
theorem waitForDone_runs_once_paged :
    let failing := paged.setPending [.read 0x9000]
    let working := paged.setPending [.read 0x8000]
    (∀ problem, ¬ CanFail HostMemory (.state problem)) ∧
      (∃ problem, (waitForDone paged).result = .error (.state problem)) ∧
      (∃ fault, (waitForDone failing).result = .error fault) ∧
      (¬ ∃ problem, (waitForDone failing).result = .error (.state problem)) ∧
      (waitForDone working).result = .ok ⟨true, false⟩ := by
  intro failing working
  have hmemory (problem : StateProblem) : ¬ CanFail HostMemory (.state problem) := by
    intro h
    cases HostMemory.kind_of_canFail h
  obtain ⟨_, _, _, _, hidle⟩ := waitForDone_runs_once paged
  obtain ⟨_, _, _, _, hqueued⟩ := waitForDone_runs_once failing
  obtain ⟨_, _, hexits, _⟩ := waitForDone_runs_once working
  have hrun : working.runPending.result = .ok 1 := eq_ok_of_toOption (by decide +kernel)
  refine ⟨hmemory, (hidle hmemory).mpr ⟨rfl, rfl⟩, ?_, ?_, ?_⟩
  · exact exists_eq_error_of_toOption (by decide +kernel)
  · intro h
    cases ((hqueued hmemory).mp h).2
  · obtain ⟨_, hempty, _⟩ | ⟨fault, _, _, hfailed, _⟩ | ⟨_, _, hdone⟩ := hexits
    · cases hempty
    · rw [hrun] at hfailed
      cases hfailed
    · exact hdone.trans (congrArg Except.ok (by decide +kernel))

end Host

end AtsEndpoint
