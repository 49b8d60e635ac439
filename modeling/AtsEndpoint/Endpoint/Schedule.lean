import AtsEndpoint.Endpoint

/-!
# Scheduling

The scheduler runs the queued requests one at a time, each to its end, and
applies the waiting notices before each of them and after the last. Under the
fail-fast policy the first physical access that fails halts the endpoint, and
the requests behind it stay queued. Under the report policy the failure is set
in STATUS, and the next request runs.
-/

namespace AtsEndpoint.Endpoint

variable {α : Type u} {μ : Type v} [TranslationAgent α] [PhysicalMemory μ]

/-- A worker on the datapath of the endpoint. -/
def worker (endpoint : Endpoint α μ) : Worker α μ :=
  { toDatapath := endpoint.toDatapath, granule := endpoint.granule }

/-- Run one request at once, past the queue. When a physical access fails,
STATUS is left alone. -/
def execute (endpoint : Endpoint α μ) (request : Work.Request) :
    Step (Endpoint α μ) (Except Fault Work.Outcome) :=
  let (result, worker) := endpoint.worker.execute request
  { result
    state := { endpoint with toDatapath := worker.toDatapath }
    trace := worker.trace }

/-- Replace the queue. -/
def setPending (endpoint : Endpoint α μ) (queue : List Work.Request) : Endpoint α μ :=
  { endpoint with pending := queue }

/-- Count a request as completed. -/
def countCompleted (endpoint : Endpoint α μ) : Endpoint α μ :=
  { endpoint with completed := endpoint.completed + 1 }

/-- Act on the result of a request. One that ended counts as completed. One
whose physical access failed either halts the endpoint and hands the fault on,
or sets STATUS and counts as completed, as the policy says. -/
def conclude (endpoint : Endpoint α μ) (request : Work.Request) :
    Except Fault Work.Outcome → Step (Endpoint α μ) (Except Fault Unit)
  | .ok _ => { result := .ok (), state := endpoint.countCompleted }
  | .error fault =>
    match endpoint.config.onFailure with
    | .failFast =>
      { result := .error fault
        state := { endpoint with halted := true }
        trace := #[.haltedOn request fault] }
    | .report =>
      { result := .ok ()
        state := countCompleted { endpoint with registers := endpoint.registers.fail }
        trace := #[.requestFailed request fault] }

/-- Apply the waiting notices, take a request from the head of the queue,
leaving the rest, and run it. A fault means that the endpoint has halted. -/
def advance (endpoint : Endpoint α μ) (request : Work.Request) (rest : List Work.Request) :
    Step (Endpoint α μ) (Except Fault Unit) :=
  let drained := endpoint.drain
  let run := (drained.state.setPending rest).execute request
  let concluded := run.state.conclude request run.result
  { concluded with
    trace := drained.trace.push (.taken request) ++ run.trace ++ concluded.trace }

/-- Run the requests of a queue in order, and count them onto those that ran
before. The events follow those given. -/
def runQueue (endpoint : Endpoint α μ) (ran : Nat) (trace : Trace) :
    List Work.Request → Step (Endpoint α μ) (Except Fault Nat)
  | [] =>
    let drained := endpoint.drain
    { result := .ok ran
      state := drained.state.setPending []
      trace := trace ++ drained.trace }
  | request :: rest =>
    let step := endpoint.advance request rest
    match step.result with
    | .ok () => runQueue step.state (ran + 1) (trace ++ step.trace) rest
    | .error fault =>
      { result := .error fault, state := step.state, trace := trace ++ step.trace }

/-- Run every queued request, and count those that ran. A halted endpoint runs
nothing. -/
def runPending (endpoint : Endpoint α μ) : Step (Endpoint α μ) (Except Fault Nat) :=
  if endpoint.halted then { result := .error .halted, state := endpoint }
  else runQueue endpoint 0 #[] endpoint.pending

@[simp] theorem pending_execute (endpoint : Endpoint α μ) (request : Work.Request) :
    (endpoint.execute request).state.pending = endpoint.pending := rfl
@[simp] theorem halted_execute (endpoint : Endpoint α μ) (request : Work.Request) :
    (endpoint.execute request).state.halted = endpoint.halted := rfl
@[simp] theorem config_execute (endpoint : Endpoint α μ) (request : Work.Request) :
    (endpoint.execute request).state.config = endpoint.config := rfl
@[simp] theorem completed_execute (endpoint : Endpoint α μ) (request : Work.Request) :
    (endpoint.execute request).state.completed = endpoint.completed := rfl

theorem pending_runQueue_of_ok {endpoint : Endpoint α μ} {ran count : Nat} {trace : Trace}
    {queue : List Work.Request} (h : (endpoint.runQueue ran trace queue).result = .ok count) :
    (endpoint.runQueue ran trace queue).state.pending = [] := by
  induction queue generalizing endpoint ran trace with
  | nil => rfl
  | cons request rest ih =>
    rw [runQueue] at h ⊢
    cases hresult : (endpoint.advance request rest).result with
    | ok _ =>
      simp only [hresult] at h ⊢
      exact ih h
    | error fault => simp [hresult] at h

/-- A run that ends well leaves nothing in the queue. -/
theorem pending_runPending_of_ok {endpoint : Endpoint α μ} {count : Nat}
    (h : endpoint.runPending.result = .ok count) : endpoint.runPending.state.pending = [] := by
  unfold runPending at h ⊢
  cases hhalted : endpoint.halted with
  | true => simp [hhalted] at h
  | false =>
    simp only [hhalted] at h ⊢
    exact pending_runQueue_of_ok h

end AtsEndpoint.Endpoint
