import AtsEndpoint.Transaction
import AtsEndpoint.Worker

/-!
# The endpoint

An endpoint is a datapath, a valid configuration, and a queue of work. The host
reaches it through the register window only: a CTRL write that fires a trigger
puts one request, with the operands of that moment, behind the queue. Nothing
runs on the write itself.

An endpoint that has halted drops triggers until it is reset. A reset returns
the registers to zero and keeps the queue; it keeps the cache as well, unless
the configuration says otherwise.
-/

namespace AtsEndpoint

/-- An endpoint with its translation agent and its physical memory. -/
structure Endpoint (α : Type u) (μ : Type v) extends Datapath α μ where
  /-- The configuration. -/
  config : Config
  /-- The configuration is valid. -/
  config_valid : config.IsValid
  /-- The requests that wait, the oldest first. -/
  pending : List Work.Request := []
  /-- The endpoint has stopped and waits for a reset. -/
  halted : Bool := false
  /-- The number of requests completed. -/
  completed : Nat := 0

namespace Endpoint

variable {α : Type u} {μ : Type v}

/-! ## Coming up -/

/-- Bring up an endpoint, or refuse a configuration that is not valid. -/
def boot (config : Config) (agent : α) (memory : μ) : Except Fault (Endpoint α μ) × Trace :=
  if h : config.IsValid then
    (.ok { agent, memory, config, config_valid := h }, #[.configAccepted config, .started config])
  else (.error config.invalid, #[])

/-- Bring up an endpoint with the default configuration, which needs no check. -/
def bootDefault (agent : α) (memory : μ) : Endpoint α μ × Trace :=
  ({ agent, memory, config := {}, config_valid := Config.isValid_default }, #[.started {}])

/-- The unit in which the endpoint fills and walks. -/
def granule (endpoint : Endpoint α μ) : Granule :=
  ⟨endpoint.config.granule, endpoint.config_valid⟩

/-- Some request waits. -/
def hasPending (endpoint : Endpoint α μ) : Bool :=
  !endpoint.pending.isEmpty

/-! ## Register access -/

/-- Queue the request that a CTRL write fires, if it fires one. -/
def dispatch (endpoint : Endpoint α μ) (control : UInt32) : Step (Endpoint α μ) Unit :=
  if endpoint.halted then
    { result := (), state := endpoint, trace := #[.triggerDropped control] }
  else
    match Work.Request.decode? control endpoint.registers with
    | none => { result := (), state := endpoint }
    | some request =>
      { result := ()
        state := { endpoint with pending := endpoint.pending ++ [request] }
        trace := #[.triggered control request] }

/-- Act on what a register write did: only a CTRL write goes further. -/
def settle (endpoint : Endpoint α μ) : WriteEffect → Step (Endpoint α μ) Unit
  | .control value => endpoint.dispatch value
  | _ => { result := (), state := endpoint }

/-- Serve a transaction on a window. The result is the buffer afterwards. -/
def transact (endpoint : Endpoint α μ) (bar : UInt32) (transaction : Transaction) :
    Step (Endpoint α μ) (Except Fault (List UInt8)) :=
  if bar ≠ Bar.registers.index then
    { result := .error (.bus transaction.offset (.noWindow bar)), state := endpoint }
  else
    let served := endpoint.registers.serve transaction
    match served.result with
    | .error fault => { result := .error fault, state := endpoint, trace := served.trace }
    | .ok done =>
      let endpoint := { endpoint with registers := served.state }
      let settled : Step (Endpoint α μ) Unit :=
        match done with
        | .fetched _ => { result := (), state := endpoint }
        | .wrote effect => endpoint.settle effect
      { result := .ok (done.buffer transaction)
        state := settled.state
        trace := served.trace ++ settled.trace }

/-- Acknowledge a transaction on the configuration space. It has no effect. -/
def configAccess (endpoint : Endpoint α μ) (transaction : Transaction) :
    Step (Endpoint α μ) (List UInt8) :=
  { result := transaction.data, state := endpoint, trace := #[.configAccess transaction.offset] }

/-- Read a whole register. -/
def read32 (endpoint : Endpoint α μ) (offset : Address) : Step (Endpoint α μ) UInt32 :=
  let word := endpoint.registers.read offset
  { result := word, state := endpoint, trace := #[.registerRead offset word] }

/-- Write a whole register. -/
def write32 (endpoint : Endpoint α μ) (offset : Address) (word : UInt32) :
    Step (Endpoint α μ) Unit :=
  let (registers, effect) := endpoint.registers.write offset word
  let settled := settle { endpoint with registers } effect
  { settled with trace := #[.registerWritten offset word] ++ settled.trace }

/-! ## Notices -/

/-- Put a notice into the queue. -/
def post (endpoint : Endpoint α μ) (notice : Notice) : Step (Endpoint α μ) Unit :=
  { result := ()
    state := { endpoint with notices := endpoint.notices.post [notice] }
    trace := #[.posted notice] }

/-- Apply one notice at once, and count the regions it drops. -/
def handleNotice (endpoint : Endpoint α μ) (notice : Notice) : Step (Endpoint α μ) Nat :=
  let handled := endpoint.notices.handle endpoint.cache notice
  { result := handled.result
    state := { endpoint with notices := handled.state.1, cache := handled.state.2 }
    trace := handled.trace }

/-- Apply every waiting notice, and count them. -/
def drain (endpoint : Endpoint α μ) : Step (Endpoint α μ) Nat :=
  let drained := endpoint.notices.drain endpoint.cache
  { result := drained.result
    state := { endpoint with notices := drained.state.1, cache := drained.state.2 }
    trace := drained.trace }

/-! ## Reset -/

/-- Assert the reset line. -/
def reset (endpoint : Endpoint α μ) : Step (Endpoint α μ) Unit :=
  let flushed : Step Cache Unit :=
    if endpoint.config.flushOnReset then endpoint.cache.flush
    else { result := (), state := endpoint.cache }
  { result := ()
    state := { endpoint with registers := {}, halted := false, cache := flushed.state }
    trace := flushed.trace.push (.wasReset flushed.state.size) }

end Endpoint

end AtsEndpoint
