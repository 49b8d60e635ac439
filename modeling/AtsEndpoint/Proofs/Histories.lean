import AtsEndpoint.Proofs.Driving

/-!
# Histories

Whatever happens to an endpoint is a history of actions: register and
configuration accesses, runs of the queue, operations of the host, requests run
past the queue, notices, drains, resets, and changes on the far side of the
translation agent and the memory.

A history keeps accounts of the queue. The requests that were taken from it, and
those still in it, are together the ones that CTRL writes asked for, each once
and in the order in which they were asked for. Every request taken is completed,
unless it has halted the endpoint.
-/

namespace AtsEndpoint

/-- What a host can do to an endpoint. -/
inductive HostAction
  /-- Send a transaction to a window. -/
  | transact (bar : UInt32) (transaction : Transaction)
  /-- Send a transaction to the configuration space. -/
  | configAccess (transaction : Transaction)
  /-- Read a whole register. -/
  | readRegister (offset : Address)
  /-- Write a whole register. -/
  | writeRegister (offset : Address) (word : UInt32)
  /-- Run every queued request. -/
  | runPending
  /-- Let the driver carry out an operation. -/
  | operate (operation : Host.Operation)

/-- The host accesses a register or the configuration space, and runs nothing. -/
inductive HostAction.IsAccess : HostAction → Prop
  | transact (bar : UInt32) (transaction : Transaction) : IsAccess (.transact bar transaction)
  | configAccess (transaction : Transaction) : IsAccess (.configAccess transaction)
  | readRegister (offset : Address) : IsAccess (.readRegister offset)
  | writeRegister (offset : Address) (word : UInt32) : IsAccess (.writeRegister offset word)

/-- What can happen to an endpoint. -/
inductive Action (α : Type u) (μ : Type v)
  /-- The host acts. -/
  | host (action : HostAction)
  /-- A notice arrives in the queue. -/
  | post (notice : Notice)
  /-- A notice is applied at once. -/
  | handle (notice : Notice)
  /-- Every waiting notice is applied. -/
  | drain
  /-- The reset line is asserted. -/
  | reset
  /-- One request runs at once, past the queue. -/
  | execute (request : Work.Request)
  /-- The agent and the memory are no longer what they were. -/
  | exchange (agent : α) (memory : μ)

/-- The register writes of a host action. -/
def HostAction.writes : HostAction → List (Address × UInt32)
  | transact bar transaction => transaction.writes bar
  | writeRegister offset word => [(offset, word)]
  | operate operation => operation.writes
  | configAccess _ | readRegister _ | runPending => []

namespace Action

variable {α : Type u} {μ : Type v}

/-- The register writes of an action. -/
def writes : Action α μ → List (Address × UInt32)
  | host action => action.writes
  | _ => []

/-- The notices that an action puts into the queue. -/
def posts : Action α μ → List Notice
  | post notice => [notice]
  | _ => []

end Action

namespace Endpoint

variable {α : Type u} {μ : Type v}

/-! ## Accounts of the queue -/

/-- The requests taken from the queue, and those still in it, are the ones that
were in it before and those asked for since. Those taken are completed, or have
halted the endpoint. -/
structure Accounts (endpoint next : Endpoint α μ) (asked : List Work.Request) (trace : Trace) :
    Prop where
  queue : taken trace ++ next.pending = endpoint.pending ++ asked
  count : next.completed + (halts trace).length = endpoint.completed + (taken trace).length

variable {endpoint next final : Endpoint α μ} {asked more : List Work.Request}
variable {trace after : Trace}

namespace Accounts

/-- Nothing happens to the queue, but for the requests put behind it. -/
theorem of_quiet (hpending : next.pending = endpoint.pending ++ asked)
    (hcompleted : next.completed = endpoint.completed) (htaken : taken trace = [])
    (hhalts : halts trace = []) : endpoint.Accounts next asked trace := by
  constructor
  · rw [htaken, hpending, List.nil_append]
  · rw [htaken, hhalts, hcompleted]

theorem trans (hfirst : endpoint.Accounts next asked trace)
    (hsecond : next.Accounts final more after) :
    endpoint.Accounts final (asked ++ more) (trace ++ after) := by
  constructor
  · calc taken (trace ++ after) ++ final.pending
        = taken trace ++ (taken after ++ final.pending) := by rw [taken_append, List.append_assoc]
      _ = (taken trace ++ next.pending) ++ more := by rw [hsecond.queue, List.append_assoc]
      _ = endpoint.pending ++ (asked ++ more) := by rw [hfirst.queue, List.append_assoc]
  · have hfirst := hfirst.count
    have hsecond := hsecond.count
    rw [taken_append, halts_append, List.length_append, List.length_append]
    omega

end Accounts

theorem accounts_onBus (endpoint : Endpoint α μ) (h : OnBus trace) :
    endpoint.Accounts endpoint [] trace := by
  refine .of_quiet (List.append_nil _).symm rfl ?_ ?_
  · exact h.observe_eq_nil fun _ hbus => hbus.no_turn.1
  · exact h.observe_eq_nil fun _ hbus => hbus.no_turn.2.2

theorem accounts_writeAll (endpoint : Endpoint α μ) (writes : List (Address × UInt32)) :
    endpoint.Accounts (endpoint.writeAll writes) (endpoint.askedBy writes) #[] :=
  .of_quiet rfl rfl rfl rfl

theorem boot_idle {config : Config} {agent : α} {memory : μ} {start : Endpoint α μ}
    (h : (boot config agent memory).1 = .ok start) :
    start.pending = [] ∧ start.completed = 0 ∧ start.halted = false ∧ start.config = config := by
  unfold boot at h
  split at h
  · cases h
    exact ⟨rfl, rfl, rfl, rfl⟩
  · cases h

variable [TranslationAgent α] [PhysicalMemory μ]

/-! ## Carrying out a history -/

/-- Carry out a host action. -/
def serve (endpoint : Endpoint α μ) : HostAction → Step (Endpoint α μ) Unit
  | .transact bar transaction => (endpoint.transact bar transaction).map fun _ => ()
  | .configAccess transaction => (endpoint.configAccess transaction).map fun _ => ()
  | .readRegister offset => (endpoint.read32 offset).map fun _ => ()
  | .writeRegister offset word => endpoint.write32 offset word
  | .runPending => endpoint.runPending.map fun _ => ()
  | .operate operation => operation.run endpoint

/-- Carry out an action. -/
def act (endpoint : Endpoint α μ) : Action α μ → Step (Endpoint α μ) Unit
  | .host action => endpoint.serve action
  | .post notice => endpoint.post notice
  | .handle notice => (endpoint.handleNotice notice).map fun _ => ()
  | .drain => endpoint.drain.map fun _ => ()
  | .reset => endpoint.reset
  | .execute request => (endpoint.execute request).map fun _ => ()
  | .exchange agent memory => { result := (), state := { endpoint with agent, memory } }

/-- Carry out a history, action after action. -/
def run (endpoint : Endpoint α μ) : List (Action α μ) → Step (Endpoint α μ) Unit
  | [] => { result := (), state := endpoint }
  | action :: rest => (endpoint.act action).andThen fun _ endpoint => endpoint.run rest

/-- The requests that the CTRL writes of a history ask for, in order, each made
of the registers at the write. A write that meets a halted endpoint asks for
nothing. -/
def requested (endpoint : Endpoint α μ) : List (Action α μ) → List Work.Request
  | [] => []
  | action :: rest =>
    endpoint.askedBy action.writes ++ (endpoint.act action).state.requested rest

theorem writes_serve (endpoint : Endpoint α μ) {action : HostAction} (h : action.IsAccess) :
    endpoint.Writes action.writes (endpoint.serve action) := by
  cases h with
  | transact bar transaction => exact (endpoint.writes_transact bar transaction).map fun _ => ()
  | configAccess transaction => exact (endpoint.writes_configAccess transaction).map fun _ => ()
  | readRegister offset => exact (endpoint.writes_read32 offset).map fun _ => ()
  | writeRegister offset word => exact endpoint.writes_write32 offset word

/-- A host action is some register writes, and then one run of the queue at
most. -/
theorem drives_serve (endpoint : Endpoint α μ) (action : HostAction) :
    (endpoint.writeAll action.writes).Drives (endpoint.serve action).state
      (endpoint.serve action).trace := by
  cases action with
  | transact bar transaction => exact (endpoint.writes_serve (.transact _ _)).drives
  | configAccess transaction => exact (endpoint.writes_serve (.configAccess _)).drives
  | readRegister offset => exact (endpoint.writes_serve (.readRegister _)).drives
  | writeRegister offset word => exact (endpoint.writes_serve (.writeRegister _ _)).drives
  | runPending =>
      have hran : endpoint.Drives _ _ := .ran .empty .empty
      simpa only [HostAction.writes, writeAll_nil, serve, Step.state_map, Step.trace_map,
        Array.empty_append, Array.append_empty] using hran
  | operate operation => exact operation.drives_run endpoint

/-! ## Every history keeps the accounts -/

/-- A run of the queue takes requests from its head, and completes all of them
but one that halts the endpoint. -/
theorem accounts_runPending (endpoint : Endpoint α μ) :
    endpoint.Accounts endpoint.runPending.state [] endpoint.runPending.trace := by
  have hqueue := endpoint.queue_runPending.1
  refine ⟨hqueue.symm.trans (List.append_nil _).symm, ?_⟩
  cases hhalted : endpoint.halted with
  | true =>
      rw [runPending_of_halted hhalted]
      rfl
  | false =>
      obtain ⟨_, _, _, hhalts, hcompleted⟩ | ⟨earlier, last, _, htaken, _, _, _, hhalts, hcompleted⟩ :=
        runPending_ends hhalted
      · rw [hhalts, hcompleted]
        rfl
      · rw [hhalts, hcompleted, htaken, List.length_append]
        rfl

theorem Drives.accounts {ready : Endpoint α μ} (h : ready.Drives next trace) :
    ready.Accounts next [] trace := by
  cases h with
  | idle h => exact accounts_onBus _ h
  | ran hbefore hafter =>
      exact ((accounts_onBus _ hbefore).trans (accounts_runPending _)).trans
        (accounts_onBus _ hafter)

/-- Every action keeps the accounts. -/
theorem accounts_act (endpoint : Endpoint α μ) (action : Action α μ) :
    endpoint.Accounts (endpoint.act action).state (endpoint.askedBy action.writes)
      (endpoint.act action).trace := by
  have hnothing : endpoint.askedBy [] = [] := by
    unfold askedBy
    split <;> rfl
  have hquiet {next : Endpoint α μ} {trace : Trace} (hpending : next.pending = endpoint.pending)
      (hcompleted : next.completed = endpoint.completed) (htaken : taken trace = [])
      (hhalts : halts trace = []) : endpoint.Accounts next (endpoint.askedBy []) trace := by
    rw [hnothing]
    exact .of_quiet (by rw [hpending, List.append_nil]) hcompleted htaken hhalts
  cases action with
  | host action =>
      -- The writes come first: a run of the queue may take what they have asked for.
      have hserved := (endpoint.accounts_writeAll action.writes).trans
        (endpoint.drives_serve action).accounts
      rwa [List.append_nil, Array.empty_append] at hserved
  | post notice => exact hquiet rfl rfl rfl rfl
  | handle notice => exact hquiet rfl rfl rfl rfl
  | drain => exact hquiet rfl rfl endpoint.taken_drain endpoint.halts_drain
  | reset =>
      refine hquiet rfl rfl ?_ ?_ <;>
      · simp only [act, reset]
        split <;> rfl
  | execute request =>
      exact hquiet rfl rfl (endpoint.observe_execute Event.sees_taken? request)
        (endpoint.observe_execute Event.sees_haltedOn? request)
  | exchange agent memory => exact hquiet rfl rfl rfl rfl

/-- Every history keeps the accounts. -/
theorem accounts_run (endpoint : Endpoint α μ) (actions : List (Action α μ)) :
    endpoint.Accounts (endpoint.run actions).state (endpoint.requested actions)
      (endpoint.run actions).trace := by
  induction actions generalizing endpoint with
  | nil => exact endpoint.accounts_onBus .empty
  | cons action rest ih => exact (endpoint.accounts_act action).trans (ih _)

/-- In every history of an endpoint, from its start on, what runs of the queue
have taken and what is still queued is together what CTRL writes have asked for,
in order. All that was taken is completed, but for the requests that have halted
the endpoint. A run carries out what it takes, and when it ends well it has
taken the whole queue. -/
theorem taken_append_pending {config : Config} {agent : α} {memory : μ} {start : Endpoint α μ}
    (hboot : (boot config agent memory).1 = .ok start) (actions : List (Action α μ)) :
    let run := start.run actions
    let next := run.state.runPending
    taken run.trace ++ run.state.pending = start.requested actions ∧
      run.state.completed + (halts run.trace).length = (taken run.trace).length ∧
      started next.trace = taken next.trace ∧
      ∀ count, next.result = .ok count →
        next.state.pending = [] ∧ (taken next.trace).length = count := by
  intro run next
  obtain ⟨hpending, hcompleted, _, _⟩ := boot_idle hboot
  have haccounts : start.Accounts run.state (start.requested actions) run.trace :=
    start.accounts_run actions
  refine ⟨?_, ?_, run.state.queue_runPending.2, ?_⟩
  · rw [haccounts.queue, hpending, List.nil_append]
  · rw [haccounts.count, hcompleted, Nat.zero_add]
  · intro count hok
    refine ⟨pending_runPending_of_ok hok, ?_⟩
    change run.state.runPending.result = .ok count at hok
    cases hhalted : run.state.halted with
    | true =>
        rw [runPending_of_halted hhalted] at hok
        cases hok
    | false =>
        obtain ⟨hresult, _⟩ | ⟨_, _, _, _, hresult, _⟩ := runPending_ends hhalted
        · rw [hok] at hresult
          exact (Except.ok.inj hresult).symm
        · rw [hok] at hresult
          cases hresult

/-- The second of three requests halts the endpoint, a fourth is dropped, and
the third runs after a reset. -/
def haltingHistory : List (Action Iommu HostMemory) :=
  [.host (.writeRegister Register.addrLsb.offset 0x8000),
    .host (.writeRegister Register.ctrl.offset (Control.read ||| Control.checksum)),
    .host (.writeRegister Register.addrLsb.offset 0x9000),
    .host (.writeRegister Register.value.offset 0x11223344),
    .host (.writeRegister Register.ctrl.offset Control.write),
    .host (.writeRegister Register.length.offset 0x10),
    .host (.writeRegister Register.ctrl.offset Control.translate),
    .host .runPending,
    .host (.writeRegister Register.ctrl.offset Control.checksum),
    .reset,
    .host .runPending]

theorem taken_haltingHistory :
    (boot {} pages (.zeroed 0x8000 0x4000)).1 = .ok paged ∧
      paged.requested haltingHistory =
        [.read 0x8000, .write 0x9000 0x11223344, .translate ⟨0x9000, 0x10⟩] ∧
      halts (paged.run haltingHistory).trace = [.write 0x9000 0x11223344] ∧
      taken (paged.run haltingHistory).trace ++ (paged.run haltingHistory).state.pending =
        paged.requested haltingHistory ∧
      (paged.run haltingHistory).state.completed + 1 =
        (taken (paged.run haltingHistory).trace).length := by
  have hhalts : halts (paged.run haltingHistory).trace = [.write 0x9000 0x11223344] := by
    decide +kernel
  obtain ⟨hqueue, hcount, _⟩ := taken_append_pending boot_paged haltingHistory
  rw [hhalts] at hcount
  exact ⟨boot_paged, by decide +kernel, hhalts, hqueue, hcount⟩

end Endpoint

end AtsEndpoint
