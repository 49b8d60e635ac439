import AtsEndpoint.Host
import AtsEndpoint.Proofs.Turns

/-!
# What a host does to an endpoint

A host writes registers and reads them. A write to CTRL asks for a request, made
of the registers at that write; an endpoint that is not halted puts it behind
the queue. Register accesses do no more than that, in whatever shape they come.

The operations of the host are writes, followed by a wait that lets the queue
run once at most. So all that a host does comes down to some writes and, it may
be, one run of the queue.
-/

namespace AtsEndpoint

namespace RegisterFile

/-- The request that a word in CTRL asks for: the operation of the lowest of the
four trigger bits that is set, on the operands that the registers hold. -/
def asked? (registers : RegisterFile) (control : UInt32) : Option Work.Request :=
  if control &&& 1 ≠ 0 then
    some (.translate ⟨registers.address, registers.length.toUInt64⟩)
  else if control &&& 2 ≠ 0 then some (.read registers.address)
  else if control &&& 4 ≠ 0 then some (.write registers.address registers.value)
  else if control &&& 8 ≠ 0 then
    some (.checksum ⟨registers.address, registers.length.toUInt64⟩)
  else none

/-- The registers after writes from the bus. -/
def writeAll (registers : RegisterFile) : List (Address × UInt32) → RegisterFile
  | [] => registers
  | (offset, word) :: rest => (registers.write offset word).1.writeAll rest

/-- The requests that writes from the bus ask for, in order. Each comes from a
write to CTRL and is made of the registers at that write. -/
def askedBy (registers : RegisterFile) : List (Address × UInt32) → List Work.Request
  | [] => []
  | (offset, word) :: rest =>
    (if offset = Register.ctrl.offset then (registers.asked? word).toList else []) ++
      (registers.write offset word).1.askedBy rest

theorem writeAll_append (registers : RegisterFile) (first second : List (Address × UInt32)) :
    registers.writeAll (first ++ second) = (registers.writeAll first).writeAll second := by
  induction first generalizing registers with
  | nil => rfl
  | cons write rest ih => exact ih _

theorem askedBy_append (registers : RegisterFile) (first second : List (Address × UInt32)) :
    registers.askedBy (first ++ second) =
      registers.askedBy first ++ (registers.writeAll first).askedBy second := by
  induction first generalizing registers with
  | nil => rfl
  | cons write rest ih =>
      obtain ⟨offset, word⟩ := write
      simp only [List.cons_append, askedBy, writeAll, ih, List.append_assoc]

/-- Writes that leave CTRL alone ask for nothing. -/
theorem askedBy_eq_nil (registers : RegisterFile) {writes : List (Address × UInt32)}
    (h : ∀ write ∈ writes, write.1 ≠ Register.ctrl.offset) : registers.askedBy writes = [] := by
  induction writes generalizing registers with
  | nil => rfl
  | cons write rest ih =>
      obtain ⟨offset, word⟩ := write
      obtain ⟨hfirst, hrest⟩ := List.forall_mem_cons.mp h
      rw [askedBy, if_neg hfirst, ih _ hrest, List.nil_append]

theorem write_ctrl (registers : RegisterFile) (word : UInt32) :
    registers.write Register.ctrl.offset word = (registers.set .ctrl word, .control word) := by
  rw [write, Register.ofOffset?_offset]

/-- A write to another register stops there. -/
theorem effect_write_of_ne {offset : Address} (h : offset ≠ Register.ctrl.offset)
    (registers : RegisterFile) (word : UInt32) :
    (registers.write offset word).2 = .stored ∨ (registers.write offset word).2 = .ignored := by
  unfold write
  split
  · exact .inr rfl
  · exact .inr rfl
  next hctrl => exact absurd (Register.offset_of_ofOffset? hctrl).symm h
  · exact .inl rfl

end RegisterFile

theorem Work.Request.decode?_eq (control : UInt32) (registers : RegisterFile) :
    Work.Request.decode? control registers = registers.asked? control := by
  have hpriority (trigger : Work.Trigger) (rest : List Work.Trigger) :
      ((trigger :: rest).find? fun trigger => control &&& trigger.bit ≠ 0) =
        if control &&& trigger.bit ≠ 0 then some trigger
        else rest.find? fun trigger => control &&& trigger.bit ≠ 0 := by
    by_cases h : control &&& trigger.bit ≠ 0 <;> simp [h]
  rw [decode?, Work.Trigger.decode?, Work.Trigger.byPriority, hpriority, hpriority, hpriority,
    hpriority, RegisterFile.asked?]
  simp only [apply_ite (Option.map fun trigger => ofTrigger trigger registers)]
  rfl

/-- The register write that a transaction on a window carries. The register
window takes no other one than a plain write of four bytes at most. -/
def Transaction.writes (transaction : Transaction) (bar : UInt32) : List (Address × UInt32) :=
  if bar = Bar.registers.index ∧ transaction.command = .write ∧ transaction.byteEnable = none ∧
      transaction.data.length ≤ Register.width ∧
      transaction.data.length ≤ transaction.streamingWidth then
    [(transaction.offset, Word.ofBytes transaction.data)]
  else []

theorem Transaction.direction_eq_toRegister_iff (transaction : Transaction) :
    transaction.direction = .ok .toRegister ↔
      transaction.command = .write ∧ transaction.byteEnable = none ∧
        transaction.data.length ≤ Register.width ∧
        transaction.data.length ≤ transaction.streamingWidth := by
  obtain ⟨hplain, problem, hdirection⟩ | ⟨_, hcommand, hdirection⟩ |
    ⟨hplain, hcommand, hdirection⟩ := transaction.direction_cases
  · rw [hdirection]
    refine iff_of_false nofun ?_
    rintro ⟨hcommand, hmask, hfits, hstreams⟩
    exact hplain ⟨hmask, hfits, hstreams, .inr hcommand⟩
  · rw [hdirection, hcommand]
    exact iff_of_false nofun nofun
  · rw [hdirection]
    exact iff_of_true rfl ⟨hcommand, hplain.unmasked, hplain.fits, hplain.streams⟩

namespace Event

/-- The event belongs to an access from the bus. -/
inductive IsBus : Event → Prop
  | configAccess (offset : Address) : IsBus (.configAccess offset)
  | rejected (offset : Address) (length : Nat) (problem : BusProblem) :
      IsBus (.rejected offset length problem)
  | registerRead (offset : Address) (word : UInt32) : IsBus (.registerRead offset word)
  | registerWritten (offset : Address) (word : UInt32) : IsBus (.registerWritten offset word)
  | triggered (control : UInt32) (request : Work.Request) : IsBus (.triggered control request)
  | triggerDropped (control : UInt32) : IsBus (.triggerDropped control)
  | statusSeen (status : UInt32) (polls : Nat) : IsBus (.statusSeen status polls)

theorem IsBus.no_turn {event : Event} (h : event.IsBus) :
    event.taken? = none ∧ event.started? = none ∧ event.haltedOn? = none := by
  cases h <;> exact ⟨rfl, rfl, rfl⟩

end Event

/-- The trace comes from accesses from the bus alone. -/
def OnBus (trace : Trace) : Prop :=
  ∀ event ∈ trace, event.IsBus

namespace OnBus

variable {trace first second : Trace}

theorem empty : OnBus #[] := by
  intro event hevent
  cases Array.not_mem_empty _ hevent

theorem append (hfirst : OnBus first) (hsecond : OnBus second) : OnBus (first ++ second) := by
  intro event hevent
  rcases Array.mem_append.mp hevent with hevent | hevent
  · exact hfirst event hevent
  · exact hsecond event hevent

theorem push (h : OnBus trace) {event : Event} (hevent : event.IsBus) :
    OnBus (trace.push event) := by
  intro other hother
  rcases Array.mem_push.mp hother with hother | rfl
  · exact h other hother
  · exact hevent

theorem single {event : Event} (hevent : event.IsBus) : OnBus #[event] :=
  empty.push hevent

/-- Whoever sees nothing in the events of the bus sees nothing in such a trace. -/
theorem observe_eq_nil (h : OnBus trace) {see : Event → Option β}
    (unseen : ∀ event : Event, event.IsBus → see event = none) : observe see trace = [] := by
  refine List.filterMap_eq_nil_iff.mpr ?_
  intro event hevent
  exact unseen event (h event (Array.mem_toList_iff.mp hevent))

end OnBus

namespace Endpoint

variable {α : Type u} {μ : Type v}

/-- The requests that register writes put behind the queue. -/
def askedBy (endpoint : Endpoint α μ) (writes : List (Address × UInt32)) : List Work.Request :=
  if endpoint.halted then [] else endpoint.registers.askedBy writes

/-- The endpoint after register writes. -/
def writeAll (endpoint : Endpoint α μ) (writes : List (Address × UInt32)) : Endpoint α μ :=
  { endpoint with
    registers := endpoint.registers.writeAll writes
    pending := endpoint.pending ++ endpoint.askedBy writes }

theorem askedBy_of_halted {endpoint : Endpoint α μ} (h : endpoint.halted = true)
    (writes : List (Address × UInt32)) : endpoint.askedBy writes = [] :=
  if_pos h

@[simp] theorem writeAll_nil (endpoint : Endpoint α μ) : endpoint.writeAll [] = endpoint := by
  simp [writeAll, askedBy, RegisterFile.writeAll, RegisterFile.askedBy]

theorem writeAll_append (endpoint : Endpoint α μ) (first second : List (Address × UInt32)) :
    endpoint.writeAll (first ++ second) = (endpoint.writeAll first).writeAll second := by
  simp only [writeAll, askedBy, RegisterFile.writeAll_append, RegisterFile.askedBy_append]
  split <;> simp [*]

/-- The step makes these register writes, and only the bus shows in its trace. -/
structure Writes (endpoint : Endpoint α μ) (writes : List (Address × UInt32))
    (step : Step (Endpoint α μ) ρ) : Prop where
  state : step.state = endpoint.writeAll writes
  trace : OnBus step.trace

theorem Writes.nothing {endpoint : Endpoint α μ} {result : ρ} {trace : Trace} (h : OnBus trace) :
    endpoint.Writes [] { result, state := endpoint, trace } :=
  ⟨endpoint.writeAll_nil.symm, h⟩

theorem Writes.andThen {endpoint : Endpoint α μ} {first second : List (Address × UInt32)}
    {step : Step (Endpoint α μ) ρ} (h : endpoint.Writes first step)
    {next : ρ → Endpoint α μ → Step (Endpoint α μ) ρ'}
    (hnext : step.state.Writes second (next step.result step.state)) :
    endpoint.Writes (first ++ second) (step.andThen next) := by
  refine ⟨?_, h.trace.append hnext.trace⟩
  rw [Step.state_andThen, hnext.state, h.state, writeAll_append]

theorem Writes.map {endpoint : Endpoint α μ} {writes : List (Address × UInt32)}
    {step : Step (Endpoint α μ) ρ} (h : endpoint.Writes writes step) (f : ρ → ρ') :
    endpoint.Writes writes (step.map f) :=
  ⟨h.state, h.trace⟩

/-! ## Register accesses -/

/-- A word goes to its register, and it is acted on only if this is CTRL. -/
theorem writes_settle (endpoint : Endpoint α μ) (offset : Address) (word : UInt32) :
    endpoint.Writes [(offset, word)]
      (settle { endpoint with registers := (endpoint.registers.write offset word).1 }
        (endpoint.registers.write offset word).2) := by
  by_cases hctrl : offset = Register.ctrl.offset
  · subst hctrl
    -- CTRL takes the word before it is decoded, and no request is made of CTRL.
    have hasked : (endpoint.registers.set .ctrl word).asked? word =
        endpoint.registers.asked? word := rfl
    rw [RegisterFile.write_ctrl, settle, dispatch, Work.Request.decode?_eq, hasked]
    split
    next hhalted =>
      refine ⟨?_, .single (.triggerDropped word)⟩
      simp_all [writeAll, askedBy, RegisterFile.writeAll, RegisterFile.write_ctrl]
    next hrunning =>
      split
      next hnone =>
        refine ⟨?_, .empty⟩
        simp_all [writeAll, askedBy, RegisterFile.writeAll, RegisterFile.askedBy,
          RegisterFile.write_ctrl]
      next request hsome =>
        refine ⟨?_, .single (.triggered word request)⟩
        simp_all [writeAll, askedBy, RegisterFile.writeAll, RegisterFile.askedBy,
          RegisterFile.write_ctrl]
  · have hplain : endpoint.Writes [(offset, word)] { result := (), state :=
        { endpoint with registers := (endpoint.registers.write offset word).1 } } := by
      refine ⟨?_, .empty⟩
      simp [writeAll, askedBy, RegisterFile.writeAll, RegisterFile.askedBy, hctrl]
    obtain heffect | heffect := endpoint.registers.effect_write_of_ne hctrl word <;>
    · rw [heffect]
      exact hplain

theorem writes_write32 (endpoint : Endpoint α μ) (offset : Address) (word : UInt32) :
    endpoint.Writes [(offset, word)] (endpoint.write32 offset word) :=
  have h := endpoint.writes_settle offset word
  ⟨h.state, OnBus.append (.single (.registerWritten offset word)) h.trace⟩

theorem writes_read32 (endpoint : Endpoint α μ) (offset : Address) :
    endpoint.Writes [] (endpoint.read32 offset) :=
  .nothing (.single (.registerRead offset _))

theorem writes_configAccess (endpoint : Endpoint α μ) (transaction : Transaction) :
    endpoint.Writes [] (endpoint.configAccess transaction) :=
  .nothing (.single (.configAccess transaction.offset))

/-- A transaction, of whatever shape, does no more than the register write that
it carries, if it carries one. -/
theorem writes_transact (endpoint : Endpoint α μ) (bar : UInt32) (transaction : Transaction) :
    endpoint.Writes (transaction.writes bar) (endpoint.transact bar transaction) := by
  have hnone (h : ¬(bar = Bar.registers.index ∧ transaction.direction = .ok .toRegister)) :
      transaction.writes bar = [] := by
    rw [Transaction.direction_eq_toRegister_iff] at h
    exact if_neg h
  unfold transact
  split
  next hbar =>
    rw [hnone fun h => hbar h.1]
    exact .nothing .empty
  next hbar =>
    have hbar : bar = Bar.registers.index := Decidable.not_not.mp hbar
    unfold RegisterFile.serve
    cases hdirection : transaction.direction with
    | error problem =>
        rw [hnone fun h => by simp [hdirection] at h]
        exact .nothing (.single (.rejected _ _ _))
    | ok direction =>
        cases direction with
        | toBuffer =>
            rw [hnone fun h => by simp [hdirection] at h]
            exact .nothing (OnBus.append (.single (.registerRead _ _)) .empty)
        | toRegister =>
            have hwrites : transaction.writes bar =
                [(transaction.offset, Word.ofBytes transaction.data)] :=
              if_pos ⟨hbar, transaction.direction_eq_toRegister_iff.mp hdirection⟩
            have h := endpoint.writes_settle transaction.offset (Word.ofBytes transaction.data)
            rw [hwrites]
            exact ⟨h.state, OnBus.append (.single (.registerWritten _ _)) h.trace⟩

/-! ## Runs of the queue between register accesses -/

variable [TranslationAgent α] [PhysicalMemory μ]

/-- A host lets the queue of a ready endpoint run once, or not at all. The other
events of the trace come from the bus. -/
inductive Drives (ready : Endpoint α μ) : Endpoint α μ → Trace → Prop
  | idle {trace : Trace} (h : OnBus trace) : Drives ready ready trace
  | ran {before after : Trace} (hbefore : OnBus before) (hafter : OnBus after) :
      Drives ready ready.runPending.state (before ++ ready.runPending.trace ++ after)

variable {endpoint ready next : Endpoint α μ} {before after trace : Trace}

theorem Drives.prepend (h : ready.Drives next trace) (hbefore : OnBus before) :
    ready.Drives next (before ++ trace) := by
  cases h with
  | idle h => exact .idle (hbefore.append h)
  | ran hfirst hsecond =>
      simpa only [Array.append_assoc] using Drives.ran (hbefore.append hfirst) hsecond

theorem Drives.append (h : ready.Drives next trace) (hafter : OnBus after) :
    ready.Drives next (trace ++ after) := by
  cases h with
  | idle h => exact .idle (h.append hafter)
  | ran hfirst hsecond =>
      simpa only [Array.append_assoc] using Drives.ran hfirst (hsecond.append hafter)

theorem Writes.drives {writes : List (Address × UInt32)} {step : Step (Endpoint α μ) ρ}
    (h : endpoint.Writes writes step) :
    (endpoint.writeAll writes).Drives step.state step.trace :=
  h.state ▸ .idle h.trace

/-- Writes come before a run of the queue. -/
theorem Writes.andThen_drives {first second : List (Address × UInt32)}
    {step : Step (Endpoint α μ) ρ} (h : endpoint.Writes first step)
    {next : ρ → Endpoint α μ → Step (Endpoint α μ) ρ'}
    (hnext : (step.state.writeAll second).Drives (next step.result step.state).state
      (next step.result step.state).trace) :
    (endpoint.writeAll (first ++ second)).Drives (step.andThen next).state
      (step.andThen next).trace := by
  have hready : endpoint.writeAll (first ++ second) = step.state.writeAll second := by
    rw [h.state, writeAll_append]
  rw [hready]
  exact hnext.prepend h.trace

/-- Reads come after a run of the queue. -/
theorem Drives.andThen {step : Step (Endpoint α μ) ρ} (h : ready.Drives step.state step.trace)
    {next : ρ → Endpoint α μ → Step (Endpoint α μ) ρ'}
    (hnext : step.state.Writes [] (next step.result step.state)) :
    ready.Drives (step.andThen next).state (step.andThen next).trace := by
  have hstate := hnext.state
  rw [writeAll_nil] at hstate
  rw [Step.state_andThen, Step.trace_andThen, hstate]
  exact h.append hnext.trace

end Endpoint

namespace Host

open Endpoint

variable {α : Type u} {μ : Type v}

/-- The writes that program an address and a length. -/
def programming (address : Address) (length : UInt32) : List (Address × UInt32) :=
  [(Register.addrMsb.offset, (address >>> 32).toUInt32),
    (Register.addrLsb.offset, address.toUInt32), (Register.length.offset, length)]

/-- The writes that clear STATUS and fire a trigger. -/
def triggering (control : UInt32) : List (Address × UInt32) :=
  [(Register.status.offset, 0), (Register.ctrl.offset, control)]

theorem writes_program (endpoint : Endpoint α μ) (address : Address) (length : UInt32) :
    endpoint.Writes (programming address length) (program endpoint address length) :=
  (writes_write32 _ _ _).andThen ((writes_write32 _ _ _).andThen (writes_write32 _ _ _))

theorem writes_readDigest (endpoint : Endpoint α μ) : endpoint.Writes [] (readDigest endpoint) :=
  (writes_read32 _ _).andThen ((writes_read32 _ _).andThen ((writes_read32 _ _).andThen
    ((writes_read32 _ _).map _)))

variable [TranslationAgent α] [PhysicalMemory μ]

/-- With nothing in the queue, polling only reads STATUS. -/
theorem poll_of_pending_eq_nil {endpoint : Endpoint α μ} (h : endpoint.pending = []) (polls : Nat)
    (trace : Trace) : ∃ seen, OnBus seen ∧ (poll endpoint polls trace).state = endpoint ∧
      (poll endpoint polls trace).trace = trace ++ seen := by
  have hread := (endpoint.writes_read32 Register.status.offset).trace
  rw [poll]
  simp only [h, if_true]
  split
  · exact ⟨_, hread.push (.statusSeen (endpoint.read32 Register.status.offset).result polls), rfl,
      by simp⟩
  · exact ⟨_, hread, rfl, rfl⟩

theorem drives_waitForDone (endpoint : Endpoint α μ) :
    endpoint.Drives (waitForDone endpoint).state (waitForDone endpoint).trace := by
  have hread := (endpoint.writes_read32 Register.status.offset).trace
  rw [waitForDone, poll]
  simp only [Array.empty_append]
  split
  · exact .idle (hread.push (.statusSeen _ 0))
  · split
    · exact .idle hread
    · split
      next fault state events hrun =>
        have hran : endpoint.Drives _ _ := .ran hread .empty
        simpa only [hrun, Array.append_empty] using hran
      next count state events hrun =>
        -- A run that ends well leaves nothing for the later polls to run.
        have hempty : state.pending = [] := by
          have hresult : endpoint.runPending.result = .ok count := by rw [hrun]
          have hempty := pending_runPending_of_ok hresult
          rwa [hrun] at hempty
        obtain ⟨seen, hseen, hstate, htrace⟩ := poll_of_pending_eq_nil hempty 1 _
        rw [hstate, htrace]
        have hran : endpoint.Drives _ _ := .ran hread hseen
        simpa only [hrun] using hran

theorem drives_trigger (endpoint : Endpoint α μ) (control : UInt32) :
    (endpoint.writeAll (triggering control)).Drives (trigger endpoint control).state
      (trigger endpoint control).trace := by
  have hwait (endpoint : Endpoint α μ) : (endpoint.writeAll []).Drives
      (waitForDone endpoint).state (waitForDone endpoint).trace := by
    rw [writeAll_nil]
    exact drives_waitForDone endpoint
  exact (writes_write32 _ _ _).andThen_drives
    ((writes_write32 _ Register.ctrl.offset control).andThen_drives (hwait _))

/-- What a host can ask its driver for. -/
inductive Operation
  /-- Fill the cache for a range. -/
  | translate (address : Address) (length : UInt32)
  /-- Read the word at an address. -/
  | readWord (address : Address)
  /-- Write a word to an address. -/
  | writeWord (address : Address) (word : UInt32)
  /-- Digest a range. -/
  | checksum (address : Address) (length : UInt32)
  /-- Wait until STATUS is set. -/
  | waitForDone

namespace Operation

/-- Carry out an operation. -/
def run (endpoint : Endpoint α μ) : Operation → Step (Endpoint α μ) Unit
  | translate address length => (Host.translate endpoint address length).map fun _ => ()
  | readWord address => (Host.readWord endpoint address).map fun _ => ()
  | writeWord address word => (Host.writeWord endpoint address word).map fun _ => ()
  | checksum address length => (Host.checksum endpoint address length).map fun _ => ()
  | waitForDone => (Host.waitForDone endpoint).map fun _ => ()

/-- The register writes of an operation. -/
def writes : Operation → List (Address × UInt32)
  | translate address length => programming address length ++ triggering Control.translate
  | readWord address => programming address 4 ++ triggering Control.read
  | writeWord address word =>
    programming address 4 ++ ([(Register.value.offset, word)] ++ triggering Control.write)
  | checksum address length => programming address length ++ triggering Control.checksum
  | waitForDone => []

/-- An operation makes its register writes and then lets the queue run once at
most. -/
theorem drives_run (endpoint : Endpoint α μ) (operation : Operation) :
    (endpoint.writeAll operation.writes).Drives (operation.run endpoint).state
      (operation.run endpoint).trace := by
  cases operation with
  | translate address length =>
      simp only [run, Step.state_map, Step.trace_map, Host.translate]
      exact (writes_program _ _ _).andThen_drives (drives_trigger _ _)
  | readWord address =>
      simp only [run, Step.state_map, Step.trace_map, Host.readWord]
      refine (writes_program _ _ _).andThen_drives ((drives_trigger _ _).andThen ?_)
      split
      · exact .nothing .empty
      · exact (writes_read32 _ _).map _
  | writeWord address word =>
      simp only [run, Step.state_map, Step.trace_map, Host.writeWord]
      exact (writes_program _ _ _).andThen_drives
        ((writes_write32 _ _ _).andThen_drives (drives_trigger _ _))
  | checksum address length =>
      simp only [run, Step.state_map, Step.trace_map, Host.checksum]
      refine (writes_program _ _ _).andThen_drives ((drives_trigger _ _).andThen ?_)
      split
      · exact .nothing .empty
      · split
        · exact .nothing .empty
        · exact (writes_readDigest _).map _
  | waitForDone =>
      simp only [run, Step.state_map, Step.trace_map, writes, writeAll_nil]
      exact drives_waitForDone endpoint

end Operation

end Host

end AtsEndpoint
