import AtsEndpoint.Proofs.Polling

/-!
# Operations of the host

An operation of the host programs the registers, fires a trigger and waits. It
asks for one request, with the operands that the host has given, and makes its
answer of the completion that the wait has seen and of the registers as they are
after it.

At an idle endpoint no request and no notice waits. There the host finds STATUS
set after one run of the queue, which holds that one request. So the operation
gives what the request gives that the registers make, and leaves the endpoint
idle again.
-/

namespace AtsEndpoint

/-! ## The programmed registers -/

namespace Host.Operation

/-- The requests of an operation: one, unless the host only waits. -/
def requests : Operation → List Work.Request
  | translate address length => [.translate ⟨address, length.toUInt64⟩]
  | readWord address => [.read address]
  | writeWord address word => [.write address word]
  | checksum address length => [.checksum ⟨address, length.toUInt64⟩]
  | waitForDone => []

end Host.Operation

namespace RegisterFile

open Host

/-- The address is made of its two halves. -/
theorem toNat_address (registers : RegisterFile) :
    registers.address.toNat = registers.addrMsb.toNat * 2 ^ 32 + registers.addrLsb.toNat := by
  have hlow := registers.addrLsb.toNat_lt
  have hhigh := registers.addrMsb.toNat_lt
  have hword : UInt64.toNat 32 % 64 = 32 := rfl
  have hfits : registers.addrMsb.toNat <<< 32 < 2 ^ 64 := by
    rw [Nat.shiftLeft_eq]
    omega
  rw [address, UInt64.toNat_or, UInt64.toNat_shiftLeft, UInt32.toNat_toUInt64,
    UInt32.toNat_toUInt64, hword, Nat.mod_eq_of_lt hfits, ← Nat.shiftLeft_add_eq_or_of_lt hlow,
    Nat.shiftLeft_eq]

/-- The two halves of an address make the address. -/
theorem address_of_halves (registers : RegisterFile) (address : Address) :
    RegisterFile.address { registers with
      addrMsb := (address >>> 32).toUInt32, addrLsb := address.toUInt32 } = address := by
  apply UInt64.toNat_inj.mp
  have hhigh : address.toNat / 2 ^ 32 < 2 ^ 32 := by
    have hlt := address.toNat_lt
    omega
  have hword : UInt64.toNat 32 % 64 = 32 := rfl
  simp only [toNat_address, UInt64.toNat_toUInt32, UInt64.toNat_shiftRight, hword]
  rw [Nat.shiftRight_eq_div_pow, Nat.mod_eq_of_lt hhigh]
  exact Nat.div_add_mod' _ _

theorem writeAll_programming (registers : RegisterFile) (address : Address) (length : UInt32) :
    registers.writeAll (programming address length) =
      { registers with
        addrMsb := (address >>> 32).toUInt32, addrLsb := address.toUInt32, length } := by
  simp only [programming, writeAll, write, Register.ofOffset?_offset]
  rfl

theorem writeAll_triggering (registers : RegisterFile) (control : UInt32) :
    registers.writeAll (triggering control) =
      { registers with status := 0, ctrl := control } := by
  simp only [triggering, writeAll, write, Register.ofOffset?_offset]
  rfl

theorem askedBy_programming (registers : RegisterFile) (address : Address) (length : UInt32) :
    registers.askedBy (programming address length) = [] := by
  refine registers.askedBy_eq_nil ?_
  simp only [programming, List.forall_mem_cons, List.not_mem_nil, false_implies, implies_true,
    and_true]
  decide

theorem address_programming (registers : RegisterFile) (address : Address) (length : UInt32) :
    (registers.writeAll (programming address length)).address = address := by
  rw [registers.writeAll_programming]
  exact registers.address_of_halves address

/-- The requests that the triggers make of programmed registers. -/
theorem asked?_programming (registers : RegisterFile) (address : Address) (length : UInt32) :
    let programmed := registers.writeAll (programming address length)
    programmed.asked? Control.translate = some (.translate ⟨address, length.toUInt64⟩) ∧
      programmed.asked? Control.read = some (.read address) ∧
      programmed.asked? Control.checksum = some (.checksum ⟨address, length.toUInt64⟩) := by
  intro programmed
  have haddress : programmed.address = address := registers.address_programming address length
  have hlength : programmed.length = length := by
    rw [show programmed = _ from registers.writeAll_programming address length]
  have hasked : programmed.asked? Control.translate =
        some (.translate ⟨programmed.address, programmed.length.toUInt64⟩) ∧
      programmed.asked? Control.read = some (.read programmed.address) ∧
      programmed.asked? Control.checksum =
        some (.checksum ⟨programmed.address, programmed.length.toUInt64⟩) := ⟨rfl, rfl, rfl⟩
  rwa [haddress, hlength] at hasked

/-- A host that is to write a word puts it into VALUE. -/
theorem value_writeWord (registers : RegisterFile) (address : Address) (word : UInt32) :
    (registers.writeAll (Operation.writeWord address word).writes).value = word := by
  rw [Host.Operation.writes, writeAll_append, writeAll_append, writeAll_triggering]
  simp only [writeAll, write, Register.ofOffset?_offset]
  rfl

/-- A host that is to read a word leaves VALUE alone. -/
theorem value_readWord (registers : RegisterFile) (address : Address) :
    (registers.writeAll (Operation.readWord address).writes).value = registers.value := by
  rw [Host.Operation.writes, writeAll_append, writeAll_triggering, writeAll_programming]

/-- A trigger asks for its request; clearing STATUS in front of it does not
matter. -/
theorem askedBy_triggering (registers : RegisterFile) (control : UInt32) :
    registers.askedBy (triggering control) = (registers.asked? control).toList := by
  rw [triggering, askedBy, if_neg (by decide), List.nil_append, write, Register.ofOffset?_offset,
    askedBy, if_pos rfl]
  exact List.append_nil _

/-- The writes of an operation ask for its request, with the operands that the
host has given. -/
theorem askedBy_writes (registers : RegisterFile) (operation : Operation) :
    registers.askedBy operation.writes = operation.requests := by
  have hprogrammed (address : Address) (length control : UInt32) :
      registers.askedBy (programming address length ++ triggering control) =
        ((registers.writeAll (programming address length)).asked? control).toList := by
    rw [askedBy_append, askedBy_programming, askedBy_triggering, List.nil_append]
  cases operation with
  | translate address length =>
      rw [Operation.writes, hprogrammed, (registers.asked?_programming address length).1]
      rfl
  | readWord address =>
      rw [Operation.writes, hprogrammed, (registers.asked?_programming address 4).2.1]
      rfl
  | writeWord address word =>
      have hvalue (registers : RegisterFile) :
          (registers.writeAll [(Register.value.offset, word)]).asked? Control.write =
            some (.write registers.address word) := rfl
      rw [Operation.writes, askedBy_append, askedBy_programming, askedBy_append,
        askedBy_triggering, hvalue, address_programming]
      exact List.nil_append _
  | checksum address length =>
      rw [Operation.writes, hprogrammed, (registers.asked?_programming address length).2.2]
      rfl
  | waitForDone => rfl

/-- An operation that asks for something starts with STATUS clear. -/
theorem status_writes (registers : RegisterFile) {operation : Operation}
    (h : operation.requests ≠ []) : (registers.writeAll operation.writes).status = 0 := by
  have hcleared (registers : RegisterFile) (control : UInt32) :
      (registers.writeAll (triggering control)).status = 0 := by
    rw [writeAll_triggering]
  cases operation with
  | waitForDone => exact absurd rfl h
  | writeWord address word =>
      rw [Operation.writes, writeAll_append, writeAll_append]
      exact hcleared _ _
  | _ =>
      rw [Operation.writes, writeAll_append]
      exact hcleared _ _

end RegisterFile

/-! ## What an operation comes down to -/

namespace Endpoint

variable {α : Type u} {μ : Type v} [TranslationAgent α] [PhysicalMemory μ]

/-- The step makes these writes and waits. It hands on a fault of the wait, and
otherwise makes its answer of the completion and of the registers as they are
then. -/
structure WaitsAfter (endpoint : Endpoint α μ) (writes : List (Address × UInt32))
    (answer : Completion → RegisterFile → ρ) (step : Step (Endpoint α μ) (Except Fault ρ)) :
    Prop where
  state : step.state = (Host.waitForDone (endpoint.writeAll writes)).state
  result : step.result = (Host.waitForDone (endpoint.writeAll writes)).result.map fun completion =>
    answer completion step.state.registers

variable {endpoint : Endpoint α μ} {writes : List (Address × UInt32)}

theorem Writes.trigger {step : Step (Endpoint α μ) ρ} (h : endpoint.Writes writes step)
    (control : UInt32) : endpoint.WaitsAfter (writes ++ Host.triggering control)
      (fun completion _ => completion)
      (step.andThen fun _ endpoint => Host.trigger endpoint control) := by
  have htriggered : endpoint.Writes (writes ++ Host.triggering control)
      (step.andThen fun _ endpoint =>
        (endpoint.write32 Register.status.offset 0).andThen fun _ endpoint =>
          endpoint.write32 Register.ctrl.offset control) :=
    h.andThen ((writes_write32 _ _ _).andThen (writes_write32 _ _ _))
  have hsplit : (step.andThen fun _ endpoint => Host.trigger endpoint control) =
      (step.andThen fun _ endpoint =>
        (endpoint.write32 Register.status.offset 0).andThen fun _ endpoint =>
          endpoint.write32 Register.ctrl.offset control).andThen
        fun _ endpoint => Host.waitForDone endpoint := by
    simp only [Host.trigger, Step.andThen_assoc]
  rw [hsplit]
  refine ⟨?_, ?_⟩
  · rw [Step.state_andThen, htriggered.state]
  · rw [Step.result_andThen, htriggered.state]
    exact (congrFun Except.map_id _).symm

/-- Reading registers after a wait changes the answer alone. -/
theorem WaitsAfter.andThen {step : Step (Endpoint α μ) (Except Fault Completion)}
    (h : endpoint.WaitsAfter writes (fun completion _ => completion) step)
    {next : Except Fault Completion → Endpoint α μ → Step (Endpoint α μ) (Except Fault ρ)}
    {answer : Completion → RegisterFile → ρ}
    (hstate : ∀ result endpoint, (next result endpoint).state = endpoint)
    (hresult : ∀ result endpoint, (next result endpoint).result =
      result.map fun completion => answer completion endpoint.registers) :
    endpoint.WaitsAfter writes answer (step.andThen next) := by
  refine ⟨(hstate _ _).trans h.state, ?_⟩
  rw [Step.result_andThen, Step.state_andThen, hresult, hstate, h.result]
  cases (Host.waitForDone (endpoint.writeAll writes)).result <;> rfl

end Endpoint

namespace Host

open Endpoint

variable {α : Type u} {μ : Type v}

/-- The digest registers make the digest that the host reads. -/
theorem result_readDigest (endpoint : Endpoint α μ) :
    (readDigest endpoint).result = .ofWords endpoint.registers.digest := by
  have hread (index : Fin 4) :
      endpoint.registers.read (Register.digestOffset index) = endpoint.registers.digest.get index :=
    endpoint.registers.read_offset (.digest index) (by simp)
  have hwords : #v[endpoint.registers.read (Register.digestOffset 0),
      endpoint.registers.read (Register.digestOffset 1),
      endpoint.registers.read (Register.digestOffset 2),
      endpoint.registers.read (Register.digestOffset 3)] = endpoint.registers.digest := by
    apply Vector.ext
    intro i hi
    match i, hi with
    | 0, _ => exact hread 0
    | 1, _ => exact hread 1
    | 2, _ => exact hread 2
    | 3, _ => exact hread 3
  exact congrArg Digest.ofWords hwords

variable [TranslationAgent α] [PhysicalMemory μ]

theorem waitsAfter_translate (endpoint : Endpoint α μ) (address : Address) (length : UInt32) :
    endpoint.WaitsAfter (Operation.translate address length).writes
      (fun completion _ => completion) (translate endpoint address length) :=
  (writes_program endpoint address length).trigger Control.translate

theorem waitsAfter_readWord (endpoint : Endpoint α μ) (address : Address) :
    endpoint.WaitsAfter (Operation.readWord address).writes
      (fun completion registers => (completion, registers.value)) (readWord endpoint address) := by
  have h := (writes_program endpoint address 4).trigger Control.read
  have hvalue (endpoint : Endpoint α μ) :
      (endpoint.read32 Register.value.offset).result = endpoint.registers.value :=
    endpoint.registers.read_offset .value (by decide)
  rw [readWord, ← Step.andThen_assoc]
  refine h.andThen ?_ ?_
  · intro result endpoint
    cases result <;> rfl
  · intro result endpoint
    cases result with
    | error fault => rfl
    | ok completion => exact congrArg (fun word => Except.ok (completion, word)) (hvalue endpoint)

theorem waitsAfter_writeWord (endpoint : Endpoint α μ) (address : Address) (word : UInt32) :
    endpoint.WaitsAfter (Operation.writeWord address word).writes
      (fun completion _ => completion) (writeWord endpoint address word) := by
  have hwrites : endpoint.Writes (programming address 4 ++ [(Register.value.offset, word)])
      ((program endpoint address 4).andThen fun _ endpoint =>
        endpoint.write32 Register.value.offset word) :=
    (writes_program endpoint address 4).andThen (writes_write32 _ _ _)
  have h := hwrites.trigger Control.write
  rw [Step.andThen_assoc] at h
  exact h

theorem waitsAfter_checksum (endpoint : Endpoint α μ) (address : Address) (length : UInt32) :
    endpoint.WaitsAfter (Operation.checksum address length).writes
      (fun completion registers =>
        if completion.failed then none else some (Digest.ofWords registers.digest))
      (checksum endpoint address length) := by
  have h := (writes_program endpoint address length).trigger Control.checksum
  rw [checksum, ← Step.andThen_assoc]
  refine h.andThen ?_ ?_
  · intro result endpoint
    cases result with
    | error fault => rfl
    | ok completion =>
        dsimp only
        split <;> rfl
  · intro result endpoint
    cases result with
    | error fault => rfl
    | ok completion =>
        dsimp only [Except.map]
        split
        · rfl
        · exact congrArg (fun digest => Except.ok (some digest)) (result_readDigest endpoint)

end Host

/-! ## Idle endpoints -/

namespace Endpoint

variable {α : Type u} {μ : Type v}

/-- No request and no notice waits, and the endpoint is not halted. -/
structure IsIdle (endpoint : Endpoint α μ) : Prop where
  pending : endpoint.pending = []
  halted : endpoint.halted = false
  waiting : endpoint.notices.waiting = []

/-- The endpoint with its registers as writes leave them. -/
def programmed (endpoint : Endpoint α μ) (writes : List (Address × UInt32)) : Endpoint α μ :=
  { endpoint with registers := endpoint.registers.writeAll writes }

variable {endpoint : Endpoint α μ}

theorem IsIdle.programmed (idle : endpoint.IsIdle) (writes : List (Address × UInt32)) :
    (endpoint.programmed writes).IsIdle :=
  ⟨idle.pending, idle.halted, idle.waiting⟩

/-- Draining does nothing when no notice waits. -/
theorem state_drain_of_waiting (endpoint : Endpoint α μ) (h : endpoint.notices.waiting = []) :
    endpoint.drain.state = endpoint := by
  have hpending : endpoint.notices.pending = 0 := congrArg List.length h
  have hqueue : ({ waiting := [], applied := endpoint.notices.applied + 0 } : NoticeQueue) =
      endpoint.notices := congrArg (NoticeQueue.mk · _) h.symm
  simp only [drain, NoticeQueue.state_drain, h, hpending, hqueue]
  rfl

/-- Writes make requests in the order in which they ask for them. -/
theorem IsIdle.writeAll_eq (idle : endpoint.IsIdle) (writes : List (Address × UInt32)) :
    endpoint.writeAll writes =
      (endpoint.programmed writes).setPending (endpoint.registers.askedBy writes) := by
  have hasked : endpoint.askedBy writes = endpoint.registers.askedBy writes :=
    if_neg (by simp [idle.halted])
  rw [writeAll, hasked, idle.pending]
  rfl

variable [TranslationAgent α] [PhysicalMemory μ]

/-- The endpoint after a request that ended well was run, the only one to run. -/
def finished (endpoint : Endpoint α μ) (request : Work.Request) : Endpoint α μ :=
  (endpoint.execute request).state.countCompleted.drain.state.setPending []

theorem IsIdle.finished (idle : endpoint.IsIdle) (request : Work.Request) :
    (endpoint.finished request).IsIdle := by
  refine ⟨rfl, idle.halted, ?_⟩
  exact congrArg (NoticeQueue.waiting ∘ Prod.fst) (NoticeQueue.state_drain _ _)

theorem registers_finished (endpoint : Endpoint α μ) (request : Work.Request) :
    (endpoint.finished request).registers = (endpoint.execute request).state.registers := rfl

/-- A request that ends well is taken from the queue, run and counted. -/
theorem IsIdle.runPending_eq (idle : endpoint.IsIdle) {request : Work.Request}
    {outcome : Work.Outcome} (hok : (endpoint.execute request).result = .ok outcome) :
    (endpoint.setPending [request]).runPending.result = .ok 1 ∧
      (endpoint.setPending [request]).runPending.state = endpoint.finished request := by
  have hturn : (endpoint.setPending [request]).drain.state.setPending [] = endpoint := by
    rw [(endpoint.setPending [request]).state_drain_of_waiting idle.waiting]
    exact congrArg (fun pending => { endpoint with pending }) idle.pending.symm
  have hadvance : ((endpoint.setPending [request]).advance request []).result = .ok () ∧
      ((endpoint.setPending [request]).advance request []).state =
        (endpoint.execute request).state.countCompleted := by
    rw [advance, hturn, hok]
    exact ⟨rfl, rfl⟩
  have hrunning : ¬ (endpoint.setPending [request]).halted = true := by
    simp [setPending, idle.halted]
  have hqueue : (endpoint.setPending [request]).runPending =
      (endpoint.setPending [request]).runQueue 0 #[] [request] := if_neg hrunning
  rw [hqueue, runQueue, hadvance.1]
  dsimp only
  rw [hadvance.2]
  exact ⟨rfl, rfl⟩

end Endpoint

namespace Host

open Endpoint

variable {α : Type u} {μ : Type v}

variable [TranslationAgent α] [PhysicalMemory μ] {endpoint : Endpoint α μ}

/-- Waiting for a request that ends well gives what STATUS says of it. -/
theorem waitForDone_of_ok (idle : endpoint.IsIdle) (hstatus : endpoint.registers.status = 0)
    {request : Work.Request} {outcome : Work.Outcome}
    (hok : (endpoint.execute request).result = .ok outcome) :
    (waitForDone (endpoint.setPending [request])).result = .ok (.ofStatus outcome.status) ∧
      (waitForDone (endpoint.setPending [request])).state = endpoint.finished request := by
  have hclear : (endpoint.setPending [request]).registers.status = 0 := hstatus
  have hended : (endpoint.finished request).registers.status = outcome.status := by
    have heffects := endpoint.ends_execute request
    rw [hok] at heffects
    rw [registers_finished, heffects.registers]
  obtain ⟨hcount, hrun⟩ := idle.runPending_eq hok
  obtain ⟨hresult, hstate⟩ := waitForDone_of_queued hclear (List.cons_ne_nil request [])
  rw [hresult, hstate, hcount, hrun, ← hended]
  exact ⟨rfl, rfl⟩

end Host

namespace Endpoint

variable {α : Type u} {μ : Type v} [TranslationAgent α] [PhysicalMemory μ] {endpoint : Endpoint α μ}

/-- An operation of an idle endpoint whose request ends well gives its answer of
the endpoint that the request leaves. -/
theorem WaitsAfter.of_ok {operation : Host.Operation} {answer : Completion → RegisterFile → ρ}
    {step : Step (Endpoint α μ) (Except Fault ρ)}
    (h : endpoint.WaitsAfter operation.writes answer step) (idle : endpoint.IsIdle)
    {request : Work.Request} (hown : operation.requests = [request]) {outcome : Work.Outcome}
    (hok : ((endpoint.programmed operation.writes).execute request).result = .ok outcome) :
    let after := (endpoint.programmed operation.writes).finished request
    step.result = .ok (answer (.ofStatus outcome.status) after.registers) ∧ step.state = after := by
  intro after
  have hready : endpoint.writeAll operation.writes =
      (endpoint.programmed operation.writes).setPending [request] := by
    rw [idle.writeAll_eq, RegisterFile.askedBy_writes, hown]
  have hclear : (endpoint.programmed operation.writes).registers.status = 0 :=
    endpoint.registers.status_writes (by simp [hown])
  obtain ⟨hresult, hstate⟩ := Host.waitForDone_of_ok (idle.programmed operation.writes) hclear hok
  rw [← hready] at hresult hstate
  have hafter : step.state = after := h.state.trans hstate
  refine ⟨?_, hafter⟩
  rw [h.result, hresult, hafter]
  rfl

end Endpoint

namespace Host

open Endpoint

variable {α : Type u} {μ : Type v} [TranslationAgent α] [PhysicalMemory μ] {endpoint : Endpoint α μ}
variable (idle : endpoint.IsIdle) (address : Address)
include idle

/-- Filling the cache gives what the request gives. -/
theorem translate_of_ok (length : UInt32) {outcome : Work.Outcome} :
    let ready := endpoint.programmed (Operation.translate address length).writes
    let request := Work.Request.translate ⟨address, length.toUInt64⟩
    (ready.execute request).result = .ok outcome →
      (translate endpoint address length).result = .ok (.ofStatus outcome.status) ∧
        (translate endpoint address length).state = ready.finished request :=
  (waitsAfter_translate endpoint address length).of_ok idle rfl

/-- Reading a word gives what VALUE holds after the request. -/
theorem readWord_of_ok {outcome : Work.Outcome} :
    let ready := endpoint.programmed (Operation.readWord address).writes
    let request := Work.Request.read address
    (ready.execute request).result = .ok outcome →
      (readWord endpoint address).result =
          .ok (.ofStatus outcome.status, (ready.finished request).registers.value) ∧
        (readWord endpoint address).state = ready.finished request :=
  (waitsAfter_readWord endpoint address).of_ok idle rfl

/-- Writing a word gives what the request gives. -/
theorem writeWord_of_ok (word : UInt32) {outcome : Work.Outcome} :
    let ready := endpoint.programmed (Operation.writeWord address word).writes
    let request := Work.Request.write address word
    (ready.execute request).result = .ok outcome →
      (writeWord endpoint address word).result = .ok (.ofStatus outcome.status) ∧
        (writeWord endpoint address word).state = ready.finished request :=
  (waitsAfter_writeWord endpoint address word).of_ok idle rfl

/-- Digesting a range gives the digest of the request. -/
theorem checksum_of_ok (length : UInt32) {digest : Digest} :
    let ready := endpoint.programmed (Operation.checksum address length).writes
    let request := Work.Request.checksum ⟨address, length.toUInt64⟩
    (ready.execute request).result = .ok (.digested digest) →
      (checksum endpoint address length).result = .ok (some digest) ∧
        (checksum endpoint address length).state = ready.finished request := by
  intro ready request hok
  obtain ⟨hresult, hstate⟩ := (waitsAfter_checksum endpoint address length).of_ok idle rfl hok
  have hwords : (ready.finished request).registers.digest = digest.words := by
    have heffects := ready.ends_execute request
    rw [hok] at heffects
    exact heffects.digest digest rfl
  have hgood : ¬ (Completion.ofStatus (Work.Outcome.digested digest).status).failed = true :=
    (by decide : ¬ (Completion.ofStatus Status.done).failed = true)
  refine ⟨?_, hstate⟩
  rw [hresult, if_neg hgood, hwords, Digest.ofWords_words]

end Host

end AtsEndpoint
