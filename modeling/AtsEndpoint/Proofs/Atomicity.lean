import AtsEndpoint.Proofs.Checksum
import AtsEndpoint.Proofs.Turns

/-!
# Failures change nothing

A worker touches the registers only when its request has ended, and a request
whose physical access fails does not get there. So a failure leaves every
register and the contents of the memory as they were. A request that ends well
sets STATUS, and besides that it changes one thing at most: a read that is
performed changes VALUE, a digest changes the digest registers, and a write that
is performed changes the bytes of its word in memory.

In a run of the queue the policy decides what becomes of a failure: it halts the
endpoint as the request found it, or it changes STATUS and nothing else.
-/

namespace AtsEndpoint

/-- Contents of which the bytes from a position on have been replaced. -/
def storeBytes (contents : Nat → Option UInt8) (start : Nat) (bytes : List UInt8) :
    Nat → Option UInt8 := fun position =>
  if start ≤ position ∧ position < start + bytes.length then bytes[position - start]?
  else contents position

/-- What a memory contains: a byte at each position that it has. Reads and
writes that fail leave it as it is, and a write stores its bytes and no others. -/
structure Contents (μ : Type v) [PhysicalMemory μ] where
  /-- The byte at a position. -/
  byte? : μ → Nat → Option UInt8
  read : ∀ memory physical count,
    byte? (PhysicalMemory.read memory physical count).memory = byte? memory
  failed : ∀ memory physical bytes fault,
    (PhysicalMemory.write memory physical bytes).answer = .error fault →
      byte? (PhysicalMemory.write memory physical bytes).memory = byte? memory
  written : ∀ memory physical bytes,
    (PhysicalMemory.write memory physical bytes).answer = .ok () →
      byte? (PhysicalMemory.write memory physical bytes).memory =
        storeBytes (byte? memory) physical.toNat bytes

/-- The byte of a host memory at a physical position. -/
def HostMemory.byte? (memory : HostMemory) (position : Nat) : Option UInt8 :=
  if memory.base.toNat ≤ position ∧ position < memory.base.toNat + memory.size then
    some (memory.byteAt (position - memory.base.toNat))
  else none

theorem HostMemory.byte?_poke {memory after : HostMemory} {physical : Address}
    {bytes : List UInt8} (h : memory.poke physical bytes = .ok after) :
    after.byte? = storeBytes memory.byte? physical.toNat bytes := by
  by_cases hcovers : memory.Covers physical bytes.length
  · have hlocate := locate_of_covers hcovers
    rw [poke_of_locate hlocate] at h
    cases h
    obtain ⟨hbase, hroom⟩ := hcovers
    have hbase := UInt64.le_iff_toNat_le.mp hbase
    funext position
    change (if memory.base.toNat ≤ position ∧ position < memory.base.toNat + memory.size then
      some ((memory.store _ bytes _).byteAt (position - memory.base.toNat)) else none) = _
    rw [byteAt_store, storeBytes, byte?]
    -- The range of the write lies in the memory, so a byte written is a byte held.
    by_cases hheld : memory.base.toNat ≤ position ∧ position < memory.base.toNat + memory.size
    · rw [if_pos hheld, if_pos hheld]
      by_cases hinside : physical.toNat ≤ position ∧ position < physical.toNat + bytes.length
      · have hsub : position - memory.base.toNat - (physical.toNat - memory.base.toNat) =
            position - physical.toNat := by omega
        have hlt : position - physical.toNat < bytes.length := by omega
        rw [if_pos (by omega), if_pos hinside, hsub, List.getElem?_eq_getElem hlt]
        rfl
      · rw [if_neg (by omega), if_neg hinside]
    · rw [if_neg hheld, if_neg hheld, if_neg (by omega)]
  · obtain ⟨fault, hlocate, _⟩ := locate_of_not_covers hcovers
    rw [poke_of_locate_error hlocate] at h
    cases h

/-- The contents of a host memory. -/
def Contents.ofHost : Contents HostMemory where
  byte? := HostMemory.byte?
  read memory physical count := by
    simp only [PhysicalMemory.read]
    split <;> rfl
  failed memory physical bytes fault h := by
    cases hpoke : memory.poke physical bytes with
    | error other => simp only [PhysicalMemory.write, hpoke]
    | ok after => simp [PhysicalMemory.write, hpoke] at h
  written memory physical bytes h := by
    cases hpoke : memory.poke physical bytes with
    | error other => simp [PhysicalMemory.write, hpoke] at h
    | ok after =>
        simp only [PhysicalMemory.write, hpoke]
        change after.byte? = _
        exact HostMemory.byte?_poke hpoke

/-- What STATUS holds after a request that ends so. -/
def Work.Outcome.status : Work.Outcome → UInt32
  | .aborted _ => Status.done ||| Status.failed
  | _ => Status.done

namespace Worker

variable {α : Type u} {μ : Type v} [TranslationAgent α] [PhysicalMemory μ]

/-- The registers and the contents of the memory are as the worker found them. -/
structure Untouched (worker : Worker α μ) (after : Datapath α μ) : Prop where
  registers : after.registers = worker.registers
  memory : ∀ contents : Contents μ, contents.byte? after.memory = contents.byte? worker.memory

/-- What a request that ends well changes. -/
structure Effects (worker : Worker α μ) (request : Work.Request) (outcome : Work.Outcome)
    (after : Datapath α μ) : Prop where
  /-- STATUS tells the outcome; CTRL and the operands are as before. -/
  registers : after.registers =
    { worker.registers with
      status := outcome.status
      value := after.registers.value
      digest := after.registers.digest }
  /-- A read that is performed puts the word that is read into VALUE. -/
  value : ∀ address, request = .read address → outcome = .applied → ∃ physical word,
    (worker.resolve address .read).1 = .ok physical ∧
      (PhysicalMemory.read worker.memory physical Register.width).answer = .ok word ∧
      after.registers.value = Word.ofBytes word.val.toList
  /-- Nothing else changes VALUE. -/
  value_frame : (∀ address, request = .read address → outcome ≠ .applied) →
    after.registers.value = worker.registers.value
  /-- A digest goes to the digest registers. -/
  digest : ∀ digest, outcome = .digested digest → after.registers.digest = digest.words
  /-- Nothing else changes the digest registers. -/
  digest_frame : (∀ digest, outcome ≠ .digested digest) →
    after.registers.digest = worker.registers.digest
  /-- A write that is performed stores the bytes of its word where the address
  leads. -/
  memory : ∀ address word, request = .write address word → outcome = .applied → ∃ physical,
    (worker.resolve address .write).1 = .ok physical ∧
      after.memory = (PhysicalMemory.write worker.memory physical (Word.bytes word)).memory ∧
      ∀ contents : Contents μ, contents.byte? after.memory =
        storeBytes (contents.byte? worker.memory) physical.toNat (Word.bytes word)
  /-- Nothing else changes the memory. -/
  memory_frame : (∀ address word, request = .write address word → outcome ≠ .applied) →
    ∀ contents : Contents μ, contents.byte? after.memory = contents.byte? worker.memory

/-- What a request does, by the way it ends. -/
def Ends (worker : Worker α μ) (request : Work.Request) (after : Datapath α μ) :
    Except Fault Work.Outcome → Prop
  | .error _ => worker.Untouched after
  | .ok outcome => worker.Effects request outcome after

variable {worker : Worker α μ} {request : Work.Request} {outcome : Work.Outcome}
variable {after : Datapath α μ}

/-- An outcome that gives no word and no digest changes nothing but STATUS. -/
theorem Effects.of_status (happlied : outcome ≠ .applied)
    (hdigested : ∀ digest, outcome ≠ .digested digest)
    (hregisters : after.registers = { worker.registers with status := outcome.status })
    (hmemory : ∀ contents : Contents μ, contents.byte? after.memory = contents.byte? worker.memory) :
    worker.Effects request outcome after := by
  constructor
  · rw [hregisters]
  · intro address _ h
    exact absurd h happlied
  · intro _
    rw [hregisters]
  · intro digest h
    exact absurd h (hdigested digest)
  · intro _
    rw [hregisters]
  · intro address word _ h
    exact absurd h happlied
  · intro _
    exact hmemory

/-- Reading memory leaves its contents as they are. -/
theorem steady_contents (contents : Contents μ) (bytes : Nat → Option UInt8) :
    Steady fun worker : Worker α μ => contents.byte? worker.memory = bytes where
  mark _ _ _ h := h
  fill _ _ h := h
  readMemory _ _ _ h := (contents.read _ _ _).trans h

theorem ends_translate (worker : Worker α μ) (range : Span) :
    worker.Effects (.translate range) (worker.translate range).1
      (worker.translate range).2.toDatapath := by
  have hregisters : (worker.stride range.start range.length 0).2.registers = worker.registers :=
    (steady_registers worker.registers).stride _ _ _ rfl
  refine .of_status (by simp [translate]) (by simp [translate]) ?_ ?_
  · simp only [translate, complete, RegisterFile.complete, hregisters]
    rfl
  · intro contents
    exact (steady_contents contents _).stride range.start range.length 0 rfl

theorem ends_read (worker : Worker α μ) (address : Address) :
    worker.Ends (.read address) (worker.read address).2.toDatapath (worker.read address).1 := by
  have hregisters : (worker.resolve address .read).2.registers = worker.registers :=
    worker.registers_ensure _
  have hmemory : (worker.resolve address .read).2.memory = worker.memory := worker.memory_ensure _
  have hread (resolved : Worker α μ) (physical : Address) :
      let step := resolved.suspend.readMemory physical Register.width
      step.1 = (PhysicalMemory.read resolved.memory physical Register.width).answer ∧
        step.2.registers = resolved.registers ∧
        ∀ contents : Contents μ, contents.byte? step.2.memory = contents.byte? resolved.memory :=
    ⟨rfl, rfl, fun contents => contents.read _ _ _⟩
  obtain ⟨reason, resolved, hresolve, hended⟩ |
    ⟨physical, resolved, fault, after, hresolve, haccess, hended⟩ |
    ⟨physical, resolved, word, after, hresolve, haccess, hended⟩ := worker.read_cases address
  · rw [hresolve] at hregisters hmemory
    rw [hended]
    refine Effects.of_status (by simp) (by simp) ?_ ?_
    · exact congrArg RegisterFile.complete hregisters
    · intro contents
      exact congrArg contents.byte? hmemory
  · have hread := hread resolved physical
    rw [hresolve] at hregisters hmemory
    dsimp only at hregisters hmemory
    rw [haccess, hregisters, hmemory] at hread
    rw [hended]
    exact ⟨hread.2.1, hread.2.2⟩
  · have hread := hread resolved physical
    rw [hresolve] at hregisters hmemory
    dsimp only at hregisters hmemory
    rw [haccess, hregisters, hmemory] at hread
    obtain ⟨hanswer, hsame, hkept⟩ := hread
    dsimp only at hsame hkept
    rw [hended]
    constructor
    · simp only [complete, RegisterFile.complete, RegisterFile.set, hsame]
      rfl
    · rintro _ ⟨⟩ _
      exact ⟨physical, word, by rw [hresolve], hanswer.symm, rfl⟩
    · intro h
      exact absurd rfl (h address rfl)
    · rintro _ ⟨⟩
    · intro _
      change after.registers.digest = worker.registers.digest
      rw [hsame]
    · rintro _ _ ⟨⟩
    · intro _
      exact hkept

theorem ends_write (worker : Worker α μ) (address : Address) (word : UInt32) :
    worker.Ends (.write address word) (worker.write address word).2.toDatapath
      (worker.write address word).1 := by
  have hregisters : (worker.resolve address .write).2.registers = worker.registers :=
    worker.registers_ensure _
  have hmemory : (worker.resolve address .write).2.memory = worker.memory := worker.memory_ensure _
  have hwrite (resolved : Worker α μ) (physical : Address) :
      let step := resolved.suspend.writeMemory physical (Word.bytes word)
      let reply := PhysicalMemory.write resolved.memory physical (Word.bytes word)
      reply.answer = step.1 ∧ step.2.registers = resolved.registers ∧
        step.2.memory = reply.memory :=
    ⟨rfl, rfl, rfl⟩
  obtain ⟨reason, resolved, hresolve, hended⟩ |
    ⟨physical, resolved, fault, after, hresolve, haccess, hended⟩ |
    ⟨physical, resolved, after, hresolve, haccess, hended⟩ := worker.write_cases address word
  · rw [hresolve] at hregisters hmemory
    rw [hended]
    refine Effects.of_status (by simp) (by simp) ?_ ?_
    · exact congrArg RegisterFile.complete hregisters
    · intro contents
      exact congrArg contents.byte? hmemory
  · have hwrite := hwrite resolved physical
    rw [hresolve] at hregisters hmemory
    dsimp only at hregisters hmemory
    rw [haccess, hregisters, hmemory] at hwrite
    obtain ⟨hanswer, hsame, hwritten⟩ := hwrite
    dsimp only at hwritten
    rw [hended]
    refine ⟨hsame, ?_⟩
    intro contents
    exact (congrArg contents.byte? hwritten).trans (contents.failed _ _ _ fault hanswer)
  · have hwrite := hwrite resolved physical
    rw [hresolve] at hregisters hmemory
    dsimp only at hregisters hmemory
    rw [haccess, hregisters, hmemory] at hwrite
    obtain ⟨hanswer, hsame, hwritten⟩ := hwrite
    dsimp only at hsame hwritten
    rw [hended]
    constructor
    · simp only [complete, RegisterFile.complete, hsame]
      rfl
    · rintro _ ⟨⟩
    · intro _
      change after.registers.value = worker.registers.value
      rw [hsame]
    · rintro _ ⟨⟩
    · intro _
      change after.registers.digest = worker.registers.digest
      rw [hsame]
    · rintro _ _ ⟨⟩ _
      refine ⟨physical, by rw [hresolve], hwritten, ?_⟩
      intro contents
      exact (congrArg contents.byte? hwritten).trans (contents.written _ _ _ hanswer)
    · intro h
      exact absurd rfl (h address word rfl)

theorem ends_checksum (worker : Worker α μ) (range : Span) :
    worker.Ends (.checksum range) (worker.checksum range).2.toDatapath
      (worker.checksum range).1 := by
  have hregisters := worker.registers_checksum range
  have hmemory (contents : Contents μ) : contents.byte? (worker.checksum range).2.memory =
      contents.byte? worker.memory := by
    rw [memory_checksum]
    exact (steady_contents contents _).gather _ _ _ rfl
  rw [fst_checksum]
  cases hgather : (worker.gather range.start range.length .empty).1 with
  | error fault =>
      rw [hgather] at hregisters
      exact ⟨hregisters, hmemory⟩
  | ok gathered =>
      rw [hgather] at hregisters
      dsimp only [Gathered.settle] at hregisters
      change worker.Effects _ (gathered.outcome range.length) _
      unfold Gathered.outcome
      split
      next hdone =>
        rw [if_pos hdone] at hregisters
        constructor
        · rw [hregisters]
          rfl
        · rintro _ ⟨⟩
        · intro _
          rw [hregisters]
          rfl
        · intro digest hdigest
          rw [hregisters, ← Work.Outcome.digested.inj hdigest]
          rfl
        · intro h
          exact absurd rfl (h _)
        · rintro _ _ ⟨⟩
        · intro _
          exact hmemory
      next hdone =>
        rw [if_neg hdone] at hregisters
        exact .of_status (by simp) (by simp) hregisters hmemory

theorem ends_perform (worker : Worker α μ) (request : Work.Request) :
    worker.Ends request (worker.perform request).2.toDatapath (worker.perform request).1 := by
  cases request with
  | translate range => exact worker.ends_translate range
  | read address => exact worker.ends_read address
  | write address word => exact worker.ends_write address word
  | checksum range => exact worker.ends_checksum range

/-- What was noted before makes no difference. -/
theorem Ends.of_note {event : Event} {result : Except Fault Work.Outcome}
    (h : (worker.note event).Ends request after result) : worker.Ends request after result := by
  cases result with
  | error fault => exact ⟨h.registers, h.memory⟩
  | ok outcome =>
      constructor
      · exact h.registers
      · intro address hread happlied
        obtain ⟨physical, word, hresolve, hanswer, hvalue⟩ := h.value address hread happlied
        rw [fst_resolve_note] at hresolve
        exact ⟨physical, word, hresolve, hanswer, hvalue⟩
      · exact h.value_frame
      · exact h.digest
      · exact h.digest_frame
      · intro address word hwrite happlied
        obtain ⟨physical, hresolve, hstored⟩ := h.memory address word hwrite happlied
        rw [fst_resolve_note] at hresolve
        exact ⟨physical, hresolve, hstored⟩
      · exact h.memory_frame

end Worker

namespace Endpoint

variable {α : Type u} {μ : Type v} [TranslationAgent α] [PhysicalMemory μ]

theorem ends_execute (endpoint : Endpoint α μ) (request : Work.Request) :
    endpoint.worker.Ends request (endpoint.execute request).state.toDatapath
      (endpoint.execute request).result := by
  have hperformed := (endpoint.worker.note (.workStarted request)).ends_perform request
  rw [← Worker.fst_execute, ← Worker.toDatapath_execute] at hperformed
  exact hperformed.of_note

/-- A failing request of a run under the fail-fast policy ends the run, with
registers and memory as the request found them. -/
theorem Turns.runPending_of_fault {endpoint current : Endpoint α μ} {done rest : List Work.Request}
    {request : Work.Request} {trace : Trace} {fault : Fault}
    (h : endpoint.Turns done current (request :: rest) trace) (hrunning : endpoint.halted = false)
    (hfault : ((current.atTurn rest).execute request).result = .error fault)
    (hpolicy : endpoint.config.onFailure = .failFast) :
    endpoint.runPending.result = .error fault ∧ endpoint.runPending.state.halted = true ∧
      current.worker.Untouched endpoint.runPending.state.toDatapath := by
  have huntouched := (current.atTurn rest).ends_execute request
  rw [hfault] at huntouched
  have hrun : endpoint.runPending = current.runQueue done.length trace (request :: rest) := by
    rw [← h.runQueue_eq, runPending, hrunning]
    rfl
  have hresult : (current.advance request rest).result = .error fault := by
    obtain ⟨_, hok, _⟩ | ⟨_, _, hreport, _⟩ | ⟨_, herror, _, hresult, _⟩ :=
      current.advance_cases request rest
    · rw [hfault] at hok
      cases hok
    · rw [h.progress.config, hpolicy] at hreport
      cases hreport
    · rw [hfault] at herror
      cases herror
      exact hresult
  have hstate := (advance_of_error hresult).2.2
  rw [hrun, runQueue, hresult]
  change _ ∧ (current.advance request rest).state.halted = true ∧
    current.worker.Untouched (current.advance request rest).state.toDatapath
  rw [hstate]
  exact ⟨rfl, rfl, huntouched.registers, huntouched.memory⟩

/-- A failing request of a run under the report policy changes STATUS alone, and
the next one has its turn. -/
theorem Turns.next_of_fault {endpoint current : Endpoint α μ} {done rest : List Work.Request}
    {request : Work.Request} {trace : Trace} {fault : Fault}
    (h : endpoint.Turns done current (request :: rest) trace) (hrunning : endpoint.halted = false)
    (hfault : ((current.atTurn rest).execute request).result = .error fault)
    (hpolicy : endpoint.config.onFailure = .report) : ∃ next trace,
      endpoint.Turns (done ++ [request]) next rest trace ∧ next.halted = false ∧
        next.registers = { current.registers with status := Status.done ||| Status.failed } ∧
        ∀ contents : Contents μ, contents.byte? next.memory = contents.byte? current.memory := by
  have huntouched := (current.atTurn rest).ends_execute request
  rw [hfault] at huntouched
  obtain ⟨_, hok, _⟩ | ⟨_, _, _, hresult, _, hstate⟩ | ⟨_, _, hfast, _⟩ :=
    current.advance_cases request rest
  · rw [hfault] at hok
    cases hok
  · refine ⟨_, _, h.next hresult, ?_⟩
    rw [hstate]
    exact ⟨h.progress.halted.trans hrunning, congrArg RegisterFile.fail huntouched.registers,
      huntouched.memory⟩
  · rw [h.progress.config, hpolicy] at hfast
    cases hfast

/-- A request that fails changes neither registers nor memory, and one that ends
well changes what its outcome says and nothing else. If a request fails in a run
of the queue, then under the fail-fast policy the run ends there, with registers
and memory as the request found them, and the endpoint is halted. Under the
report policy the run goes on with the next request, only STATUS has changed,
and the endpoint is not halted. -/
theorem execute_atomic (endpoint : Endpoint α μ) :
    (∀ request fault, (endpoint.execute request).result = .error fault →
        endpoint.worker.Untouched (endpoint.execute request).state.toDatapath) ∧
      (∀ request outcome, (endpoint.execute request).result = .ok outcome →
        endpoint.worker.Effects request outcome (endpoint.execute request).state.toDatapath) ∧
      ∀ done current request rest trace fault, endpoint.halted = false →
        endpoint.Turns done current (request :: rest) trace →
        ((current.atTurn rest).execute request).result = .error fault →
        (endpoint.config.onFailure = .failFast →
          endpoint.runPending.result = .error fault ∧ endpoint.runPending.state.halted = true ∧
            current.worker.Untouched endpoint.runPending.state.toDatapath) ∧
          (endpoint.config.onFailure = .report → ∃ next trace,
            endpoint.Turns (done ++ [request]) next rest trace ∧ next.halted = false ∧
              next.registers =
                { current.registers with status := Status.done ||| Status.failed } ∧
              ∀ contents : Contents μ,
                contents.byte? next.memory = contents.byte? current.memory) := by
  refine ⟨?_, ?_, ?_⟩
  · intro request fault hfault
    have h := endpoint.ends_execute request
    rwa [hfault] at h
  · intro request outcome hok
    have h := endpoint.ends_execute request
    rwa [hok] at h
  · intro done current request rest trace fault hrunning hturns hfault
    exact ⟨hturns.runPending_of_fault hrunning hfault, hturns.next_of_fault hrunning hfault⟩

/-- A write that is performed, and a read that fails, past the queue and in a
run of it. -/
theorem execute_atomic_paged :
    Contents.ofHost.byte? (paged.execute (.write 0x8000 0x11223344)).state.memory =
        storeBytes paged.memory.byte? 0x8000 [0x44, 0x33, 0x22, 0x11] ∧
      (paged.execute (.read 0x9000)).state.registers = paged.registers ∧
      (paged.setPending [.read 0x9000, .read 0x8000]).runPending.state.halted = true ∧
      (paged.setPending [.read 0x9000, .read 0x8000]).runPending.state.registers =
        paged.registers := by
  have happlied : (paged.execute (.write 0x8000 0x11223344)).result = .ok .applied :=
    eq_ok_of_toOption (by decide +kernel)
  have hresolved : (paged.worker.resolve 0x8000 .write).1 = .ok 0x8000 :=
    eq_ok_of_toOption (by decide +kernel)
  obtain ⟨fault, hfault⟩ : ∃ fault, (paged.execute (.read 0x9000)).result = .error fault :=
    exists_eq_error_of_toOption (by decide +kernel)
  obtain ⟨hfailed, hended, _⟩ := execute_atomic paged
  obtain ⟨_, _, hqueue⟩ := execute_atomic (paged.setPending [.read 0x9000, .read 0x8000])
  obtain ⟨hfast, _⟩ := hqueue [] _ (.read 0x9000) [.read 0x8000] #[] fault rfl .start hfault
  obtain ⟨_, hhalted, huntouched⟩ := hfast rfl
  refine ⟨?_, (hfailed _ _ hfault).registers, hhalted, huntouched.registers⟩
  obtain ⟨physical, hphysical, _, hstored⟩ := (hended _ _ happlied).memory _ _ rfl rfl
  obtain rfl : physical = 0x8000 := Except.ok.inj (hphysical.symm.trans hresolved)
  exact hstored .ofHost

end Endpoint

end AtsEndpoint
