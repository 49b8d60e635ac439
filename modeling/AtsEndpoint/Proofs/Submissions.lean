import AtsEndpoint.Proofs.Histories
import AtsEndpoint.Proofs.Operations

/-!
# Requests behind queued work

An operation of the host does not ask for an empty queue. Its request goes behind
those that wait, with the operands that the host has just programmed, and the
run that the host lets happen serves them all in order. They may change STATUS,
VALUE and the digest registers on the way. What the host reads in the end is
still about its own request, because this is the last one to have its turn; and a
word to be written cannot be lost, because the request carries it.

If one of the requests fails under the fail-fast policy, the operation gives that
failure instead, and the requests behind it stay queued.
-/

namespace AtsEndpoint

/-- What the host is told of a request that has ended so. -/
def Work.completion : Except Fault Work.Outcome → Completion
  | .ok (.aborted _) | .error _ => ⟨true, true⟩
  | .ok _ => ⟨true, false⟩

theorem Completion.ofStatus_endStatus (ended : Except Fault Work.Outcome) :
    ofStatus (Work.endStatus ended) = Work.completion ended := by
  cases ended with
  | error fault => exact (by decide : ofStatus (Status.done ||| Status.failed) = ⟨true, true⟩)
  | ok outcome =>
      cases outcome with
      | aborted consumed =>
          exact (by decide : ofStatus (Status.done ||| Status.failed) = ⟨true, true⟩)
      | _ => exact (by decide : ofStatus Status.done = ⟨true, false⟩)

/-! ## The turns of the queue and of the own request -/

namespace Endpoint

variable {α : Type u} {μ : Type v} [TranslationAgent α] [PhysicalMemory μ]

/-- A ready endpoint attends to the requests of its queue in order, of which the
last one is the host's own. Either one of them fails under the fail-fast policy;
then its fault is the result, the endpoint is halted, and the requests behind it
are left. Or each of them ends well or with a failure that is reported; then the
queue is empty, and the answer is about the own request: about the endpoint that
it found at its turn, the way in which it ended, and the endpoint afterwards. -/
inductive Attends (ready : Endpoint α μ) (own : Work.Request)
    (Answers : Endpoint α μ → Except Fault Work.Outcome → Endpoint α μ → ρ → Prop) :
    Except Fault ρ → Endpoint α μ → Prop
  | halted {done behind : List Work.Request} {current after : Endpoint α μ}
      {failing : Work.Request} {trace : Trace} {fault : Fault}
      (turns : ready.Turns done current (failing :: behind) trace)
      (failed : ((current.atTurn behind).execute failing).result = .error fault)
      (policy : ready.config.onFailure = .failFast)
      (halts : after.halted = true) (left : after.pending = behind) :
      Attends ready own Answers (.error fault) after
  | ended {queue : List Work.Request} {current after : Endpoint α μ} {trace : Trace} {answer : ρ}
      (turns : ready.Turns queue current [own] trace)
      (reported : ∀ fault, ((current.atTurn []).execute own).result = .error fault →
        ready.config.onFailure = .report)
      (running : after.halted = false) (empty : after.pending = [])
      (answers : Answers (current.atTurn []) ((current.atTurn []).execute own).result after
        answer) :
      Attends ready own Answers (.ok answer) after

variable {endpoint current ready final : Endpoint α μ} {queue rest : List Work.Request}
variable {own : Work.Request} {trace : Trace}

/-- Before the first turn nothing has changed. -/
theorem Turns.eq_of_nil (h : endpoint.Turns [] current rest trace) : current = endpoint := by
  generalize hdone : [] = done at h
  cases h with
  | start => rfl
  | next => simp at hdone

/-- The last of some turns comes after the turns of the others. -/
theorem Turns.exists_last (h : ready.Turns (queue ++ [own]) final rest trace) :
    ∃ current before, ready.Turns queue current (own :: rest) before ∧
      (current.advance own rest).result = .ok () ∧ final = (current.advance own rest).state := by
  generalize hdone : queue ++ [own] = done at h
  cases h with
  | start => simp at hdone
  | @next done current request _ before hturns hok =>
      obtain ⟨rfl, hown⟩ := List.append_inj' hdone rfl
      obtain rfl : own = request := List.head_eq_of_cons_eq hown
      exact ⟨current, before, hturns, hok, rfl⟩

/-- The registers and the memory are as the own request left them, with STATUS
set to tell of its end. -/
def Leaves (own : Work.Request) (found after : Endpoint α μ) : Prop :=
  let run := found.execute own
  after.registers = { run.state.registers with status := Work.endStatus run.result } ∧
    after.memory = run.state.memory

/-- A run attends to its queue. -/
theorem attends_runPending (hrunning : ready.halted = false)
    (hpending : ready.pending = queue ++ [own]) :
    ready.Attends own (fun found _ after _ => Leaves own found after) ready.runPending.result
      ready.runPending.state := by
  obtain ⟨done, final, rest, trace, hturns,
    ⟨rfl, hrun⟩ | ⟨request, behind, fault, rfl, hfault, hrun⟩⟩ := runPending_cases hrunning
  -- All had their turns: the own request the last one, and nothing was left behind it.
  · have hprogress := hturns.progress
    have hdone : done = queue ++ [own] := by
      rw [← hpending, hprogress.queue, List.append_nil]
    subst hdone
    obtain ⟨current, before, hbefore, hok, rfl⟩ := hturns.exists_last
    obtain ⟨hregisters, hmemory, hreported⟩ := registers_advance hok
    rw [hbefore.progress.config] at hreported
    rw [hrun]
    exact .ended hbefore hreported (hprogress.halted.trans hrunning) rfl ⟨hregisters, hmemory⟩
  · obtain ⟨hpolicy, _, hstate⟩ := advance_of_error hfault
    rw [hturns.progress.config] at hpolicy
    rw [hrun, hstate]
    exact .halted hturns (execute_of_advance_error hfault) hpolicy rfl rfl

/-- An operation puts one request behind the queue and attends to it. -/
structure Submits (endpoint : Endpoint α μ) (operation : Host.Operation) (own : Work.Request)
    (Answers : Endpoint α μ → Except Fault Work.Outcome → Endpoint α μ → ρ → Prop)
    (step : Step (Endpoint α μ) (Except Fault ρ)) : Prop where
  /-- The request is the only one that is put behind the queue. -/
  pending : (endpoint.writeAll operation.writes).pending = endpoint.pending ++ [own]
  /-- What was taken from the queue and what is left is the queue and the request. -/
  accounts : taken step.trace ++ step.state.pending = endpoint.pending ++ [own]
  /-- The queue is served with the registers as the host has programmed them. -/
  attends : (endpoint.writeAll operation.writes).Attends own Answers step.result step.state

theorem WaitsAfter.submits {operation : Host.Operation} {answer : Completion → RegisterFile → ρ}
    {step : Step (Endpoint α μ) (Except Fault ρ)}
    {Answers : Endpoint α μ → Except Fault Work.Outcome → Endpoint α μ → ρ → Prop}
    (h : endpoint.WaitsAfter operation.writes answer step) (hrunning : endpoint.halted = false)
    (hown : operation.requests = [own])
    (haccounts : taken step.trace ++ step.state.pending = endpoint.pending ++ [own])
    (hanswers : ∀ found after, Leaves own found after →
      Answers found (found.execute own).result after
        (answer (Work.completion (found.execute own).result) after.registers)) :
    endpoint.Submits operation own Answers step := by
  have hpending : (endpoint.writeAll operation.writes).pending = endpoint.pending ++ [own] := by
    rw [writeAll, askedBy, hrunning, RegisterFile.askedBy_writes, hown]
    rfl
  refine ⟨hpending, haccounts, ?_⟩
  have hclear : (endpoint.writeAll operation.writes).registers.status = 0 :=
    endpoint.registers.status_writes (by simp [hown])
  have hready : (endpoint.writeAll operation.writes).halted = false := hrunning
  have hruns := attends_runPending hready hpending
  obtain ⟨hstate, hresult⟩ := h
  -- From here on it does not matter how the registers and the queue were made ready.
  generalize endpoint.writeAll operation.writes = ready at *
  obtain ⟨hwaited, hwait⟩ := Host.waitForDone_of_queued hclear (by simp [hpending])
  rw [hresult, hstate, hwaited, hwait]
  generalize ready.runPending = run at hruns ⊢
  obtain ⟨result, after, trace⟩ := run
  cases hruns with
  | halted turns failed policy halts left => exact .halted turns failed policy halts left
  | ended turns reported running empty leaves =>
      refine .ended turns reported running empty ?_
      have htold : Completion.ofStatus after.registers.status = Work.completion _ :=
        (congrArg (Completion.ofStatus ∘ RegisterFile.status) leaves.1).trans
          (Completion.ofStatus_endStatus _)
      rw [htold]
      exact hanswers _ _ leaves

/-- At this endpoint a read at the address gives the word. -/
def ReadsWord (found : Endpoint α μ) (address : Address) (word : UInt32) : Prop :=
  ∃ physical bytes, (found.worker.resolve address .read).1 = .ok physical ∧
    (PhysicalMemory.read found.memory physical Register.width).answer = .ok bytes ∧
    word = Word.ofBytes bytes.val.toList

/-- Between these endpoints the memory has stored the word where the address
leads. -/
def StoresWord (found after : Endpoint α μ) (address : Address) (word : UInt32) : Prop :=
  ∃ physical, (found.worker.resolve address .write).1 = .ok physical ∧
    after.memory = (PhysicalMemory.write found.memory physical (Word.bytes word)).memory

variable {found after : Endpoint α μ} {address : Address}

theorem Leaves.readsWord (h : Leaves (.read address) found after)
    (happlied : (found.execute (.read address)).result = .ok .applied) :
    found.ReadsWord address after.registers.value := by
  have hends := found.ends_execute (.read address)
  rw [happlied] at hends
  obtain ⟨physical, bytes, hresolve, hread, hvalue⟩ := hends.value address rfl rfl
  exact ⟨physical, bytes, hresolve, hread, (congrArg RegisterFile.value h.1).trans hvalue⟩

theorem Leaves.storesWord {word : UInt32} (h : Leaves (.write address word) found after)
    (happlied : (found.execute (.write address word)).result = .ok .applied) :
    found.StoresWord after address word := by
  have hends := found.ends_execute (.write address word)
  rw [happlied] at hends
  obtain ⟨physical, hresolve, hstored, _⟩ := hends.memory address word rfl rfl
  exact ⟨physical, hresolve, h.2.trans hstored⟩

theorem Leaves.digest_eq {digest : Digest} (h : Leaves own found after)
    (hdigested : (found.execute own).result = .ok (.digested digest)) :
    Digest.ofWords after.registers.digest = digest := by
  have hends := found.ends_execute own
  rw [hdigested] at hends
  have hwords : after.registers.digest = digest.words :=
    (congrArg RegisterFile.digest h.1).trans (hends.digest digest rfl)
  rw [hwords, Digest.ofWords_words]

/-- A checksum gives a digest, is aborted, or fails. -/
theorem execute_checksum_cases (found : Endpoint α μ) (range : Span) :
    (∃ digest, (found.execute (.checksum range)).result = .ok (.digested digest)) ∨
      (∃ consumed, (found.execute (.checksum range)).result = .ok (.aborted consumed)) ∨
      ∃ fault, (found.execute (.checksum range)).result = .error fault := by
  have hresult : (found.execute (.checksum range)).result = _ :=
    (found.worker.fst_execute (.checksum range)).trans (Worker.fst_checksum _ range)
  rw [hresult]
  cases (Worker.gather (found.worker.note _) range.start range.length .empty).1 with
  | error fault => exact .inr (.inr ⟨fault, rfl⟩)
  | ok gathered =>
      by_cases hdone : gathered.remaining = 0
      · exact .inl ⟨_, congrArg Except.ok (if_pos hdone)⟩
      · exact .inr (.inl ⟨_, congrArg Except.ok (if_neg hdone)⟩)

end Endpoint

namespace Host

open Endpoint

variable {α : Type u} {μ : Type v} [TranslationAgent α] [PhysicalMemory μ]
variable {endpoint : Endpoint α μ}

/-- What an operation takes from the queue and what it leaves there is the queue
as it was and the request of the operation. -/
theorem accounts_run (hrunning : endpoint.halted = false) (operation : Operation) :
    taken (operation.run endpoint).trace ++ (operation.run endpoint).state.pending =
      endpoint.pending ++ operation.requests := by
  have hasked : endpoint.askedBy operation.writes = operation.requests := by
    rw [Endpoint.askedBy, hrunning]
    exact endpoint.registers.askedBy_writes operation
  rw [← hasked]
  exact (endpoint.accounts_act (.host (.operate operation))).queue

/-- At an endpoint that is not halted, whatever is queued, an operation puts one
request with the operands given behind the queue, and the requests are attended
to in order. If none of them halts the endpoint, then the host is told how its
own request has ended, whatever those before it have left in the registers: a
read that is performed gives the word that it has read, a write that is performed
stores the word that the host has given, and a checksum gives its digest, or
nothing when it is aborted or a failure of it is reported. -/
theorem operation_submits (hrunning : endpoint.halted = false) (address : Address)
    (length word : UInt32) :
    endpoint.Submits (.translate address length) (.translate ⟨address, length.toUInt64⟩)
        (fun _ ended _ completion => completion = Work.completion ended)
        (translate endpoint address length) ∧
      endpoint.Submits (.readWord address) (.read address)
        (fun found ended _ (completion, read) => completion = Work.completion ended ∧
          (ended = .ok .applied → found.ReadsWord address read))
        (readWord endpoint address) ∧
      endpoint.Submits (.writeWord address word) (.write address word)
        (fun found ended after completion => completion = Work.completion ended ∧
          (ended = .ok .applied → found.StoresWord after address word))
        (writeWord endpoint address word) ∧
      endpoint.Submits (.checksum address length) (.checksum ⟨address, length.toUInt64⟩)
        (fun _ ended _ answer =>
          (∀ digest, answer = some digest ↔ ended = .ok (.digested digest)) ∧
            (answer = none ↔
              (∃ consumed, ended = .ok (.aborted consumed)) ∨ ∃ fault, ended = .error fault))
        (checksum endpoint address length) := by
  refine ⟨?_, ?_, ?_, ?_⟩
  · refine (waitsAfter_translate endpoint address length).submits hrunning rfl
      (accounts_run hrunning (.translate address length)) ?_
    intro found after hleaves
    rfl
  · refine (waitsAfter_readWord endpoint address).submits hrunning rfl
      (accounts_run hrunning (.readWord address)) ?_
    intro found after hleaves
    exact ⟨rfl, hleaves.readsWord⟩
  · refine (waitsAfter_writeWord endpoint address word).submits hrunning rfl
      (accounts_run hrunning (.writeWord address word)) ?_
    intro found after hleaves
    exact ⟨rfl, hleaves.storesWord⟩
  · refine (waitsAfter_checksum endpoint address length).submits hrunning rfl
      (accounts_run hrunning (.checksum address length)) ?_
    intro found after hleaves
    obtain ⟨digest, hended⟩ | ⟨consumed, hended⟩ | ⟨fault, hended⟩ :=
      found.execute_checksum_cases ⟨address, length.toUInt64⟩
    · have hdigest := hleaves.digest_eq hended
      rw [hended, hdigest]
      simp [Work.completion]
    · rw [hended]
      simp [Work.completion]
    · rw [hended]
      simp [Work.completion]

/-- A write behind a read that overwrites VALUE, and a read behind one that
fails. -/
theorem operation_submits_behind_reads :
    let busy := paged.setPending [.read 0x8000]
    let ready := busy.writeAll (Operation.writeWord 0x8004 0x11223344).writes
    let found := ((ready.advance (.read 0x8000) [.write 0x8004 0x11223344]).state).atTurn []
    let written := writeWord busy 0x8004 0x11223344
    let failing := paged.setPending [.read 0x9000, .read 0x8000]
    let refused := readWord failing 0x8004
    (busy.halted = false ∧ ready.registers.value = 0x11223344 ∧ found.registers.value = 0 ∧
      written.result = .ok ⟨true, false⟩ ∧ found.StoresWord written.state 0x8004 0x11223344) ∧
      failing.halted = false ∧ refused.state.halted = true ∧
      refused.state.pending = [.read 0x8000, .read 0x8004] := by
  intro busy ready found written failing refused
  have hwritten : written.result = .ok ⟨true, false⟩ := eq_ok_of_toOption (by decide +kernel)
  have happlied : (found.execute (.write 0x8004 0x11223344)).result = .ok .applied :=
    eq_ok_of_toOption (by decide +kernel)
  have htaken : taken refused.trace = [.read 0x9000] := by decide +kernel
  have hbusy : busy.halted = false := rfl
  have hfailing : failing.halted = false := rfl
  have hwrite := (operation_submits hbusy 0x8004 0 0x11223344).2.2.1
  have hread := (operation_submits hfailing 0x8004 0 0).2.1
  refine ⟨⟨hbusy, by decide +kernel, by decide +kernel, hwritten, ?_⟩, hfailing,
    by decide +kernel, ?_⟩
  · have hattends : ready.Attends _ _ written.result written.state := hwrite.attends
    rw [hwritten] at hattends
    cases hattends with
    | ended turns _ _ _ answers =>
        obtain rfl := List.append_cancel_right (hwrite.pending.symm.trans turns.progress.queue)
        have hturns : ready.Turns ([] ++ [.read 0x8000]) _ _ _ := turns
        obtain ⟨_, _, hfirst, _, rfl⟩ := hturns.exists_last
        obtain rfl := hfirst.eq_of_nil
        exact answers.2 happlied
  · have haccounts : taken refused.trace ++ refused.state.pending = _ := hread.accounts
    rw [htaken] at haccounts
    exact List.append_cancel_left haccounts

end Host

end AtsEndpoint
