import AtsEndpoint.Proofs.Uncached

/-!
# In lockstep with the reference

A worker whose cache holds nothing but blocks of the table carries out every
request as the reference does. The scheduler lets the cache catch up before each
request, so it is enough that the cache lags behind the table when it starts.
-/

namespace AtsEndpoint

namespace Worker

section Access

variable {α : Type u}

theorem fst_readMemory (worker : Worker α HostMemory) (physical : Address) (count : Nat) :
    (worker.readMemory physical count).1 = worker.plain.memory.peek physical count :=
  HostMemory.answer_read _ _ _

theorem plain_readMemory (worker : Worker α HostMemory) (physical : Address) (count : Nat) :
    (worker.readMemory physical count).2.plain = worker.plain :=
  congrArg (Plain.mk _) (HostMemory.plain_read _ _ _)

theorem fst_writeMemory (worker : Worker α HostMemory) (physical : Address)
    (bytes : List UInt8) : (worker.writeMemory physical bytes).1 =
      (worker.plain.memory.poke physical bytes).map fun _ => () := by
  refine (HostMemory.answer_write _ _ _).trans ?_
  have hplain := worker.memory.poke_plain physical bytes
  change worker.plain.memory.poke physical bytes = _ at hplain
  rw [hplain]
  cases worker.memory.poke physical bytes <;> rfl

theorem plain_writeMemory (worker : Worker α HostMemory) (physical : Address)
    (bytes : List UInt8) : (worker.writeMemory physical bytes).2.plain =
      match worker.plain.memory.poke physical bytes with
      | .error _ => worker.plain
      | .ok memory => { worker.plain with memory } := by
  refine (congrArg (Plain.mk _) (HostMemory.plain_write _ _ _)).trans ?_
  change _ = match worker.memory.plain.poke physical bytes with | .error _ => _ | .ok _ => _
  cases worker.memory.plain.poke physical bytes <;> rfl

variable [TranslationAgent α]

theorem plain_ensure (worker : Worker α HostMemory) (range : Span) :
    (worker.ensure range).2.plain = worker.plain := by
  simp only [Datapath.plain, registers_ensure, memory_ensure]

/-- Only the end of an operation changes what the reference sees. -/
theorem steady_plain (plain : Plain) :
    Steady fun worker : Worker α HostMemory => worker.plain = plain where
  mark _ _ _ h := h
  fill _ _ h := h
  readMemory worker physical count h := (worker.suspend.plain_readMemory physical count).trans h

/-- A checksum changes nothing but the registers, and these as its end says. -/
theorem plain_checksum (worker : Worker α HostMemory) (range : Span) :
    (worker.checksum range).2.plain =
      match (worker.gather range.start range.length .empty).1 with
      | .error _ => worker.plain
      | .ok gathered =>
        { worker.plain with registers := gathered.settle worker.registers } := by
  have hregisters := worker.registers_checksum range
  have hplain := (steady_plain worker.plain).gather range.start range.length .empty rfl
  have hmemory : (worker.checksum range).2.plain.memory = worker.plain.memory :=
    (congrArg HostMemory.plain (worker.memory_checksum range)).trans (congrArg Plain.memory hplain)
  change Plain.mk (worker.checksum range).2.registers (worker.checksum range).2.plain.memory = _
  rw [hregisters, hmemory]
  cases (worker.gather range.start range.length .empty).1 <;> rfl

/-- A read does to the word at the address that is resolved what the reference
does to it. -/
theorem report_read (worker : Worker α HostMemory) (address : Address) :
    (report (worker.read address).1, (worker.read address).2.plain) =
      match (worker.resolve address .read).1 with
      | .error reason => (.ok (.denied reason), worker.plain.complete)
      | .ok physical => worker.plain.fetch physical := by
  have hplain : (worker.resolve address .read).2.plain = worker.plain := worker.plain_ensure _
  have hread (resolved : Worker α HostMemory) (physical : Address) :
      (resolved.suspend.readMemory physical Register.width).1 =
          resolved.plain.memory.peek physical Register.width ∧
        (resolved.suspend.readMemory physical Register.width).2.plain = resolved.plain :=
    ⟨resolved.suspend.fst_readMemory physical _, resolved.suspend.plain_readMemory physical _⟩
  obtain ⟨reason, resolved, hresolve, hended⟩ |
    ⟨physical, resolved, fault, after, hresolve, haccess, hended⟩ |
    ⟨physical, resolved, word, after, hresolve, haccess, hended⟩ := worker.read_cases address
  · rw [hresolve] at hplain
    rw [hended, hresolve]
    exact congrArg (fun plain => (_, Plain.complete plain)) hplain
  · obtain ⟨hpeek, hsame⟩ := hread resolved physical
    rw [hresolve] at hplain
    dsimp only at hplain
    rw [haccess, hplain] at hpeek hsame
    rw [hended, hresolve]
    dsimp only
    rw [Plain.fetch, ← hpeek]
    exact congrArg (Prod.mk _) hsame
  · obtain ⟨hpeek, hsame⟩ := hread resolved physical
    rw [hresolve] at hplain
    dsimp only at hplain
    rw [haccess, hplain] at hpeek hsame
    rw [hended, hresolve]
    dsimp only
    rw [Plain.fetch, ← hpeek]
    let value := Word.ofBytes word.val.toList
    exact congrArg (fun plain : Plain => (_, Plain.complete
      { plain with registers := plain.registers.set .value value })) hsame

theorem report_write (worker : Worker α HostMemory) (address : Address) (word : UInt32) :
    (report (worker.write address word).1, (worker.write address word).2.plain) =
      match (worker.resolve address .write).1 with
      | .error reason => (.ok (.denied reason), worker.plain.complete)
      | .ok physical => worker.plain.store physical word := by
  have hplain : (worker.resolve address .write).2.plain = worker.plain := worker.plain_ensure _
  have hwrite (resolved : Worker α HostMemory) (physical : Address) :
      (resolved.suspend.writeMemory physical (Word.bytes word)).1 =
          (resolved.plain.memory.poke physical (Word.bytes word)).map (fun _ => ()) ∧
        (resolved.suspend.writeMemory physical (Word.bytes word)).2.plain =
          match resolved.plain.memory.poke physical (Word.bytes word) with
          | .error _ => resolved.plain
          | .ok memory => { resolved.plain with memory } :=
    ⟨resolved.suspend.fst_writeMemory physical _, resolved.suspend.plain_writeMemory physical _⟩
  obtain ⟨reason, resolved, hresolve, hended⟩ |
    ⟨physical, resolved, fault, after, hresolve, haccess, hended⟩ |
    ⟨physical, resolved, after, hresolve, haccess, hended⟩ := worker.write_cases address word
  · rw [hresolve] at hplain
    rw [hended, hresolve]
    exact congrArg (fun plain => (_, Plain.complete plain)) hplain
  · obtain ⟨hpoke, hsame⟩ := hwrite resolved physical
    rw [hresolve] at hplain
    dsimp only at hplain
    rw [haccess, hplain] at hpoke hsame
    rw [hended, hresolve]
    dsimp only
    rw [Plain.store]
    cases hstored : worker.plain.memory.poke physical (Word.bytes word) with
    | error other =>
        rw [hstored] at hpoke hsame
        obtain rfl : fault = other := by simpa [Except.map] using hpoke
        exact congrArg (Prod.mk _) hsame
    | ok memory => simp [hstored, Except.map] at hpoke
  · obtain ⟨hpoke, hsame⟩ := hwrite resolved physical
    rw [hresolve] at hplain
    dsimp only at hplain
    rw [haccess, hplain] at hpoke hsame
    rw [hended, hresolve]
    dsimp only
    rw [Plain.store]
    cases hstored : worker.plain.memory.poke physical (Word.bytes word) with
    | error other => simp [hstored, Except.map] at hpoke
    | ok memory =>
        rw [hstored] at hsame
        exact congrArg (fun plain => (_, Plain.complete plain)) hsame

end Access

variable {iommu : Iommu} {worker : Worker Iommu HostMemory}

theorem read_plain (table : iommu.IsTable) (h : worker.Keeps iommu.Later table.blocks.IsBlock)
    (hcovers : table.blocks.CoversGranule worker.granule) (address : Address) :
    (report (worker.read address).1, (worker.read address).2.plain) =
      worker.plain.read iommu address := by
  rw [report_read, fst_resolve table h hcovers address .read rfl]
  rfl

theorem write_plain (table : iommu.IsTable) (h : worker.Keeps iommu.Later table.blocks.IsBlock)
    (hcovers : table.blocks.CoversGranule worker.granule) (address : Address) (word : UInt32) :
    (report (worker.write address word).1, (worker.write address word).2.plain) =
      worker.plain.write iommu address word := by
  rw [report_write, fst_resolve table h hcovers address .write rfl]
  rfl

theorem checksum_plain (table : iommu.IsTable)
    (h : worker.Keeps iommu.Later table.blocks.IsBlock)
    (hcovers : table.blocks.CoversGranule worker.granule) (range : Span) :
    (report (worker.checksum range).1, (worker.checksum range).2.plain) =
      worker.plain.checksum iommu range := by
  have hgather := fst_gather table.serves worker.memory.plain.shows_plain worker range.start
    range.length .empty hcovers h rfl
  have hreport := table.report_gather worker.memory.plain range.start range.length .empty
    range.length (by simp)
  have hdigest : worker.plain.checksum iommu range =
      (_, worker.plain.settle _) := congrArg (fun report => (report, worker.plain.settle report))
        hreport.symm
  rw [fst_checksum, plain_checksum, hdigest, hgather]
  cases table.blocks.gather worker.memory.plain range.start range.length .empty with
  | error fault => rfl
  | ok gathered =>
      simp only [Except.map, report, Gathered.outcome, Gathered.settle]
      split <;> rfl

/-- A worker whose cache holds nothing but blocks does what the reference does. -/
theorem execute_plain (table : iommu.IsTable)
    (h : worker.Keeps iommu.Later table.blocks.IsBlock)
    (hcovers : table.blocks.CoversGranule worker.granule) (request : Work.Request) :
    (report (worker.execute request).1, (worker.execute request).2.plain) =
      worker.plain.execute iommu request := by
  have hstart : (worker.note (.workStarted request)).Keeps iommu.Later table.blocks.IsBlock :=
    ⟨h.agent, h.cache⟩
  have hplain := congrArg Datapath.plain (worker.toDatapath_execute request)
  rw [fst_execute, hplain]
  cases request with
  | translate range =>
      exact congrArg (fun plain => (_, Plain.complete plain))
        ((Worker.steady_plain _).stride range.start range.length 0 rfl)
  | read address => exact read_plain table hstart hcovers address
  | write address word => exact write_plain table hstart hcovers address word
  | checksum range => exact checksum_plain table hstart hcovers range

end Worker

namespace Endpoint

variable {iommu : Iommu} {endpoint : SoftwareEndpoint}

/-- The end of a request is acted on as in the reference. -/
theorem conclude_uncached (endpoint : SoftwareEndpoint) (request : Work.Request)
    (result : Except Fault Work.Outcome) :
    endpoint.uncached.conclude endpoint.config.onFailure (report result) =
      ((endpoint.conclude request result).result.mapError Fault.kind,
        (endpoint.conclude request result).state.uncached) := by
  cases result with
  | ok outcome => cases outcome <;> rfl
  | error fault =>
      simp only [conclude]
      cases endpoint.config.onFailure <;> rfl

/-- A request is reported once, by its worker or by the scheduler. -/
theorem reports_conclude (endpoint : SoftwareEndpoint) (request : Work.Request)
    (result : Except Fault Work.Outcome) :
    (match result with
      | .ok outcome => [outcome.report]
      | .error _ => []) ++ reports (endpoint.conclude request result).trace = [report result] := by
  cases result with
  | ok outcome => rfl
  | error fault =>
      simp only [conclude]
      split <;> rfl

/-- A request that is run at once ends as in the reference. -/
theorem execute_uncached (endpoint : SoftwareEndpoint) (table : iommu.IsTable)
    (h : endpoint.Keeps iommu.Later table.blocks.IsBlock)
    (hcovers : table.blocks.CoversGranule endpoint.granule) (request : Work.Request) :
    endpoint.plain.execute iommu request =
      (report (endpoint.execute request).result, (endpoint.execute request).state.plain) := by
  have hworker : endpoint.worker.Keeps iommu.Later table.blocks.IsBlock := h
  exact (Worker.execute_plain table hworker hcovers request).symm

/-- One request of the queue ends as in the reference, and is reported once. -/
theorem advance_uncached (table : iommu.IsTable)
    (h : endpoint.Lags iommu.Later table.blocks.IsBlock)
    (hcovers : table.blocks.CoversGranule endpoint.granule) (request : Work.Request)
    (rest : List Work.Request) :
    ∃ report, reports (endpoint.advance request rest).trace = [report] ∧
      endpoint.uncached.advance iommu endpoint.config.onFailure request rest =
        (report, (endpoint.advance request rest).result.mapError Fault.kind,
          (endpoint.advance request rest).state.uncached) := by
  have hplain : endpoint.plain.execute iommu request = _ :=
    execute_uncached (endpoint.drain.state.setPending rest) table (keeps_drain h) hcovers
      request
  have hdrained : reports endpoint.drain.trace = [] := overlooks_report?.observe_drain _ _
  have hran := Worker.reports_execute
    (endpoint.drain.state.setPending rest).worker rfl request
  refine ⟨report ((endpoint.drain.state.setPending rest).execute request).result, ?_, ?_⟩
  · refine Eq.trans ?_ (reports_conclude
      ((endpoint.drain.state.setPending rest).execute request).state request _)
    simp only [advance, reports_append, observe_push, hdrained]
    exact congrArg (· ++ _) hran
  · refine Eq.trans ?_ (congrArg (Prod.mk _) (conclude_uncached
      ((endpoint.drain.state.setPending rest).execute request).state request _))
    unfold Uncached.advance
    dsimp only [uncached]
    rw [hplain]
    rfl

/-- The queue runs as in the reference. -/
theorem runQueue_uncached (table : iommu.IsTable)
    (h : endpoint.Lags iommu.Later table.blocks.IsBlock)
    (hcovers : table.blocks.CoversGranule endpoint.granule) (ran : Nat) (trace : Trace)
    (queue : List Work.Request) :
    let run := endpoint.uncached.runQueue iommu endpoint.config.onFailure ran queue
    (endpoint.runQueue ran trace queue).uncached =
      { run with reports := reports trace ++ run.reports } := by
  induction queue generalizing endpoint ran trace with
  | nil =>
      have hdrained : reports endpoint.drain.trace = [] := overlooks_report?.observe_drain _ _
      simp only [runQueue, Step.uncached, reports_append, hdrained]
      rfl
  | cons request rest ih =>
      obtain ⟨report, hreport, hadvance⟩ := advance_uncached table h hcovers request rest
      have hconfig := config_advance endpoint request rest
      have hgranule : (endpoint.advance request rest).state.granule = endpoint.granule := by
        simp only [granule, hconfig]
      have hnext := (keeps_advance table.serves.yields h request rest).lags
      intro run
      have hrun : run = endpoint.uncached.runQueue iommu endpoint.config.onFailure ran
          (request :: rest) := rfl
      rw [Uncached.runQueue, hadvance] at hrun
      rw [runQueue]
      cases hresult : (endpoint.advance request rest).result with
      | ok _ =>
          have hmapped : (endpoint.advance request rest).result.mapError Fault.kind = .ok () := by
            rw [hresult]
            rfl
          rw [hmapped] at hrun
          dsimp only
          rw [ih hnext (hgranule ▸ hcovers), hrun, reports_append, hreport, hconfig]
          simp only [List.append_assoc, List.singleton_append]
      | error fault =>
          have hmapped : (endpoint.advance request rest).result.mapError Fault.kind =
              .error fault.kind := by
            rw [hresult]
            rfl
          rw [hmapped] at hrun
          dsimp only
          rw [hrun, Step.uncached, reports_append, hreport]
          rfl

/-- While the cache lags behind the table at most, running the queue does what
the reference does with the table alone. -/
theorem runPending_uncached (table : iommu.IsTable)
    (h : endpoint.Lags iommu.Later table.blocks.IsBlock)
    (hcovers : table.blocks.CoversGranule endpoint.granule) :
    endpoint.runPending.uncached =
      endpoint.uncached.runPending iommu endpoint.config.onFailure := by
  unfold runPending Uncached.runPending
  change _ = if endpoint.halted then _ else _
  split
  · rfl
  · exact (runQueue_uncached table h hcovers 0 #[] endpoint.pending).trans (by simp; rfl)

end Endpoint

end AtsEndpoint
