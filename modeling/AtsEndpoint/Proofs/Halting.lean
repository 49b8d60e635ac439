import AtsEndpoint.Proofs.Histories

/-!
# Halting

An endpoint that has halted takes register writes and notices, and does nothing
else until it is reset: it calls neither remote party, and its queue, its cache
and its count of completed requests stay as they were. After the reset a run
applies the notices that have come in and goes on with the requests that were
left in the queue.

Nothing but a run under the fail-fast policy halts an endpoint, so one that
reports its failures never halts.
-/

namespace AtsEndpoint

namespace Event

/-- Something comes in: an access from the bus, or a notice. -/
inductive IsInput : Event → Prop
  | bus {event : Event} (h : event.IsBus) : IsInput event
  | posted (notice : Notice) : IsInput (.posted notice)

theorem IsInput.not_remoteCall {event : Event} (h : event.IsInput) : ¬ event.IsRemoteCall := by
  intro hcall
  cases h with
  | bus hbus => cases hbus <;> cases hcall
  | posted notice => cases hcall

/-- The notice that is applied. -/
def applied? : Event → Option Notice
  | .noticeApplied notice _ => some notice
  | _ => none

end Event

/-- The notices applied, in order. -/
abbrev appliedNotices (trace : Trace) : List Notice :=
  observe Event.applied? trace

theorem appliedNotices_append (first second : Trace) :
    appliedNotices (first ++ second) = appliedNotices first ++ appliedNotices second :=
  observe_append first second

namespace NoticeQueue

/-- Handling notices applies each of them, in order. -/
theorem applied_handleAll (queue : NoticeQueue) (cache : Cache) (trace : Trace)
    (notices : List Notice) :
    appliedNotices (queue.handleAll cache trace notices).trace =
      appliedNotices trace ++ notices := by
  induction notices generalizing queue cache trace with
  | nil => exact (List.append_nil _).symm
  | cons notice rest ih =>
      have hhandled : appliedNotices (queue.handle cache notice).trace = [notice] := rfl
      rw [handleAll, ih, appliedNotices_append, hhandled, List.append_assoc, List.singleton_append]

theorem applied_drain (queue : NoticeQueue) (cache : Cache) :
    appliedNotices (queue.drain cache).trace = queue.waiting :=
  applied_handleAll _ _ _ _

end NoticeQueue

/-- The host acts, or a notice arrives. -/
inductive Action.IsPassive {α : Type u} {μ : Type v} : Action α μ → Prop
  | host (action : HostAction) : IsPassive (.host action)
  | post (notice : Notice) : IsPassive (.post notice)

/-- The host accesses the bus without writing CTRL, or a notice arrives. -/
inductive Action.IsQuiet {α : Type u} {μ : Type v} : Action α μ → Prop
  | host {action : HostAction} (haccess : action.IsAccess)
      (hctrl : ∀ write ∈ action.writes, write.1 ≠ Register.ctrl.offset) : IsQuiet (.host action)
  | post (notice : Notice) : IsQuiet (.post notice)

namespace Endpoint

variable {α : Type u} {μ : Type v}

/-- The endpoint after the register writes and the notices of a history, with
nothing else done to it. -/
def receive (endpoint : Endpoint α μ) (actions : List (Action α μ)) : Endpoint α μ :=
  { endpoint with
    registers := endpoint.registers.writeAll (actions.flatMap Action.writes)
    notices := endpoint.notices.post (actions.flatMap Action.posts) }

theorem receive_cons (endpoint : Endpoint α μ) (action : Action α μ) (rest : List (Action α μ)) :
    endpoint.receive (action :: rest) = (endpoint.receive [action]).receive rest := by
  simp [receive, NoticeQueue.post, RegisterFile.writeAll_append]

/-- Register writes that ask for nothing are only received. -/
theorem writeAll_eq_receive {endpoint : Endpoint α μ} {action : HostAction}
    (h : endpoint.askedBy action.writes = []) :
    endpoint.writeAll action.writes = endpoint.receive [.host action] := by
  simp [writeAll, receive, h, Action.writes, Action.posts]

variable {endpoint : Endpoint α μ} {action : Action α μ} {actions : List (Action α μ)}

/-- A step receives an action, and nothing but inputs shows in its trace. -/
structure Receives (endpoint : Endpoint α μ) (actions : List (Action α μ))
    (step : Step (Endpoint α μ) Unit) : Prop where
  state : step.state = endpoint.receive actions
  trace : ∀ event ∈ step.trace, event.IsInput

theorem receives_post (endpoint : Endpoint α μ) (notice : Notice) :
    endpoint.Receives [.post notice] (endpoint.post notice) := by
  refine ⟨rfl, ?_⟩
  intro event hevent
  obtain rfl := Array.mem_singleton.mp hevent
  exact .posted notice

variable [TranslationAgent α] [PhysicalMemory μ]

/-- If actions of some kind are received in good states, and states stay good,
then histories of such actions are received. -/
theorem receives_run {K : Action α μ → Prop} {P : Endpoint α μ → Prop}
    (hact : ∀ endpoint action, P endpoint → K action →
      endpoint.Receives [action] (endpoint.act action))
    (hgood : ∀ endpoint action, P endpoint → P (endpoint.receive [action]))
    (h : P endpoint) (hkind : ∀ action ∈ actions, K action) :
    endpoint.Receives actions (endpoint.run actions) := by
  induction actions generalizing endpoint with
  | nil =>
      refine ⟨?_, ?_⟩
      · simp [run, receive, RegisterFile.writeAll]
      · intro event hevent
        cases Array.not_mem_empty _ hevent
  | cons action rest ih =>
      obtain ⟨hfirst, hrest⟩ := List.forall_mem_cons.mp hkind
      have hacted := hact endpoint action h hfirst
      have hran := ih (hgood endpoint action h) hrest
      rw [← hacted.state] at hran
      refine ⟨?_, ?_⟩
      · rw [receive_cons, ← hacted.state, ← hran.state]
        rfl
      · intro event hevent
        rcases Array.mem_append.mp hevent with hevent | hevent
        · exact hacted.trace event hevent
        · exact hran.trace event hevent

/-! ## From the halt to the reset -/

/-- A halted endpoint only receives what the host does. -/
theorem receives_act_of_halted (hhalted : endpoint.halted = true) (h : action.IsPassive) :
    endpoint.Receives [action] (endpoint.act action) := by
  cases h with
  | post notice => exact endpoint.receives_post notice
  | host action =>
      -- The flag is not changed by the writes, so the run after them is refused.
      have hready : endpoint.writeAll action.writes = endpoint.receive [.host action] :=
        writeAll_eq_receive (askedBy_of_halted hhalted _)
      have hdrives := endpoint.drives_serve action
      rw [hready] at hdrives
      change endpoint.Receives _ (endpoint.serve action)
      generalize endpoint.serve action = step at hdrives
      obtain ⟨result, state, trace⟩ := step
      cases hdrives with
      | idle h => exact ⟨rfl, fun event hevent => .bus (h event hevent)⟩
      | ran hbefore hafter =>
          have hrefused : (endpoint.receive [.host action]).runPending = _ :=
            runPending_of_halted hhalted
          rw [hrefused]
          refine ⟨rfl, ?_⟩
          intro event hevent
          rw [Array.append_empty] at hevent
          exact .bus (hbefore.append hafter event hevent)

theorem receives_run_of_halted (hhalted : endpoint.halted = true)
    (h : ∀ action ∈ actions, action.IsPassive) :
    endpoint.Receives actions (endpoint.run actions) :=
  receives_run (fun _ _ => receives_act_of_halted) (fun _ _ hhalted => hhalted) hhalted h

/-! ## From the reset to the next run -/

/-- Without a write to CTRL, every endpoint only receives what the host does. -/
theorem receives_act_of_isQuiet (endpoint : Endpoint α μ) (h : action.IsQuiet) :
    endpoint.Receives [action] (endpoint.act action) := by
  cases h with
  | post notice => exact endpoint.receives_post notice
  | @host action haccess hctrl =>
      have hnothing : endpoint.askedBy action.writes = [] := by
        unfold askedBy
        split
        · rfl
        · exact endpoint.registers.askedBy_eq_nil hctrl
      have hserved := endpoint.writes_serve haccess
      exact ⟨hserved.state.trans (writeAll_eq_receive hnothing),
        fun event hevent => .bus (hserved.trace event hevent)⟩

theorem receives_run_of_isQuiet (endpoint : Endpoint α μ)
    (h : ∀ action ∈ actions, action.IsQuiet) : endpoint.Receives actions (endpoint.run actions) :=
  receives_run (P := fun _ => True) (fun endpoint _ _ => endpoint.receives_act_of_isQuiet)
    (fun _ _ _ => trivial) trivial h

/-- What a run shows comes after what was shown before it. -/
theorem trace_runQueue (endpoint : Endpoint α μ) (ran : Nat) (trace : Trace)
    (queue : List Work.Request) : (endpoint.runQueue ran trace queue).trace =
      trace ++ (endpoint.runQueue ran #[] queue).trace := by
  induction queue generalizing endpoint ran trace with
  | nil => simp only [runQueue, Array.empty_append]
  | cons request rest ih =>
      simp only [runQueue, Array.empty_append]
      split
      · rw [ih _ _ (trace ++ _), ih _ _ (endpoint.advance request rest).trace, Array.append_assoc]
      · rfl

theorem exists_trace_advance (endpoint : Endpoint α μ) (request : Work.Request)
    (rest : List Work.Request) :
    ∃ after, (endpoint.advance request rest).trace = endpoint.drain.trace ++ after := by
  let run := (endpoint.atTurn rest).execute request
  refine ⟨#[.taken request] ++ run.trace ++ (run.state.conclude request run.result).trace, ?_⟩
  change endpoint.drain.trace.push _ ++ run.trace ++ _ = _
  simp only [Array.push_eq_append, Array.append_assoc]
  rfl

/-- A run first applies the waiting notices. -/
theorem exists_trace_runPending (hrunning : endpoint.halted = false) :
    ∃ after, endpoint.runPending.trace = endpoint.drain.trace ++ after := by
  have hrun : endpoint.runPending = endpoint.runQueue 0 #[] endpoint.pending := by
    rw [runPending, hrunning]
    rfl
  rw [hrun]
  cases endpoint.pending with
  | nil => exact ⟨#[], by simp only [runQueue, Array.empty_append, Array.append_empty]⟩
  | cons request rest =>
      obtain ⟨after, hadvance⟩ := endpoint.exists_trace_advance request rest
      simp only [runQueue, Array.empty_append, hadvance]
      split
      · exact ⟨after ++ _, by rw [trace_runQueue, Array.append_assoc]⟩
      · exact ⟨after, rfl⟩

/-! ## Reporting endpoints -/

/-- An endpoint that reports its failures, and is not halted. -/
structure Reporting (endpoint : Endpoint α μ) : Prop where
  policy : endpoint.config.onFailure = .report
  running : endpoint.halted = false

theorem Reporting.runPending (h : endpoint.Reporting) : endpoint.runPending.state.Reporting := by
  refine ⟨?_, ?_⟩
  · rw [config_runPending, h.policy]
  · obtain ⟨_, _, hrunning, _⟩ | ⟨_, _, _, _, _, hpolicy, _⟩ := runPending_ends h.running
    · exact hrunning
    · rw [h.policy] at hpolicy
      cases hpolicy

theorem Reporting.act (h : endpoint.Reporting) (action : Action α μ) :
    (endpoint.act action).state.Reporting := by
  cases action with
  | host action =>
      have hready : (endpoint.writeAll action.writes).Reporting := ⟨h.policy, h.running⟩
      have hdrives := endpoint.drives_serve action
      change (endpoint.serve action).state.Reporting
      generalize endpoint.serve action = step at hdrives ⊢
      obtain ⟨result, state, trace⟩ := step
      cases hdrives with
      | idle _ => exact hready
      | ran _ _ => exact hready.runPending
  | reset => exact ⟨h.policy, rfl⟩
  | _ => exact ⟨h.policy, h.running⟩

theorem Reporting.run (h : endpoint.Reporting) (actions : List (Action α μ)) :
    (endpoint.run actions).state.Reporting := by
  induction actions generalizing endpoint with
  | nil => exact h
  | cons action rest ih => exact ih (h.act action)

/-! ## Inert until the reset -/

/-- A halted endpoint stays halted whatever the host does and whichever notices
arrive. Its registers take the writes and its queue the notices; nothing else
changes, no remote party is called, and every run is refused. After a reset, and
without a write to CTRL, a run first applies all the notices that have arrived.
Then it takes the requests that were left, in order, and stops early only at a
failure that halts the endpoint again. An endpoint that reports its failures
never halts. -/
theorem inert_until_reset (hhalted : endpoint.halted = true)
    (hpassive : ∀ action ∈ actions, action.IsPassive) {later : List (Action α μ)}
    (hquiet : ∀ action ∈ later, action.IsQuiet) :
    let run := endpoint.run actions
    let ready := (run.state.reset.state.run later).state
    let resumed := ready.runPending
    run.state = endpoint.receive actions ∧ run.state.halted = true ∧
      (∀ event ∈ run.trace, ¬ event.IsRemoteCall) ∧
      run.state.runPending.result = .error .halted ∧
      (∃ rest, resumed.trace = ready.drain.trace ++ rest) ∧ started ready.drain.trace = [] ∧
      appliedNotices ready.drain.trace = endpoint.notices.waiting ++
        actions.flatMap Action.posts ++ later.flatMap Action.posts ∧
      started resumed.trace ++ resumed.state.pending = endpoint.pending ∧
      (resumed.result = .ok endpoint.pending.length ∧ resumed.state.pending = [] ∧
          resumed.state.halted = false ∨
        ∃ earlier last fault, started resumed.trace = earlier ++ [last] ∧
          resumed.result = .error fault ∧ endpoint.config.onFailure = .failFast ∧
          halts resumed.trace = [last] ∧ resumed.state.halted = true) ∧
      ∀ (config : Config) (agent : α) (memory : μ) (start : Endpoint α μ),
        (boot config agent memory).1 = .ok start → config.onFailure = .report →
          ∀ actions, (start.run actions).state.halted = false := by
  intro run ready resumed
  have hreceived : endpoint.Receives actions run := receives_run_of_halted hhalted hpassive
  have hstays : run.state.halted = true := by
    rw [hreceived.state]
    exact hhalted
  have hready : ready = run.state.reset.state.receive later :=
    (run.state.reset.state.receives_run_of_isQuiet hquiet).state
  have hrunning : ready.halted = false := by
    rw [hready]
    rfl
  have hpending : ready.pending = endpoint.pending := by
    rw [hready, hreceived.state]
    rfl
  have hconfig : ready.config = endpoint.config := by
    rw [hready, hreceived.state]
    rfl
  have hwaiting : ready.notices.waiting = endpoint.notices.waiting ++
      actions.flatMap Action.posts ++ later.flatMap Action.posts := by
    rw [hready, hreceived.state]
    rfl
  have hresumed := runPending_outcome hrunning
  rw [hpending, hconfig] at hresumed
  refine ⟨hreceived.state, hstays, ?_, ?_, exists_trace_runPending hrunning, ready.started_drain,
    ?_, hresumed.1, hresumed.2, ?_⟩
  · intro event hevent
    exact (hreceived.trace event hevent).not_remoteCall
  · rw [runPending_of_halted hstays]
  · exact (ready.notices.applied_drain ready.cache).trans hwaiting
  · intro config agent memory start hboot hreport actions
    obtain ⟨_, _, hidle, hconfig⟩ := boot_idle hboot
    have hreporting : start.Reporting := ⟨hconfig ▸ hreport, hidle⟩
    exact (hreporting.run actions).running

/-- The endpoint that the second request of the history has halted. -/
def stopped : SoftwareEndpoint :=
  (paged.run (haltingHistory.take 8)).state

/-- What comes to it before its reset. -/
def meanwhile : List (Action Iommu HostMemory) :=
  [.post ⟨0x8000, 0x1000⟩, .host (.operate (.readWord 0xa000)), .host .runPending]

/-- The endpoint after a reset and one more notice. -/
def restarted : SoftwareEndpoint :=
  ((stopped.run meanwhile).state.reset.state.run [.post ⟨0xc000, 0x1000⟩]).state

/-- The endpoint of the history, had it been told to report its failures. -/
def reporter : SoftwareEndpoint :=
  { paged with config := { onFailure := .report }, config_valid := Config.isValid_default }

theorem inert_stopped :
    stopped.halted = true ∧ stopped.pending = [.translate ⟨0x9000, 0x10⟩] ∧
      (stopped.run meanwhile).state = stopped.receive meanwhile ∧
      (stopped.run meanwhile).state.runPending.result = .error .halted ∧
      appliedNotices restarted.drain.trace = [⟨0x8000, 0x1000⟩, ⟨0xc000, 0x1000⟩] ∧
      started restarted.runPending.trace = stopped.pending ∧
      restarted.runPending.result = .ok 1 ∧
      (reporter.run haltingHistory).state.halted = false := by
  have hhalted : stopped.halted = true := by decide +kernel
  have hpending : stopped.pending = [.translate ⟨0x9000, 0x10⟩] := by decide +kernel
  have hwaiting : stopped.notices.waiting = [] := by decide +kernel
  have hpassive : ∀ action ∈ meanwhile, action.IsPassive := by
    simp only [meanwhile, List.forall_mem_cons]
    exact ⟨.post _, .host _, .host _, List.forall_mem_nil _⟩
  have hquiet : ∀ action ∈ [(.post ⟨0xc000, 0x1000⟩ : Action Iommu HostMemory)],
      action.IsQuiet := by
    simp only [List.forall_mem_cons]
    exact ⟨.post _, List.forall_mem_nil _⟩
  have hboot : (boot { onFailure := .report } pages (.zeroed 0x8000 0x4000)).1 = .ok reporter :=
    congrArg Prod.fst (dif_pos Config.isValid_default)
  obtain ⟨hstate, _, _, hrefused, _, _, happlied, hqueue, hend, hreports⟩ :=
    inert_until_reset hhalted hpassive hquiet
  have hreporter := hreports _ _ _ reporter hboot rfl haltingHistory
  change appliedNotices restarted.drain.trace = _ at happlied
  change started restarted.runPending.trace ++ restarted.runPending.state.pending = _ at hqueue
  change restarted.runPending.result = _ ∧ restarted.runPending.state.pending = _ ∧ _ ∨ _ at hend
  rw [hwaiting] at happlied
  obtain ⟨hresult, hempty, _⟩ | ⟨_, _, _, _, _, _, _, hagain⟩ := hend
  · rw [hempty, List.append_nil] at hqueue
    rw [hpending] at hresult
    exact ⟨hhalted, hpending, hstate, hrefused, happlied, hqueue, hresult, hreporter⟩
  · have hruns : restarted.runPending.state.halted = false := by decide +kernel
    rw [show restarted.runPending.state.halted = true from hagain] at hruns
    cases hruns

end Endpoint

end AtsEndpoint
