import AtsEndpoint.Endpoint.Software
import AtsEndpoint.Proofs.Invariants

/-!
# Turns

A run of the queue gives the requests their turns. Each is taken from the head
of the queue and carried out by a worker, and the next one follows unless a
fault has halted the endpoint. So the requests that a run takes are a beginning
of the queue, and the rest of the queue is what it leaves.

One turn is described once, by the state that the request finds and by what the
scheduler makes of its end. What a run does to the queue, to the count of
completed requests and to the halted flag follows by induction on the queue.
-/

namespace AtsEndpoint

namespace Event

/-- The request that the scheduler takes. -/
def taken? : Event → Option Work.Request
  | .taken request => some request
  | _ => none

/-- The request that a worker starts on. -/
def started? : Event → Option Work.Request
  | .workStarted request => some request
  | _ => none

/-- The request whose failure halts the endpoint. -/
def haltedOn? : Event → Option Work.Request
  | .haltedOn request _ => some request
  | _ => none

/-- What is seen does not come from the work on a request, nor from its end. -/
structure SeesTurns (see : Event → Option β) : Prop where
  work : ∀ event, IsWork event → see event = none
  done : ∀ outcome status, see (.workDone outcome status) = none

theorem IsWork.no_turn {event : Event} (h : event.IsWork) :
    event.taken? = none ∧ event.started? = none ∧ event.haltedOn? = none := by
  cases h with
  | lookup h =>
      cases h with
      | ended h => cases h <;> exact ⟨rfl, rfl, rfl⟩
      | _ => exact ⟨rfl, rfl, rfl⟩
  | mark h => cases h <;> exact ⟨rfl, rfl, rfl⟩
  | _ => exact ⟨rfl, rfl, rfl⟩

theorem sees_taken? : SeesTurns taken? :=
  ⟨fun _ h => h.no_turn.1, fun _ _ => rfl⟩

theorem sees_started? : SeesTurns started? :=
  ⟨fun _ h => h.no_turn.2.1, fun _ _ => rfl⟩

theorem sees_haltedOn? : SeesTurns haltedOn? :=
  ⟨fun _ h => h.no_turn.2.2, fun _ _ => rfl⟩

end Event

/-- The requests taken from the queue, in order. -/
abbrev taken (trace : Trace) : List Work.Request :=
  observe Event.taken? trace

/-- The requests that workers started on, in order. -/
abbrev started (trace : Trace) : List Work.Request :=
  observe Event.started? trace

/-- The requests that halted the endpoint, in order. -/
abbrev halts (trace : Trace) : List Work.Request :=
  observe Event.haltedOn? trace

theorem taken_append (first second : Trace) :
    taken (first ++ second) = taken first ++ taken second :=
  observe_append first second

theorem started_append (first second : Trace) :
    started (first ++ second) = started first ++ started second :=
  observe_append first second

theorem halts_append (first second : Trace) :
    halts (first ++ second) = halts first ++ halts second :=
  observe_append first second

namespace Endpoint

variable {α : Type u} {μ : Type v} {see : Event → Option β}

theorem observe_drain (sees : Event.SeesTurns see) (endpoint : Endpoint α μ) :
    observe see endpoint.drain.trace = [] :=
  Overlooks.observe_drain (fun _ hlookup => sees.work _ (.lookup hlookup)) _ _

theorem taken_drain (endpoint : Endpoint α μ) : taken endpoint.drain.trace = [] :=
  endpoint.observe_drain Event.sees_taken?

theorem started_drain (endpoint : Endpoint α μ) : started endpoint.drain.trace = [] :=
  endpoint.observe_drain Event.sees_started?

theorem halts_drain (endpoint : Endpoint α μ) : halts endpoint.drain.trace = [] :=
  endpoint.observe_drain Event.sees_haltedOn?

/-- The state that a request finds when its turn comes: it has left the queue,
and the waiting notices have been applied. -/
def atTurn (endpoint : Endpoint α μ) (rest : List Work.Request) : Endpoint α μ :=
  endpoint.drain.state.setPending rest

variable [TranslationAgent α] [PhysicalMemory μ]

/-- Work shows its start alone. -/
theorem observe_execute (sees : Event.SeesTurns see) (endpoint : Endpoint α μ)
    (request : Work.Request) :
    observe see (endpoint.execute request).trace = (see (.workStarted request)).toList := by
  have hended := Worker.observe_execute sees.done endpoint.worker request
  have hperformed := Worker.observe_perform sees.work
    (endpoint.worker.note (.workStarted request)) request
  refine hended.trans (hperformed.trans ?_)
  rw [Worker.note, observe_push]
  rfl

/-- A turn shows that its request is taken and started, and then what the
scheduler makes of its end. -/
theorem observe_advance (sees : Event.SeesTurns see) (endpoint : Endpoint α μ)
    (request : Work.Request) (rest : List Work.Request) :
    let run := (endpoint.atTurn rest).execute request
    observe see (endpoint.advance request rest).trace =
      (see (.taken request)).toList ++ (see (.workStarted request)).toList ++
        observe see (run.state.conclude request run.result).trace := by
  have hexecuted := (endpoint.atTurn rest).observe_execute sees request
  intro run
  change observe see (endpoint.drain.trace.push _ ++ run.trace ++ _) = _
  rw [observe_append, observe_append, observe_push, observe_drain sees, hexecuted, List.nil_append]
  rfl

/-- How a turn ends: well, with a failure that is reported, or with one that
halts the endpoint. -/
theorem advance_cases (endpoint : Endpoint α μ) (request : Work.Request)
    (rest : List Work.Request) :
    let run := (endpoint.atTurn rest).execute request
    let turn := endpoint.advance request rest
    (∃ outcome, run.result = .ok outcome ∧ turn.result = .ok () ∧
        turn.state = run.state.countCompleted ∧ halts turn.trace = []) ∨
      (∃ fault, run.result = .error fault ∧ endpoint.config.onFailure = .report ∧
        turn.result = .ok () ∧ halts turn.trace = [] ∧
        turn.state = countCompleted { run.state with registers := run.state.registers.fail }) ∨
      ∃ fault, run.result = .error fault ∧ endpoint.config.onFailure = .failFast ∧
        turn.result = .error fault ∧ halts turn.trace = [request] ∧
        turn.state = { run.state with halted := true } := by
  intro run turn
  have hconfig : run.state.config = endpoint.config := rfl
  have hresult : turn.result = (run.state.conclude request run.result).result := rfl
  have hstate : turn.state = (run.state.conclude request run.result).state := rfl
  have htrace : halts turn.trace = halts (run.state.conclude request run.result).trace :=
    endpoint.observe_advance Event.sees_haltedOn? request rest
  cases hrun : run.result with
  | ok outcome =>
      rw [hrun] at hresult hstate htrace
      exact .inl ⟨outcome, rfl, hresult, hstate, htrace⟩
  | error fault =>
      rw [hrun] at hresult hstate htrace
      simp only [conclude, hconfig] at hresult hstate htrace
      cases honFailure : endpoint.config.onFailure with
      | report =>
          rw [honFailure] at hresult hstate htrace
          exact .inr (.inl ⟨fault, rfl, rfl, hresult, htrace, hstate⟩)
      | failFast =>
          rw [honFailure] at hresult hstate htrace
          exact .inr (.inr ⟨fault, rfl, rfl, hresult, htrace, hstate⟩)

/-- A turn that ends well is counted, and the endpoint goes on. -/
theorem advance_of_ok {endpoint : Endpoint α μ} {request : Work.Request}
    {rest : List Work.Request} (h : (endpoint.advance request rest).result = .ok ()) :
    halts (endpoint.advance request rest).trace = [] ∧
      (endpoint.advance request rest).state.halted = endpoint.halted ∧
      (endpoint.advance request rest).state.completed = endpoint.completed + 1 := by
  obtain ⟨_, _, _, hstate, hquiet⟩ | ⟨_, _, _, _, hquiet, hstate⟩ | ⟨_, _, _, hfault, _⟩ :=
    endpoint.advance_cases request rest
  · exact ⟨hquiet, by rw [hstate]; rfl, by rw [hstate]; rfl⟩
  · exact ⟨hquiet, by rw [hstate]; rfl, by rw [hstate]; rfl⟩
  · rw [h] at hfault
    cases hfault

/-- A turn that ends with a fault halts the endpoint, under the fail-fast
policy. -/
theorem advance_of_error {endpoint : Endpoint α μ} {request : Work.Request}
    {rest : List Work.Request} {fault : Fault}
    (h : (endpoint.advance request rest).result = .error fault) :
    endpoint.config.onFailure = .failFast ∧
      halts (endpoint.advance request rest).trace = [request] ∧
      (endpoint.advance request rest).state =
        { ((endpoint.atTurn rest).execute request).state with halted := true } := by
  obtain ⟨_, _, hok, _⟩ | ⟨_, _, _, hok, _⟩ | ⟨_, _, hpolicy, _, hhalts, hstate⟩ :=
    endpoint.advance_cases request rest
  · rw [h] at hok
    cases hok
  · rw [h] at hok
    cases hok
  · exact ⟨hpolicy, hhalts, hstate⟩

theorem taken_advance (endpoint : Endpoint α μ) (request : Work.Request)
    (rest : List Work.Request) : taken (endpoint.advance request rest).trace = [request] := by
  refine (endpoint.observe_advance Event.sees_taken? request rest).trans ?_
  unfold conclude
  split
  · rfl
  · split <;> rfl

theorem started_advance (endpoint : Endpoint α μ) (request : Work.Request)
    (rest : List Work.Request) : started (endpoint.advance request rest).trace = [request] := by
  refine (endpoint.observe_advance Event.sees_started? request rest).trans ?_
  unfold conclude
  split
  · rfl
  · split <;> rfl

theorem pending_advance (endpoint : Endpoint α μ) (request : Work.Request)
    (rest : List Work.Request) : (endpoint.advance request rest).state.pending = rest := by
  obtain ⟨_, _, _, hstate, _⟩ | ⟨_, _, _, _, _, hstate⟩ | ⟨_, _, _, _, _, hstate⟩ :=
    endpoint.advance_cases request rest <;>
  · rw [hstate]
    rfl

/-- Turns that end well lead from the start of a run to a later point of it.
The requests of these turns are done, `current` is the endpoint after them, the
rest of the queue is still to come, and the trace is theirs. -/
inductive Turns (endpoint : Endpoint α μ) :
    List Work.Request → Endpoint α μ → List Work.Request → Trace → Prop
  | start : Turns endpoint [] endpoint endpoint.pending #[]
  | next {done current request rest trace} (h : Turns endpoint done current (request :: rest) trace)
      (hok : (current.advance request rest).result = .ok ()) :
      Turns endpoint (done ++ [request]) (current.advance request rest).state rest
        (trace ++ (current.advance request rest).trace)

/-- What turns that end well do to the queue, the count and the halted flag. -/
structure Progress (endpoint : Endpoint α μ) (done : List Work.Request) (current : Endpoint α μ)
    (rest : List Work.Request) (trace : Trace) : Prop where
  queue : endpoint.pending = done ++ rest
  taken : taken trace = done
  started : started trace = done
  halts : halts trace = []
  halted : current.halted = endpoint.halted
  completed : current.completed = endpoint.completed + done.length
  config : current.config = endpoint.config

variable {endpoint current : Endpoint α μ} {done rest : List Work.Request} {trace : Trace}

theorem Turns.progress (h : endpoint.Turns done current rest trace) :
    endpoint.Progress done current rest trace := by
  induction h with
  | start => exact ⟨rfl, rfl, rfl, rfl, rfl, rfl, rfl⟩
  | @next done current request rest trace _ hok ih =>
      obtain ⟨hquiet, hhalted, hcompleted⟩ := advance_of_ok hok
      constructor
      · rw [ih.queue, List.append_assoc, List.singleton_append]
      · rw [taken_append, ih.taken, taken_advance]
      · rw [started_append, ih.started, started_advance]
      · rw [halts_append, ih.halts, hquiet, List.append_nil]
      · rw [hhalted, ih.halted]
      · rw [hcompleted, ih.completed, List.length_append, List.length_singleton, Nat.add_assoc]
      · rw [config_advance, ih.config]

/-- What suspensions and every part of the work preserve, turns preserve. -/
theorem Turns.invariant {P : Datapath α μ → Prop}
    (work : Worker.Invariant fun worker : Worker α μ => P worker.toDatapath)
    (suspend : ∀ worker : Worker α μ, P worker.toDatapath → P worker.suspend.toDatapath)
    (h : endpoint.Turns done current rest trace) (hstart : P endpoint.toDatapath) :
    P current.toDatapath := by
  induction h with
  | start => exact hstart
  | @next done current request rest trace _ _ ih =>
      have hdrained : P (current.atTurn rest).toDatapath := suspend current.worker ih
      have hran := (current.atTurn rest).execute_invariant work hdrained request
      have hfailed : P { ((current.atTurn rest).execute request).state.toDatapath with
          registers := ((current.atTurn rest).execute request).state.registers.fail } :=
        work.registers ((current.atTurn rest).execute request).state.worker _ hran
      obtain ⟨_, _, _, hstate, _⟩ | ⟨_, _, _, _, _, hstate⟩ | ⟨_, _, _, _, _, hstate⟩ :=
        current.advance_cases request rest
      · exact hstate ▸ hran
      · exact hstate ▸ hfailed
      · exact hstate ▸ hran

/-- The run goes on from any point of it. -/
theorem Turns.runQueue_eq (h : endpoint.Turns done current rest trace) :
    endpoint.runQueue 0 #[] endpoint.pending = current.runQueue done.length trace rest := by
  induction h with
  | start => rfl
  | next _ hok ih =>
      rw [ih, runQueue, hok, List.length_append, List.length_singleton]

/-- From any point of a run, turns lead on to the end of the queue or to a turn
that ends with a fault. -/
theorem Turns.exists_end (h : endpoint.Turns done current rest trace) :
    ∃ done current rest trace, endpoint.Turns done current rest trace ∧
      (rest = [] ∨ ∃ request left fault, rest = request :: left ∧
        (current.advance request left).result = .error fault) := by
  -- The rest of the queue gets shorter with each turn that ends well.
  induction rest generalizing done current trace with
  | nil => exact ⟨done, current, [], trace, h, .inl rfl⟩
  | cons request rest ih =>
      cases hresult : (current.advance request rest).result with
      | ok _ => exact ih (.next h hresult)
      | error fault =>
          exact ⟨done, current, request :: rest, trace, h, .inr ⟨request, rest, fault, rfl, hresult⟩⟩

/-- A run of the queue of an endpoint that is not halted consists of turns that
end well, and then either of a last drain or of one turn that halts the
endpoint. -/
theorem runPending_cases (hrunning : endpoint.halted = false) :
    ∃ done current rest trace, endpoint.Turns done current rest trace ∧
      ((rest = [] ∧ endpoint.runPending =
          { result := .ok done.length
            state := current.drain.state.setPending []
            trace := trace ++ current.drain.trace }) ∨
        ∃ request left fault, rest = request :: left ∧
          (current.advance request left).result = .error fault ∧ endpoint.runPending =
          { result := .error fault
            state := (current.advance request left).state
            trace := trace ++ (current.advance request left).trace }) := by
  obtain ⟨done, current, rest, trace, hturns, hend⟩ := Turns.exists_end (.start : endpoint.Turns ..)
  have hrun : endpoint.runPending = current.runQueue done.length trace rest := by
    rw [← hturns.runQueue_eq, runPending, hrunning]
    rfl
  refine ⟨done, current, rest, trace, hturns, ?_⟩
  obtain rfl | ⟨request, left, fault, rfl, hfault⟩ := hend
  · exact .inl ⟨rfl, hrun⟩
  · refine .inr ⟨request, left, fault, rfl, hfault, ?_⟩
    rw [hrun, runQueue, hfault]

theorem runPending_of_halted (hhalted : endpoint.halted = true) :
    endpoint.runPending = { result := .error .halted, state := endpoint } := by
  rw [runPending, hhalted]
  rfl

/-- What a run takes is the beginning of the queue, what it leaves is the rest,
and every request that it takes is carried out. -/
theorem queue_runPending (endpoint : Endpoint α μ) :
    endpoint.pending = taken endpoint.runPending.trace ++ endpoint.runPending.state.pending ∧
      started endpoint.runPending.trace = taken endpoint.runPending.trace := by
  cases hhalted : endpoint.halted with
  | true =>
      rw [runPending_of_halted hhalted]
      exact ⟨rfl, rfl⟩
  | false =>
      obtain ⟨done, current, rest, trace, hturns, hend⟩ := runPending_cases hhalted
      have hprogress := hturns.progress
      obtain ⟨rfl, hrun⟩ | ⟨request, left, fault, rfl, -, hrun⟩ := hend
      · rw [hrun, taken_append, started_append, hprogress.taken, hprogress.started,
          taken_drain, started_drain, hprogress.queue]
        exact ⟨by simp [setPending], rfl⟩
      · rw [hrun, taken_append, started_append, hprogress.taken, hprogress.started, taken_advance,
          started_advance, pending_advance, hprogress.queue]
        exact ⟨by simp, rfl⟩

/-- A run either empties the queue, or it halts the endpoint on the last request
that it takes, under the fail-fast policy. -/
theorem runPending_ends (hrunning : endpoint.halted = false) :
    (endpoint.runPending.result = .ok (taken endpoint.runPending.trace).length ∧
        endpoint.runPending.state.pending = [] ∧ endpoint.runPending.state.halted = false ∧
        halts endpoint.runPending.trace = [] ∧ endpoint.runPending.state.completed =
          endpoint.completed + (taken endpoint.runPending.trace).length) ∨
      ∃ earlier last fault, taken endpoint.runPending.trace = earlier ++ [last] ∧
        endpoint.runPending.result = .error fault ∧ endpoint.config.onFailure = .failFast ∧
        endpoint.runPending.state.halted = true ∧ halts endpoint.runPending.trace = [last] ∧
        endpoint.runPending.state.completed = endpoint.completed + earlier.length := by
  obtain ⟨done, current, rest, trace, hturns, hend⟩ := runPending_cases hrunning
  have hprogress := hturns.progress
  obtain ⟨rfl, hrun⟩ | ⟨request, left, fault, rfl, hfault, hrun⟩ := hend
  · have htaken : taken endpoint.runPending.trace = done := by
      rw [hrun, taken_append, hprogress.taken, taken_drain, List.append_nil]
    have hquiet : halts endpoint.runPending.trace = [] := by
      rw [hrun, halts_append, hprogress.halts, halts_drain, List.append_nil]
    rw [htaken, hquiet, hrun]
    exact .inl ⟨rfl, rfl, hprogress.halted.trans hrunning, rfl, hprogress.completed⟩
  · have htaken : taken endpoint.runPending.trace = done ++ [request] := by
      rw [hrun, taken_append, hprogress.taken, taken_advance]
    obtain ⟨hpolicy, hhalts, hstate⟩ := advance_of_error hfault
    have hhalted : halts endpoint.runPending.trace = [request] := by
      rw [hrun, halts_append, hprogress.halts, hhalts, List.nil_append]
    rw [htaken, hhalted, hrun, hstate]
    exact .inr ⟨done, request, fault, rfl, rfl, hprogress.config ▸ hpolicy, rfl, rfl,
      hprogress.completed⟩

/-- A run carries out the beginning of the queue. This is all of it, or it ends
with a request that halts the endpoint. -/
theorem runPending_outcome (hrunning : endpoint.halted = false) :
    started endpoint.runPending.trace ++ endpoint.runPending.state.pending = endpoint.pending ∧
      (endpoint.runPending.result = .ok endpoint.pending.length ∧
          endpoint.runPending.state.pending = [] ∧ endpoint.runPending.state.halted = false ∨
        ∃ earlier last fault, started endpoint.runPending.trace = earlier ++ [last] ∧
          endpoint.runPending.result = .error fault ∧ endpoint.config.onFailure = .failFast ∧
          halts endpoint.runPending.trace = [last] ∧ endpoint.runPending.state.halted = true) := by
  obtain ⟨hqueue, hstarted⟩ := endpoint.queue_runPending
  rw [hstarted]
  refine ⟨hqueue.symm, ?_⟩
  obtain ⟨hresult, hempty, hruns, _⟩ | ⟨earlier, last, fault, htaken, hresult, hpolicy, hhalted,
    hhalts, _⟩ := runPending_ends hrunning
  · refine .inl ⟨?_, hempty, hruns⟩
    rw [hempty, List.append_nil] at hqueue
    rw [hresult, hqueue]
  · exact .inr ⟨earlier, last, fault, htaken, hresult, hpolicy, hhalts, hhalted⟩

/-- A table with a page of memory, and with a page that no memory stands behind. -/
def pages : Iommu :=
  (({ } : Iommu).map ⟨0x8000, 0x1000⟩ 0x8000 .all).state.map ⟨0x9000, 0x1000⟩ 0x20000 .all
    |>.state

/-- An endpoint over this table, with the default settings. -/
def paged : SoftwareEndpoint :=
  { agent := pages
    memory := .zeroed 0x8000 0x4000
    config := {}
    config_valid := Config.isValid_default }

theorem boot_paged : (boot {} pages (.zeroed 0x8000 0x4000)).1 = .ok paged :=
  congrArg Prod.fst (dif_pos Config.isValid_default)

end Endpoint

end AtsEndpoint
