import AtsEndpoint.Bench.Script
import AtsEndpoint.Proofs.Turns

/-!
# What waits while a remote party is called

A trace tells at each of its points which notices wait in the queue: those that
have been posted before it and not yet applied. A worker drains the queue just
before each physical access, so no notice waits when memory is called.

A fill drains it once, before its first request. A notice that the agent posts
while it answers has to wait until the fill is over, and it is waiting whenever
the agent is asked again in the same fill. No other notice waits when the agent
is called.
-/

namespace AtsEndpoint

namespace Event

/-- The notice that arrives. -/
def posted? : Event → Option Notice
  | .posted notice => some notice
  | _ => none

/-- The notices that wait after an event. -/
def queueAfter (waiting : List Notice) : Event → List Notice
  | .posted notice => waiting ++ [notice]
  | .noticeApplied _ _ => waiting.tail
  | _ => waiting

end Event

/-- The notices that wait after events. -/
def backlog (waiting : List Notice) (events : List Event) : List Notice :=
  events.foldl Event.queueAfter waiting

theorem backlog_append (waiting : List Notice) (first second : List Event) :
    backlog waiting (first ++ second) = backlog (backlog waiting first) second :=
  List.foldl_append

theorem backlog_posted (waiting notices : List Notice) :
    backlog waiting (notices.map Event.posted) = waiting ++ notices := by
  induction notices generalizing waiting with
  | nil => exact (List.append_nil _).symm
  | cons notice rest ih =>
      refine (ih (waiting ++ [notice])).trans ?_
      rw [List.append_assoc, List.singleton_append]

theorem backlog_remarks (waiting : List Notice) (remarks : List Remark) :
    backlog waiting (remarks.map Event.remark) = waiting := by
  induction remarks with
  | nil => rfl
  | cons remark rest ih => exact ih

/-- Requests that the agent has answered, one after another: after each come the
notices and the remarks of its reply, and then the region that is kept. -/
inductive Answered : List Event → Prop
  | start : Answered []
  | next {earlier : List Event} (h : Answered earlier) (request : TranslationRequest)
      (notices : List Notice) (remarks : List Remark) (region : Region) :
      Answered (earlier ++ (.requested request ::
        notices.map .posted ++ remarks.map .remark ++ [.cached region]))

/-- While answers are given and no notice is applied, all their notices wait. -/
theorem Answered.backlog_eq {events : List Event} (h : Answered events) (waiting : List Notice) :
    backlog waiting events = waiting ++ events.filterMap Event.posted? := by
  induction h with
  | start => exact (List.append_nil _).symm
  | @next earlier _ request notices remarks region ih =>
      have hposted : (notices.map Event.posted).filterMap Event.posted? = notices := by
        rw [List.filterMap_map]
        exact List.filterMap_some
      have hsaid : (remarks.map Event.remark).filterMap Event.posted? = [] := by
        rw [List.filterMap_map]
        exact List.filterMap_eq_nil_iff.mpr fun _ _ => rfl
      rw [backlog_append, ih, backlog_append, backlog_append, List.filterMap_append,
        List.filterMap_append, List.filterMap_append, List.filterMap_cons_none rfl, hposted, hsaid,
        List.filterMap_cons_none rfl, List.filterMap_nil, List.append_nil, List.append_nil]
      change backlog (backlog (_ ++ _) (notices.map .posted)) (remarks.map .remark) = _
      rw [backlog_posted, backlog_remarks, List.append_assoc]

/-- A remote call is punctual when only notices wait that the agent has posted
since a moment when none did, in answers that come just before. When memory is
called, no notice waits at all. -/
def Punctual (start : List Notice) (before : List Event) (call : Event) : Prop :=
  ∃ earlier answers, before = earlier ++ answers ∧ backlog start earlier = [] ∧
    Answered answers ∧ (call.access?.isSome → answers = [])

theorem Punctual.of_backlog {start : List Notice} {before : List Event}
    (h : backlog start before = []) (call : Event) : Punctual start before call :=
  ⟨before, [], (List.append_nil _).symm, h, .start, fun _ => rfl⟩

/-- An event of two parts of a trace is an event of one of them. -/
theorem split_append {first second before after : List Event} {event : Event}
    (h : first ++ second = before ++ event :: after) :
    (∃ rest, first = before ++ event :: rest) ∨
      ∃ middle, before = first ++ middle ∧ second = middle ++ event :: after := by
  rcases List.append_eq_append_iff.mp h with ⟨middle, rfl, hsecond⟩ | ⟨rest, rfl, hrest⟩
  · exact .inr ⟨middle, rfl, hsecond⟩
  · cases rest with
    | nil => exact .inr ⟨[], by simp, hrest.symm⟩
    | cons other rest =>
        obtain ⟨rfl, rfl⟩ := List.cons.inj hrest
        exact .inl ⟨rest, rfl⟩

/-- The notices that wait before and after events, in which every remote call is
punctual. -/
structure Tracks (start : List Notice) (events : List Event) (finish : List Notice) : Prop where
  queue : backlog start events = finish
  calls : ∀ before call after, events = before ++ call :: after → call.IsRemoteCall →
    Punctual start before call

namespace Tracks

variable {start middle finish : List Notice} {first second events : List Event}

theorem of_no_call (h : ∀ event ∈ events, ¬ event.IsRemoteCall) :
    Tracks start events (backlog start events) := by
  refine ⟨rfl, ?_⟩
  rintro before call after rfl hcall
  exact absurd hcall (h call (by simp))

theorem nil (waiting : List Notice) : Tracks waiting [] waiting :=
  of_no_call (by simp)

theorem trans (hfirst : Tracks start first middle) (hsecond : Tracks middle second finish) :
    Tracks start (first ++ second) finish := by
  refine ⟨by rw [backlog_append, hfirst.queue, hsecond.queue], ?_⟩
  intro before call after hsplit hcall
  rcases split_append hsplit with ⟨rest, hfound⟩ | ⟨since, rfl, hfound⟩
  · exact hfirst.calls before call rest hfound hcall
  · obtain ⟨earlier, answers, rfl, hempty, hanswered⟩ := hsecond.calls since call after hfound hcall
    refine ⟨first ++ earlier, answers, (List.append_assoc _ _ _).symm, ?_, hanswered⟩
    rw [backlog_append, hfirst.queue, hempty]

/-- A punctual call goes on with the same notices waiting. -/
theorem call (h : Tracks start events finish) {call : Event} (hcall : call.IsRemoteCall)
    (hpunctual : Punctual start events call) : Tracks start (events ++ [call]) finish := by
  have hqueue : Event.queueAfter finish call = finish := by
    cases hcall <;> rfl
  refine ⟨by rw [backlog_append, h.queue]; exact hqueue, ?_⟩
  intro before other after hsplit hother
  rcases split_append hsplit with ⟨rest, hfound⟩ | ⟨since, rfl, hfound⟩
  · exact h.calls before other rest hfound hother
  · cases since with
    | nil =>
        obtain ⟨rfl, -⟩ := List.cons.inj hfound
        rwa [List.append_nil]
    | cons _ _ => simp at hfound

theorem posted (waiting notices : List Notice) :
    Tracks waiting (notices.map .posted) (waiting ++ notices) := by
  rw [← backlog_posted]
  refine of_no_call ?_
  intro event hevent
  obtain ⟨notice, -, rfl⟩ := List.mem_map.mp hevent
  rintro ⟨⟩

theorem remarks (waiting : List Notice) (remarks : List Remark) :
    Tracks waiting (remarks.map .remark) waiting := by
  have h : Tracks waiting (remarks.map Event.remark) (backlog waiting (remarks.map .remark)) := by
    refine of_no_call ?_
    intro event hevent
    obtain ⟨remark, -, rfl⟩ := List.mem_map.mp hevent
    rintro ⟨⟩
  rwa [backlog_remarks] at h

/-- An event that has nothing to do with the queue. -/
theorem single {event : Event} (hcall : ¬ event.IsRemoteCall)
    (hqueue : Event.queueAfter start event = start) : Tracks start [event] start := by
  have h : Tracks start [event] (Event.queueAfter start event) :=
    of_no_call fun other hother => List.mem_singleton.mp hother ▸ hcall
  rwa [hqueue] at h

theorem handle (queue : NoticeQueue) (cache : Cache) (notice : Notice) (rest : List Notice) :
    Tracks (notice :: rest) (queue.handle cache notice).trace.toList rest := by
  have h : Tracks (notice :: rest) (queue.handle cache notice).trace.toList
      (backlog (notice :: rest) (queue.handle cache notice).trace.toList) := by
    refine of_no_call ?_
    intro event hevent
    rcases Array.mem_push.mp (Array.mem_toList_iff.mp hevent) with hdropped | rfl
    · obtain rfl := Array.mem_singleton.mp hdropped
      rintro ⟨⟩
    · rintro ⟨⟩
  exact h

/-- Once the queue is drained, no notice waits. -/
theorem handleAll (queue : NoticeQueue) (cache : Cache) {trace : Trace} {notices : List Notice}
    (h : Tracks start trace.toList notices) :
    Tracks start (queue.handleAll cache trace notices).trace.toList [] := by
  induction notices generalizing queue cache trace with
  | nil => exact h
  | cons notice rest ih =>
      refine ih _ _ ?_
      rw [Array.toList_append]
      exact h.trans (handle queue cache notice rest)

theorem drain (queue : NoticeQueue) (cache : Cache) :
    Tracks queue.waiting (queue.drain cache).trace.toList [] :=
  handleAll _ _ (nil _)

/-- The agent is asked, and its notices arrive. -/
theorem ask {answers : List Event} (hanswered : Answered answers)
    (h : Tracks [] answers finish) (request : TranslationRequest) (notices : List Notice)
    (remarks : List Remark) : Tracks []
      (answers ++ (.requested request :: notices.map .posted ++ remarks.map .remark))
      (finish ++ notices) := by
  have hpunctual : Punctual [] answers (.requested request) :=
    ⟨[], answers, rfl, rfl, hanswered, fun h => by cases h⟩
  have hasked := ((h.call (.requested request) hpunctual).trans (posted finish notices)).trans
    (Tracks.remarks _ remarks)
  simpa only [List.append_assoc, List.singleton_append, List.cons_append, List.nil_append]
    using hasked

/-- Memory is called while no notice waits, and its notices arrive. -/
theorem access (h : Tracks start events []) {call : Event} (hcall : call.IsRemoteCall)
    (notices : List Notice) :
    Tracks start (events ++ [call] ++ notices.map .posted) notices :=
  (h.call hcall (.of_backlog h.queue call)).trans (posted [] notices)

end Tracks

/-! ## Fills -/

namespace Fill

variable {α : Type u} [TranslationAgent α]

/-- The events of a fill, up to a moment when all its requests are answered. -/
structure Settled (fill : Fill α) : Prop where
  answered : Answered fill.trace.toList
  tracks : Tracks [] fill.trace.toList fill.posted.toList

theorem Settled.ask {fill : Fill α} (h : fill.Settled) (request : TranslationRequest) :
    Tracks [] (fill.ask request).2.trace.toList (fill.ask request).2.posted.toList := by
  let reply := TranslationAgent.translate fill.agent request
  have hasked := h.tracks.ask h.answered request reply.posted reply.remarks
  rw [Fill.ask, Array.toList_append, Array.toList_appendList]
  exact hasked

/-- In a fill that starts with no notice waiting, those wait that its answers
have brought. -/
theorem tracks_walk {fill : Fill α} (h : fill.Settled) (address : Address) (remaining : UInt64) :
    Tracks [] (fill.walk address remaining).trace.toList
      (fill.walk address remaining).posted.toList := by
  -- Between two requests all that came before is answered. The last request of
  -- the walk is not followed by another one, so the end asks for less.
  refine walk_induction (P := Settled)
    (Q := fun fill => Tracks [] fill.trace.toList fill.posted.toList)
    ?_ ?_ ?_ fill address remaining h
  · intro fill h
    exact h.tracks
  · intro fill address event hends h
    have hevent : Tracks (fill.ask ⟨address, .all⟩).2.posted.toList [event] _ :=
      .single (by cases hends <;> rintro ⟨⟩) (by cases hends <;> rfl)
    simpa only [note, Array.toList_push] using (h.ask ⟨address, .all⟩).trans hevent
  · intro fill address answer hlength h _
    let reply := TranslationAgent.translate fill.agent ⟨address, .all⟩
    let region := Region.ofTranslation address answer hlength
    have hevent : Tracks (fill.ask ⟨address, .all⟩).2.posted.toList [.cached region] _ :=
      .single (by rintro ⟨⟩) rfl
    constructor
    · have hanswered := h.answered.next ⟨address, .all⟩ reply.posted reply.remarks region
      simpa only [keep, Fill.ask, Array.toList_push, Array.toList_append, AgentReply.trace,
        List.append_assoc, List.cons_append] using hanswered
    · simpa only [keep, Array.toList_push] using (h.ask ⟨address, .all⟩).trans hevent

end Fill

/-! ## Workers -/

namespace Worker

variable {α : Type u} {μ : Type v} {start : List Notice}

/-- The notices that wait are known from the trace, and every remote call in it
is punctual. -/
abbrev Tracked (start : List Notice) (worker : Worker α μ) : Prop :=
  Tracks start worker.trace.toList worker.notices.waiting

theorem tracked_note {worker : Worker α μ} (h : worker.Tracked start) {event : Event}
    (hcall : ¬ event.IsRemoteCall)
    (hqueue : Event.queueAfter worker.notices.waiting event = worker.notices.waiting) :
    (worker.note event).Tracked start := by
  have hnoted := h.trans (.single hcall hqueue)
  simpa only [Tracked, note, Array.toList_push] using hnoted

theorem tracked_suspend {worker : Worker α μ} (h : worker.Tracked start) :
    Tracks start worker.suspend.trace.toList [] := by
  have hdrained := h.trans (.drain worker.notices worker.cache)
  simpa only [suspend, Array.toList_append] using hdrained

variable [TranslationAgent α] [PhysicalMemory μ]

/-- The queue is drained just before each fill and each physical access. -/
theorem tracked_invariant (start : List Notice) :
    Invariant fun worker : Worker α μ => worker.Tracked start where
  mark worker event hmark h :=
    tracked_note h (by cases hmark <;> rintro ⟨⟩) (by cases hmark <;> rfl)
  registers _ _ h := h
  fill worker range h := by
    let run := Fill.run worker.suspend.granule.bytes worker.suspend.agent range
    have hfill : Tracks [] run.trace.toList run.posted.toList :=
      Fill.tracks_walk ⟨.start, .nil _⟩ _ _
    have hfilled := (tracked_suspend h).trans hfill
    rw [← Array.toList_append] at hfilled
    simpa only [Tracked, fill, NoticeQueue.waiting_post, waiting_suspend, List.nil_append]
      using hfilled
  readMemory worker physical count h := by
    have hread := (tracked_suspend h).access (.readIssued physical count)
      (PhysicalMemory.read worker.suspend.memory physical count).posted
    rw [← Array.toList_push, ← Array.toList_appendList] at hread
    simpa only [Tracked, readMemory, NoticeQueue.waiting_post, waiting_suspend, List.nil_append]
      using hread
  writeMemory worker physical bytes h := by
    have hwritten := (tracked_suspend h).access (.writeIssued physical bytes)
      (PhysicalMemory.write worker.suspend.memory physical bytes).posted
    rw [← Array.toList_push, ← Array.toList_appendList] at hwritten
    simpa only [Tracked, writeMemory, NoticeQueue.waiting_post, waiting_suspend, List.nil_append]
      using hwritten

theorem tracked_execute {worker : Worker α μ} (h : worker.Tracked start)
    (request : Work.Request) : (worker.execute request).2.Tracked start := by
  have hstarted : (worker.note (.workStarted request)).Tracked start :=
    tracked_note h (by rintro ⟨⟩) rfl
  have hperformed := (tracked_invariant start).perform _ request hstarted
  unfold execute
  split
  next fault after hperform => rwa [hperform] at hperformed
  next outcome after hperform =>
    rw [hperform] at hperformed
    exact tracked_note hperformed (by rintro ⟨⟩) rfl

end Worker

namespace Endpoint

variable {α : Type u} {μ : Type v}

theorem tracks_drain (endpoint : Endpoint α μ) :
    Tracks endpoint.notices.waiting endpoint.drain.trace.toList [] :=
  .drain _ _

theorem tracks_conclude (endpoint : Endpoint α μ) (request : Work.Request)
    (result : Except Fault Work.Outcome) : Tracks endpoint.notices.waiting
      (endpoint.conclude request result).trace.toList
      (endpoint.conclude request result).state.notices.waiting := by
  cases result with
  | ok outcome => exact .nil _
  | error fault =>
      simp only [conclude]
      cases endpoint.config.onFailure <;> exact .single (by rintro ⟨⟩) rfl

variable [TranslationAgent α] [PhysicalMemory μ]

theorem tracks_execute (endpoint : Endpoint α μ) (request : Work.Request) :
    Tracks endpoint.notices.waiting (endpoint.execute request).trace.toList
      (endpoint.execute request).state.notices.waiting :=
  have htracked : endpoint.worker.Tracked endpoint.notices.waiting := .nil _
  Worker.tracked_execute htracked request

theorem tracks_advance (endpoint : Endpoint α μ) (request : Work.Request)
    (rest : List Work.Request) : Tracks endpoint.notices.waiting
      (endpoint.advance request rest).trace.toList
      (endpoint.advance request rest).state.notices.waiting := by
  let run := (endpoint.atTurn rest).execute request
  have hwaiting : (endpoint.atTurn rest).notices.waiting = [] := by
    rw [atTurn, drain, NoticeQueue.state_drain]
    rfl
  have hran : Tracks [] run.trace.toList run.state.notices.waiting := by
    rw [← hwaiting]
    exact tracks_execute _ request
  have htaken : Tracks [] [.taken request] [] := .single (by rintro ⟨⟩) rfl
  have hall := ((endpoint.tracks_drain.trans htaken).trans hran).trans
    (run.state.tracks_conclude request run.result)
  rw [← Array.toList_push, ← Array.toList_append, ← Array.toList_append] at hall
  exact hall

theorem Turns.tracks {endpoint current : Endpoint α μ} {done rest : List Work.Request}
    {trace : Trace} (h : endpoint.Turns done current rest trace) :
    Tracks endpoint.notices.waiting trace.toList current.notices.waiting := by
  induction h with
  | start => exact .nil _
  | @next done current request rest trace _ _ ih =>
      rw [Array.toList_append]
      exact ih.trans (current.tracks_advance request rest)

theorem tracks_runPending (endpoint : Endpoint α μ) :
    Tracks endpoint.notices.waiting endpoint.runPending.trace.toList
      endpoint.runPending.state.notices.waiting := by
  cases hhalted : endpoint.halted with
  | true =>
      rw [runPending_of_halted hhalted]
      exact .nil _
  | false =>
      obtain ⟨done, current, rest, trace, hturns, hend⟩ := runPending_cases hhalted
      obtain ⟨rfl, hrun⟩ | ⟨request, left, fault, rfl, -, hrun⟩ := hend
      · have hwaiting : (current.drain.state.setPending []).notices.waiting = [] := by
          rw [drain, NoticeQueue.state_drain]
          rfl
        rw [hrun, hwaiting, Array.toList_append]
        exact hturns.tracks.trans current.tracks_drain
      · rw [hrun, Array.toList_append]
        exact hturns.tracks.trans (current.tracks_advance request left)

/-- In a run of the queue no notice waits when memory is called. When the agent
is called, those wait that it has posted itself in the answers that come just
before in the same fill, and no other. -/
theorem backlog_at_call (endpoint : Endpoint α μ) {before after : List Event} {call : Event}
    (htrace : endpoint.runPending.trace.toList = before ++ call :: after)
    (hcall : call.IsRemoteCall) : ∃ earlier answers, before = earlier ++ answers ∧
      Answered answers ∧ backlog endpoint.notices.waiting earlier = [] ∧
      backlog endpoint.notices.waiting before = answers.filterMap Event.posted? ∧
      (call.access?.isSome → answers = []) := by
  obtain ⟨earlier, answers, rfl, hempty, hanswered, haccess⟩ :=
    endpoint.tracks_runPending.calls before call after htrace hcall
  refine ⟨earlier, answers, rfl, hanswered, hempty, ?_, haccess⟩
  rw [backlog_append, hempty, hanswered.backlog_eq, List.nil_append]

/-- An agent that grants two pages, and takes the second one back while it
answers for the first. -/
def fickleAgent : Bench.ScriptedAgent :=
  let page (start : Address) (posts : List Notice) : Bench.Rule :=
    { first := start
      last := start + 0xfff
      uses := none
      target := none
      shift := 0
      length := 0x1000
      grants := .all
      masked := false
      posts
      postsOwn := false
      fails := none }
  { rules := [page 0x8000 [⟨0x9000, 0x1000⟩], page 0x9000 []] }

/-- A checksum across the two pages is queued. -/
def crossing : Endpoint Bench.ScriptedAgent HostMemory :=
  { agent := fickleAgent
    memory := .zeroed 0x8000 0x4000
    config := {}
    config_valid := Config.isValid_default
    pending := [.checksum ⟨0x8ff0, 0x20⟩] }

/-- When the agent is asked for the second page, its notice for this page waits. -/
theorem backlog_at_second_request :
    ∃ before after, crossing.runPending.trace.toList =
        before ++ .requested ⟨0x9000, .all⟩ :: after ∧
      backlog crossing.notices.waiting before = [⟨0x9000, 0x1000⟩] :=
  ⟨crossing.runPending.trace.toList.take 5, crossing.runPending.trace.toList.drop 6,
    by decide +kernel, by decide +kernel⟩

/-- When the first bytes are read after that, it waits no longer. -/
theorem backlog_at_first_read :
    ∃ before after, crossing.runPending.trace.toList =
        before ++ .readIssued 0x8ff0 0x10 :: after ∧
      backlog crossing.notices.waiting before = [] := by
  let trace := crossing.runPending.trace.toList
  have htrace : trace = trace.take 9 ++ .readIssued 0x8ff0 0x10 :: trace.drop 10 := by
    decide +kernel
  obtain ⟨_, answers, _, _, _, hwaiting, haccess⟩ :=
    crossing.backlog_at_call htrace (.readIssued 0x8ff0 0x10)
  refine ⟨_, _, htrace, ?_⟩
  rw [hwaiting, haccess rfl, List.filterMap_nil]

end Endpoint

end AtsEndpoint
