import AtsEndpoint.Agent
import AtsEndpoint.Notice

/-!
# What a trace shows

An observer looks at the events of a trace one at a time and sees something in
some of them. Two observers matter here. One sees how each request ended: its
outcome, or the kind of the fault that stopped it. The other sees the physical
accesses.

Most of what a worker leaves in a trace belongs to looking a translation up:
requests and replies, and notices that arrive and are applied. An observer that
overlooks all of this sees nothing in the replies of an agent and nothing in the
application of notices.
-/

namespace AtsEndpoint

/-- How a request ended, as far as it does not depend on what was cached: the
number of regions added, and which access failed, are left out. -/
abbrev Report := Except Fault.Kind Work.Outcome

theorem eq_ok_of_toOption {ε α : Type} {result : Except ε α} {value : α}
    (h : result.toOption = some value) : result = .ok value := by
  cases result with
  | error fault => cases h
  | ok other => exact congrArg _ (Option.some.inj h)

theorem exists_eq_error_of_toOption {ε α : Type} {result : Except ε α}
    (h : result.toOption = none) : ∃ fault, result = .error fault := by
  cases result with
  | error fault => exact ⟨fault, rfl⟩
  | ok value => cases h

/-- The report of an outcome. -/
def Work.Outcome.report : Work.Outcome → Report
  | .translated _ => .ok (.translated 0)
  | outcome => .ok outcome

namespace Event

/-- The report of an event that ends a request. -/
def report? : Event → Option Report
  | .workDone outcome _ => some outcome.report
  | .haltedOn _ fault | .requestFailed _ fault => some (.error fault.kind)
  | _ => none

/-- The first physical byte and the number of bytes of an access. -/
def access? : Event → Option (Address × Nat)
  | .readIssued physical count => some (physical, count)
  | .writeIssued physical bytes => some (physical, bytes.length)
  | _ => none

/-- A fill ends before it has covered its range. -/
inductive EndsFill : Event → Prop
  | declined (address : Address) (fault : Fault) : EndsFill (.fillDeclined address fault)
  | unusable (address : Address) : EndsFill (.fillUnusable address)

/-- The event belongs to looking a translation up: the agent is asked, its
answers are kept, and notices arrive and are applied. -/
inductive IsLookup : Event → Prop
  | requested (request : TranslationRequest) : IsLookup (.requested request)
  | posted (notice : Notice) : IsLookup (.posted notice)
  | remark (said : Remark) : IsLookup (.remark said)
  | cached (region : Region) : IsLookup (.cached region)
  | invalidated (range : Span) (removed : Nat) : IsLookup (.invalidated range removed)
  | noticeApplied (notice : Notice) (removed : Nat) : IsLookup (.noticeApplied notice removed)
  | ended {event : Event} (h : event.EndsFill) : IsLookup event

/-- A worker says why it goes no further. -/
inductive IsMark : Event → Prop
  | readDenied (address : Address) (reason : Work.Denial) : IsMark (.readDenied address reason)
  | writeDenied (address : Address) (reason : Work.Denial) : IsMark (.writeDenied address reason)
  | checksumStopped (address : Address) : IsMark (.checksumStopped address)

/-- The event belongs to the work on a request, between its start and its end. -/
inductive IsWork : Event → Prop
  | lookup {event : Event} (h : event.IsLookup) : IsWork event
  | mark {event : Event} (h : event.IsMark) : IsWork event
  | readIssued (physical : Address) (count : Nat) : IsWork (.readIssued physical count)
  | writeIssued (physical : Address) (bytes : List UInt8) : IsWork (.writeIssued physical bytes)

/-- A remote party is called: the agent is asked, or memory is accessed. -/
inductive IsRemoteCall : Event → Prop
  | requested (request : TranslationRequest) : IsRemoteCall (.requested request)
  | readIssued (physical : Address) (count : Nat) : IsRemoteCall (.readIssued physical count)
  | writeIssued (physical : Address) (bytes : List UInt8) :
      IsRemoteCall (.writeIssued physical bytes)

/-- No request ends while it is worked on. -/
theorem IsWork.report {event : Event} (h : event.IsWork) : event.report? = none := by
  cases h with
  | lookup h =>
      cases h with
      | ended h => cases h <;> rfl
      | _ => rfl
  | mark h => cases h <;> rfl
  | _ => rfl

theorem IsLookup.access {event : Event} (h : event.IsLookup) : event.access? = none := by
  cases h with
  | ended h => cases h <;> rfl
  | _ => rfl

end Event

variable {β : Type v} {see : Event → Option β}

/-- What is seen in a trace, in order. -/
def observe (see : Event → Option β) (trace : Trace) : List β :=
  trace.toList.filterMap see

@[simp] theorem observe_empty : observe see #[] = [] := rfl

@[simp] theorem observe_append (first second : Trace) :
    observe see (first ++ second) = observe see first ++ observe see second := by
  simp [observe]

@[simp] theorem observe_push (trace : Trace) (event : Event) :
    observe see (trace.push event) = observe see trace ++ (see event).toList := by
  cases hseen : see event <;> simp [observe, hseen]

/-- Applying notices is not seen by one who sees nothing in applying one. -/
theorem NoticeQueue.observe_handleAll
    (dropped : ∀ range removed, see (.invalidated range removed) = none)
    (applied : ∀ notice removed, see (.noticeApplied notice removed) = none) (queue : NoticeQueue)
    (cache : Cache) (trace : Trace) (notices : List Notice) :
    observe see (queue.handleAll cache trace notices).trace = observe see trace := by
  induction notices generalizing queue cache trace with
  | nil => rfl
  | cons notice rest ih =>
      have hhandled : observe see (queue.handle cache notice).trace = [] := by
        rw [handle, observe_push, applied]
        change observe see #[_] ++ [] = []
        rw [List.append_nil]
        exact List.filterMap_cons_none (dropped _ _)
      rw [handleAll, ih, observe_append, hhandled, List.append_nil]

section Posted

variable (hposted : ∀ notice, see (.posted notice) = none)
include hposted

theorem filterMap_posted (notices : List Notice) :
    (notices.map Event.posted).filterMap see = [] := by
  rw [List.filterMap_map]
  exact List.filterMap_eq_nil_iff.mpr fun notice _ => hposted notice

/-- Notices that arrive are not seen. -/
theorem observe_append_posted (trace : Trace) (notices : List Notice) :
    observe see (trace ++ notices.map Event.posted) = observe see trace := by
  rw [observe, Array.toList_appendList, List.filterMap_append, filterMap_posted hposted,
    List.append_nil]
  rfl

end Posted

/-- Nothing is seen in looking translations up. -/
def Overlooks (see : Event → Option β) : Prop :=
  ∀ ⦃event : Event⦄, event.IsLookup → see event = none

namespace Overlooks

variable (h : Overlooks see)
include h

theorem filterMap_eq_nil {events : List Event} (hlookups : ∀ event ∈ events, event.IsLookup) :
    events.filterMap see = [] :=
  List.filterMap_eq_nil_iff.mpr fun event hevent => h (hlookups event hevent)

theorem observe_reply {α : Type u} (reply : AgentReply α) (request : TranslationRequest) :
    observe see (reply.trace request) = [] := by
  refine h.filterMap_eq_nil ?_
  intro event hevent
  rcases List.mem_append.mp hevent with hposted | hremark
  · rcases List.mem_cons.mp hposted with rfl | hposted
    · exact .requested request
    · obtain ⟨notice, _, rfl⟩ := List.mem_map.mp hposted
      exact .posted notice
  · obtain ⟨remark, _, rfl⟩ := List.mem_map.mp hremark
    exact .remark remark

theorem observe_handleAll (queue : NoticeQueue) (cache : Cache) (trace : Trace)
    (notices : List Notice) :
    observe see (queue.handleAll cache trace notices).trace = observe see trace :=
  NoticeQueue.observe_handleAll (fun _ _ => h (.invalidated _ _)) (fun _ _ => h (.noticeApplied _ _))
    queue cache trace notices

/-- Applying notices shows nothing. -/
theorem observe_drain (queue : NoticeQueue) (cache : Cache) :
    observe see (queue.drain cache).trace = [] :=
  h.observe_handleAll _ _ _ _

end Overlooks

/-- The reports of a trace, one for each request that ended. -/
abbrev reports (trace : Trace) : List Report :=
  observe Event.report? trace

theorem reports_append (first second : Trace) :
    reports (first ++ second) = reports first ++ reports second :=
  observe_append first second

theorem overlooks_report? : Overlooks Event.report? :=
  fun _ hlookup => Event.IsWork.report (.lookup hlookup)

/-- The physical accesses of a trace. -/
abbrev accesses (trace : Trace) : List (Address × Nat) :=
  observe Event.access? trace

theorem overlooks_access? : Overlooks Event.access? :=
  fun _ hlookup => hlookup.access

end AtsEndpoint
