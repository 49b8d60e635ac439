import AtsEndpoint.Proofs.Atomicity
import AtsEndpoint.Proofs.Exchanges
import AtsEndpoint.Proofs.Halting
import AtsEndpoint.Proofs.Words

/-!
# How a word access ends

A word access looks its address up first. What follows asks the agent for
nothing more and depends on the lookup alone: if the address has no translation,
or none for this access, a mark is left. Otherwise the notices that wait are
applied, the memory is called once, and the access ends as the memory says.
-/

namespace AtsEndpoint

/-! ## Calls to a memory -/

/-- A call to a physical memory. -/
inductive MemoryCall
  /-- So many bytes are read. -/
  | read (physical : Address) (count : Nat)
  /-- The bytes are written. -/
  | write (physical : Address) (bytes : List UInt8)
deriving DecidableEq

namespace MemoryCall

/-- The event of the call. -/
def event : MemoryCall → Event
  | .read physical count => .readIssued physical count
  | .write physical bytes => .writeIssued physical bytes

variable {μ : Type u} [PhysicalMemory μ]

/-- Make the call. A write brings no bytes back. -/
def serve (memory : μ) : MemoryCall → MemoryReply μ ByteArray
  | .read physical count =>
    let reply := PhysicalMemory.read memory physical count
    { reply with answer := reply.answer.map Subtype.val }
  | .write physical bytes =>
    let reply := PhysicalMemory.write memory physical bytes
    { reply with answer := reply.answer.map fun _ => .empty }

end MemoryCall

/-- Only a write that is performed changes the contents. -/
theorem Contents.byte?_serve {μ : Type u} [PhysicalMemory μ] (contents : Contents μ) (memory : μ)
    (call : MemoryCall) :
    contents.byte? (call.serve memory).memory =
      match call, (call.serve memory).answer with
      | .write physical bytes, .ok _ =>
        storeBytes (contents.byte? memory) physical.toNat bytes
      | _, _ => contents.byte? memory := by
  cases call with
  | read physical count => exact contents.read memory physical count
  | write physical bytes =>
    have hfailed := contents.failed memory physical bytes
    have hwritten := contents.written memory physical bytes
    simp only [MemoryCall.serve]
    cases hanswer : (PhysicalMemory.write memory physical bytes).answer with
    | error fault => exact hfailed fault hanswer
    | ok done => exact hwritten hanswer

namespace Event

/-- The call to memory that goes out. -/
def call? : Event → Option MemoryCall
  | .readIssued physical count => some (.read physical count)
  | .writeIssued physical bytes => some (.write physical bytes)
  | _ => none

theorem call?_event (call : MemoryCall) : call.event.call? = some call := by
  cases call <;> rfl

end Event

/-- The calls to memory in a trace. -/
abbrev calls (trace : Trace) : List MemoryCall :=
  observe Event.call? trace

theorem overlooks_call? : Overlooks Event.call? := by
  intro event h
  cases h with
  | ended h => cases h <;> rfl
  | _ => rfl

/-! ## What follows the lookup -/

namespace WordAccess

/-- The call to memory by which the access is made. -/
def call (access : WordAccess) (physical : Address) : MemoryCall :=
  match access with
  | .read => .read physical Register.width
  | .write word => .write physical (Word.bytes word)

/-- The mark that an access leaves when it is denied. -/
def denial (access : WordAccess) (address : Address) (reason : Work.Denial) : Event :=
  match access with
  | .read => .readDenied address reason
  | .write _ => .writeDenied address reason

/-- The registers once the call has come back. -/
def settle (access : WordAccess) (registers : RegisterFile) :
    Except Fault ByteArray → RegisterFile
  | .error _ => registers
  | .ok bytes =>
    match access with
    | .read => (registers.set .value (Word.ofBytes bytes.toList)).complete
    | .write _ => registers.complete

theorem isMark_denial (access : WordAccess) (address : Address) (reason : Work.Denial) :
    (access.denial address reason).IsMark := by
  cases access with
  | read => exact .readDenied address reason
  | write word => exact .writeDenied address reason

end WordAccess

namespace Worker

variable {α : Type u} {μ : Type v}

theorem requests_suspend (worker : Worker α μ) :
    requests worker.suspend.trace = requests worker.trace := by
  have hdrained : requests (worker.notices.drain worker.cache).trace = [] :=
    NoticeQueue.observe_handleAll (fun _ _ => rfl) (fun _ _ => rfl) _ _ _ _
  exact (observe_append _ _).trans ((congrArg _ hdrained).trans (List.append_nil _))

variable [PhysicalMemory μ]

/-- The worker once a call to memory has come back. -/
def afterCall (worker : Worker α μ) (call : MemoryCall) : Worker α μ :=
  let reply := call.serve worker.memory
  { worker with
    memory := reply.memory
    notices := worker.notices.post reply.posted
    trace := worker.trace.push call.event ++ reply.posted.map Event.posted }

/-- The notices that are applied between the lookup and the call, if there is one. -/
def late (looked : Worker α μ) (call? : Option MemoryCall) : List Notice :=
  if call?.isSome then looked.notices.waiting else []

/-- What follows the lookup asks for nothing more, makes this call if it is given
one, and drops what the late notices drop. -/
structure Finishes (looked : Worker α μ) (call? : Option MemoryCall) (after : Worker α μ) :
    Prop where
  agent : after.agent = looked.agent
  memory : after.memory =
    call?.elim looked.memory fun call => (call.serve looked.memory).memory
  requests : requests after.trace = requests looked.trace
  calls : calls after.trace = calls looked.trace ++ call?.toList
  applied : appliedNotices after.trace = appliedNotices looked.trace ++ looked.late call?
  cache : after.cache = NoticeQueue.remains looked.cache (looked.late call?)

theorem finishes_note (looked : Worker α μ) {event : Event} (hmark : event.IsMark) :
    looked.Finishes none (looked.note event).complete := by
  have hpushed {γ : Type} (see : Event → Option γ) :
      observe see (looked.note event).complete.trace =
        observe see looked.trace ++ (see event).toList := observe_push _ _
  constructor
  · rfl
  · rfl
  · refine (hpushed _).trans ?_
    cases hmark <;> exact List.append_nil _
  · refine (hpushed _).trans ?_
    cases hmark <;> rfl
  · refine (hpushed _).trans ?_
    cases hmark <;> rfl
  · rfl

theorem finishes_afterCall (looked : Worker α μ) (call : MemoryCall) (registers : RegisterFile) :
    looked.Finishes (some call) { looked.suspend.afterCall call with registers } := by
  have hseen {γ : Type} (see : Event → Option γ) (hposted : ∀ notice, see (.posted notice) = none) :
      observe see (looked.suspend.afterCall call).trace =
        observe see looked.suspend.trace ++ (see call.event).toList := by
    change observe see (looked.suspend.trace.push call.event ++
      (call.serve looked.memory).posted.map Event.posted) = _
    rw [observe_append_posted hposted, observe_push]
  constructor
  · rfl
  · rfl
  · refine (hseen _ fun _ => rfl).trans ?_
    rw [← requests, looked.requests_suspend]
    cases call <;> exact List.append_nil _
  · refine (hseen _ fun _ => rfl).trans ?_
    rw [observe_suspend overlooks_call?, Event.call?_event]
  · refine (hseen _ fun _ => rfl).trans ?_
    rw [suspend, observe_append, ← appliedNotices, ← appliedNotices, NoticeQueue.applied_drain]
    cases call <;> exact List.append_nil _
  · exact congrArg Prod.snd (NoticeQueue.state_drain _ _)

variable [TranslationAgent α]

/-- The worker once an address is looked up for a word access. -/
def lookUp (worker : Worker α μ) (address : Address) : Worker α μ :=
  (worker.ensure ⟨address, worker.granule.bytes⟩).2

/-- A word access that the lookup denies only leaves a mark. -/
theorem perform_denied {worker : Worker α μ} {access : WordAccess} {address : Address}
    {reason : Work.Denial}
    (hdenied : (worker.lookUp address).cache.resolve address access.wanted = .error reason) :
    worker.perform (access.request address) = (.ok (.denied reason),
      ((worker.lookUp address).note (access.denial address reason)).complete) := by
  have hresolve : worker.resolve address access.wanted =
      (.error reason, worker.lookUp address) := Prod.ext hdenied rfl
  cases access with
  | read =>
    change worker.read address = _
    rw [Worker.read, show worker.resolve address .read = _ from hresolve]
    rfl
  | write word =>
    change worker.write address word = _
    rw [Worker.write, show worker.resolve address .write = _ from hresolve]
    rfl

/-- A word access that the lookup lets through calls the memory once, and it ends
as the memory says. -/
theorem perform_resolved {worker : Worker α μ} {access : WordAccess} {address physical : Address}
    (hphysical : (worker.lookUp address).cache.resolve address access.wanted = .ok physical) :
    worker.perform (access.request address) =
      (((access.call physical).serve (worker.lookUp address).memory).answer.map fun _ => .applied,
        { (worker.lookUp address).suspend.afterCall (access.call physical) with
          registers := access.settle (worker.lookUp address).registers
            ((access.call physical).serve (worker.lookUp address).memory).answer }) := by
  have hresolve : worker.resolve address access.wanted =
      (.ok physical, worker.lookUp address) := Prod.ext hphysical rfl
  generalize worker.lookUp address = looked at hresolve
  cases access with
  | read =>
    change worker.read address = _
    rw [Worker.read, show worker.resolve address .read = _ from hresolve]
    simp only [readMemory, WordAccess.call, MemoryCall.serve, afterCall]
    rw [show looked.suspend.memory = looked.memory from rfl]
    cases hanswer : (PhysicalMemory.read looked.memory physical Register.width).answer with
    | error fault => rfl
    | ok word => rfl
  | write word =>
    change worker.write address word = _
    rw [Worker.write, show worker.resolve address .write = _ from hresolve]
    simp only [writeMemory, WordAccess.call, MemoryCall.serve, afterCall]
    rw [show looked.suspend.memory = looked.memory from rfl]
    cases hanswer : (PhysicalMemory.write looked.memory physical (Word.bytes word)).answer with
    | error fault => rfl
    | ok done => rfl

theorem finishes_perform (worker : Worker α μ) (access : WordAccess) (address : Address) :
    (worker.lookUp address).Finishes
      (((worker.lookUp address).cache.resolve address access.wanted).toOption.map access.call)
      (worker.perform (access.request address)).2 := by
  cases hresolve : (worker.lookUp address).cache.resolve address access.wanted with
  | error reason =>
    rw [perform_denied hresolve]
    exact finishes_note _ (access.isMark_denial address reason)
  | ok physical =>
    rw [perform_resolved hresolve]
    exact finishes_afterCall _ _ _

theorem finishes_execute (worker : Worker α μ) (access : WordAccess) (address : Address) :
    let looked := (worker.note (.workStarted (access.request address))).lookUp address
    looked.Finishes ((looked.cache.resolve address access.wanted).toOption.map access.call)
      (worker.execute (access.request address)).2 := by
  intro looked
  have hperformed :=
    (worker.note (.workStarted (access.request address))).finishes_perform access address
  have hsame := worker.toDatapath_execute (access.request address)
  constructor
  · rw [congrArg Datapath.agent hsame]
    exact hperformed.agent
  · rw [congrArg Datapath.memory hsame]
    exact hperformed.memory
  · exact (observe_execute (fun _ _ => rfl) worker _).trans hperformed.requests
  · exact (observe_execute (fun _ _ => rfl) worker _).trans hperformed.calls
  · exact (observe_execute (fun _ _ => rfl) worker _).trans hperformed.applied
  · rw [congrArg Datapath.cache hsame]
    exact hperformed.cache

end Worker

namespace Endpoint

variable {α : Type u} {μ : Type v} [TranslationAgent α]

/-- The worker of a word access once its address is looked up. -/
def lookUp (endpoint : Endpoint α μ) (access : WordAccess) (address : Address) : Worker α μ :=
  (endpoint.worker.note (.workStarted (access.request address))).lookUp address

end Endpoint

end AtsEndpoint
