import AtsEndpoint.Proofs.Accesses
import AtsEndpoint.Proofs.Pieces

/-!
# Notices do not disturb a word access

Two endpoints that start alike carry out the same word access. Their agents
answer alike and their memories serve alike, but the notices posted meanwhile
need not be the same. The two accesses look their address up in the same cache,
as nothing is applied between the first request of a fill and the lookup. What
follows the lookup depends on the physical address alone, so the accesses end
alike. Only their caches can differ then: each has lost what the notices that
were applied in it have dropped.
-/

namespace AtsEndpoint

/-! ## Parties that behave alike -/

section Agents

variable {α : Type u} {β : Type v} [TranslationAgent α] [TranslationAgent β]

/-- The answers of an agent to requests made one after another. -/
def answers (agent : α) : List TranslationRequest → List (Except Fault Translation)
  | [] => []
  | request :: rest =>
    let reply := TranslationAgent.translate agent request
    reply.answer :: answers reply.agent rest

/-- Two agents answer the same requests in the same way, whatever they post. -/
def AnswersAlike (here : α) (there : β) : Prop :=
  ∀ requests, answers here requests = answers there requests

namespace AnswersAlike

variable {here : α} {there : β} (h : AnswersAlike here there) (request : TranslationRequest)
include h

theorem answer_eq : (TranslationAgent.translate here request).answer =
    (TranslationAgent.translate there request).answer :=
  (List.cons.inj (h [request])).1

theorem next : AnswersAlike (TranslationAgent.translate here request).agent
    (TranslationAgent.translate there request).agent := by
  intro later
  exact (List.cons.inj (h (request :: later))).2

end AnswersAlike

end Agents

section Memories

variable {μ : Type u} {ν : Type v} [PhysicalMemory μ] [PhysicalMemory ν]

/-- What a memory brings back on calls made one after another. -/
def served (memory : μ) : List MemoryCall → List (Except Fault ByteArray)
  | [] => []
  | call :: rest =>
    let reply := call.serve memory
    reply.answer :: served reply.memory rest

/-- Two memories serve the same calls in the same way, whatever they post. -/
def ServesAlike (here : μ) (there : ν) : Prop :=
  ∀ calls, served here calls = served there calls

namespace ServesAlike

variable {here : μ} {there : ν} (h : ServesAlike here there) (call : MemoryCall)
include h

theorem answer_eq : (call.serve here).answer = (call.serve there).answer :=
  (List.cons.inj (h [call])).1

theorem next : ServesAlike (call.serve here).memory (call.serve there).memory := by
  intro later
  exact (List.cons.inj (h (call :: later))).2

end ServesAlike

theorem ServesAlike.byte?_serve {here : μ} {there : ν} (h : ServesAlike here there)
    {contents : Contents μ} {others : Contents ν}
    (hsame : contents.byte? here = others.byte? there) (call : MemoryCall) :
    contents.byte? (call.serve here).memory = others.byte? (call.serve there).memory := by
  rw [contents.byte?_serve, others.byte?_serve, h.answer_eq call, hsame]

end Memories

/-! ## Two fills -/

namespace Fill

variable {α : Type u} {β : Type v} [TranslationAgent α] [TranslationAgent β]

/-- Two fills have gone alike so far, and will. -/
structure Twins (here : Fill α) (there : Fill β) : Prop where
  agent : AnswersAlike here.agent there.agent
  regions : here.regions = there.regions
  requests : requests here.trace = requests there.trace

namespace Twins

variable {here : Fill α} {there : Fill β} (h : here.Twins there)
include h

theorem ask {request : TranslationRequest} {answer : Except Fault Translation} {asked : Fill α}
    (hask : here.ask request = (answer, asked)) :
    ∃ other, there.ask request = (answer, other) ∧ asked.Twins other := by
  obtain rfl : (here.ask request).2 = asked := congrArg Prod.snd hask
  obtain rfl : (here.ask request).1 = answer := congrArg Prod.fst hask
  refine ⟨(there.ask request).2, ?_, ?_⟩
  · exact Prod.ext (h.agent.answer_eq request).symm rfl
  · constructor
    · exact h.agent.next request
    · exact h.regions
    · rw [requests_ask, requests_ask, h.requests]

theorem note {event : Event} (hends : event.EndsFill) :
    (here.note event).Twins (there.note event) := by
  constructor
  · exact h.agent
  · exact h.regions
  · rw [requests_note _ hends, requests_note _ hends, h.requests]

theorem keep (region : Region) : (here.keep region).Twins (there.keep region) := by
  constructor
  · exact h.agent
  · exact congrArg (·.push region) h.regions
  · rw [requests_keep, requests_keep, h.requests]

omit h in
theorem walk (address : Address) (remaining : UInt64) :
    ∀ there : Fill β, here.Twins there →
      (here.walk address remaining).Twins (there.walk address remaining) := by
  fun_induction Fill.walk here address remaining with
  | case1 here address =>
    intro there h
    rw [Fill.walk, if_pos rfl]
    exact h
  | case2 here address remaining hwanted fault asked hask =>
    intro there h
    obtain ⟨other, hother, htwins⟩ := h.ask hask
    rw [Fill.walk, if_neg hwanted, hother]
    exact htwins.note (.declined address fault)
  | case3 here address remaining hwanted answer asked hask hlength =>
    intro there h
    obtain ⟨other, hother, htwins⟩ := h.ask hask
    rw [Fill.walk, if_neg hwanted, hother]
    simp only [dif_pos hlength]
    exact htwins.note (.unusable address)
  | case4 here address remaining hwanted answer asked hask hlength region kept hle =>
    intro there h
    obtain ⟨other, hother, htwins⟩ := h.ask hask
    rw [Fill.walk, if_neg hwanted, hother]
    simp only [dif_neg hlength, if_pos hle]
    exact htwins.keep region
  | case5 here address remaining hwanted answer asked hask hlength region kept hmore hend =>
    intro there h
    obtain ⟨other, hother, htwins⟩ := h.ask hask
    rw [Fill.walk, if_neg hwanted, hother]
    simp only [dif_neg hlength, if_neg hmore]
    rw [hend]
    exact htwins.keep region
  | case6 here address remaining hwanted answer asked hask hlength region kept hmore next hnext ih =>
    intro there h
    obtain ⟨other, hother, htwins⟩ := h.ask hask
    have hwalk : there.walk address remaining =
        (other.keep region).walk next (remaining - answer.length) := by
      rw [Fill.walk, if_neg hwanted, hother]
      simp only [dif_neg hlength, if_neg hmore]
      rw [hnext]
    rw [hwalk]
    exact ih _ (htwins.keep region)

end Twins

/-- No notice is applied in a fill. -/
theorem applied_run (granule : UInt64) (agent : α) (range : Span) :
    appliedNotices (run granule agent range).trace = [] := by
  apply List.filterMap_eq_nil_iff.mpr
  intro event hevent
  have hidle := (told_run granule agent range {}).not_applying event hevent
  cases event <;> first | rfl | cases hidle

end Fill

/-! ## Two word accesses -/

namespace Worker

variable {α : Type u} {μ : Type v} {β : Type w} {ν : Type x}
  [TranslationAgent α] [TranslationAgent β] [PhysicalMemory μ] [PhysicalMemory ν]

/-- Two workers have gone alike so far, and will. -/
structure Twins (here : Worker α μ) (there : Worker β ν) : Prop where
  granule : here.granule = there.granule
  registers : here.registers = there.registers
  cache : here.cache = there.cache
  agent : AnswersAlike here.agent there.agent
  memory : ServesAlike here.memory there.memory
  requests : requests here.trace = requests there.trace
  calls : calls here.trace = calls there.trace
  applied : appliedNotices here.trace = appliedNotices there.trace

namespace Twins

variable {here : Worker α μ} {there : Worker β ν} (h : here.Twins there)
include h

/-- The same notices take effect in the same cache. -/
theorem suspend (hwaiting : here.notices.waiting = there.notices.waiting) :
    here.suspend.Twins there.suspend := by
  constructor
  · exact h.granule
  · exact h.registers
  · rw [Worker.suspend, Worker.suspend, NoticeQueue.state_drain, NoticeQueue.state_drain, h.cache,
      hwaiting]
  · exact h.agent
  · exact h.memory
  · rw [requests_suspend, requests_suspend, h.requests]
  · rw [AtsEndpoint.calls, AtsEndpoint.calls, observe_suspend overlooks_call?,
      observe_suspend overlooks_call?]
    exact h.calls
  · rw [Worker.suspend, Worker.suspend, appliedNotices_append, appliedNotices_append,
      NoticeQueue.applied_drain, NoticeQueue.applied_drain, h.applied, hwaiting]

/-- The agents are asked for the same, and the same regions are kept. -/
theorem fill (range : Span) : (here.fill range).2.Twins (there.fill range).2 := by
  have htwins : (Fill.run here.granule.bytes here.agent range).Twins
      (Fill.run there.granule.bytes there.agent range) := by
    rw [Fill.run, Fill.run, h.granule]
    exact Fill.Twins.walk _ _ _ ⟨h.agent, rfl, rfl⟩
  constructor
  · exact h.granule
  · exact h.registers
  · rw [Worker.fill, Worker.fill, h.cache, htwins.regions]
  · exact htwins.agent
  · exact h.memory
  · rw [AtsEndpoint.requests, AtsEndpoint.requests, Worker.fill, Worker.fill, observe_append,
      observe_append, ← AtsEndpoint.requests, ← AtsEndpoint.requests, htwins.requests]
    exact congrArg (· ++ _) h.requests
  · rw [AtsEndpoint.calls, AtsEndpoint.calls, observe_fill overlooks_call?,
      observe_fill overlooks_call?]
    exact h.calls
  · rw [Worker.fill, Worker.fill, appliedNotices_append, appliedNotices_append, Fill.applied_run,
      Fill.applied_run, h.applied]

theorem ensure (hwaiting : here.notices.waiting = there.notices.waiting) (range : Span) :
    (here.ensure range).2.Twins (there.ensure range).2 := by
  unfold Worker.ensure
  rw [← h.cache]
  split
  · exact h
  · exact (h.suspend hwaiting).fill range

theorem lookUp (hwaiting : here.notices.waiting = there.notices.waiting) (address : Address) :
    (here.lookUp address).Twins (there.lookUp address) := by
  rw [Worker.lookUp, Worker.lookUp, ← h.granule]
  exact h.ensure hwaiting _

/-- What was looked up decides the access. -/
theorem perform (hwaiting : here.notices.waiting = there.notices.waiting) (access : WordAccess)
    (address : Address) :
    (here.perform (access.request address)).1 = (there.perform (access.request address)).1 ∧
      (here.perform (access.request address)).2.registers =
        (there.perform (access.request address)).2.registers := by
  have hlooked := h.lookUp hwaiting address
  cases hresolve : (here.lookUp address).cache.resolve address access.wanted with
  | error reason =>
    have hother := hresolve
    rw [hlooked.cache] at hother
    rw [perform_denied hresolve, perform_denied hother]
    exact ⟨rfl, congrArg RegisterFile.complete hlooked.registers⟩
  | ok physical =>
    have hother := hresolve
    rw [hlooked.cache] at hother
    rw [perform_resolved hresolve, perform_resolved hother,
      hlooked.memory.answer_eq (access.call physical), hlooked.registers]
    exact ⟨rfl, rfl⟩

/-- What follows two lookups that went alike goes alike when the same call is
made. -/
theorem finish {call? : Option MemoryCall} {after : Worker α μ} {other : Worker β ν}
    (hhere : here.Finishes call? after) (hthere : there.Finishes call? other) :
    AnswersAlike after.agent other.agent ∧ ServesAlike after.memory other.memory ∧
      AtsEndpoint.requests after.trace = AtsEndpoint.requests other.trace ∧
      AtsEndpoint.calls after.trace = AtsEndpoint.calls other.trace ∧
      ∀ (contents : Contents μ) (others : Contents ν),
        contents.byte? here.memory = others.byte? there.memory →
          contents.byte? after.memory = others.byte? other.memory := by
  rw [hhere.agent, hthere.agent, hhere.memory, hthere.memory, hhere.requests, hthere.requests,
    hhere.calls, hthere.calls, h.calls]
  refine ⟨h.agent, ?_, h.requests, rfl, ?_⟩
  · cases call? with
    | none => exact h.memory
    | some call => exact h.memory.next call
  · intro contents others hsame
    cases call? with
    | none => exact hsame
    | some call => exact h.memory.byte?_serve hsame call

end Twins

end Worker

namespace Endpoint

variable {α : Type u} {μ : Type v} {β : Type w} {ν : Type x}
  [TranslationAgent α] [TranslationAgent β] [PhysicalMemory μ] [PhysicalMemory ν]

/-- Two endpoints are alike, except that their agents and their memories may post
different notices. -/
structure Twins (first : Endpoint α μ) (second : Endpoint β ν) : Prop where
  granule : first.granule = second.granule
  registers : first.registers = second.registers
  cache : first.cache = second.cache
  waiting : first.notices.waiting = second.notices.waiting
  agent : AnswersAlike first.agent second.agent
  memory : ServesAlike first.memory second.memory

/-- Notices that are posted during a word access do not change it. Two endpoints
that are alike look the address up in the same cache after the same requests.
They make the same call to memory, or none, and end with the same result, the
same registers and the same contents of their memories. Their caches are then
what the notices applied since the lookup have left. -/
theorem word_access_undisturbed {first : Endpoint α μ} {second : Endpoint β ν}
    (h : first.Twins second) (access : WordAccess) (address : Address) :
    let here := first.execute (access.request address)
    let there := second.execute (access.request address)
    let looked := first.lookUp access address
    let others := second.lookUp access address
    requests here.trace = requests there.trace ∧
      calls here.trace =
        ((looked.cache.resolve address access.wanted).toOption.map access.call).toList ∧
      calls there.trace = calls here.trace ∧
      here.result = there.result ∧
      here.state.registers = there.state.registers ∧
      AnswersAlike here.state.agent there.state.agent ∧
      ServesAlike here.state.memory there.state.memory ∧
      (∀ (contents : Contents μ) (others : Contents ν),
        contents.byte? first.memory = others.byte? second.memory →
          contents.byte? here.state.memory = others.byte? there.state.memory) ∧
      looked.cache = others.cache ∧
      appliedNotices looked.trace = appliedNotices others.trace ∧
      (∃ late, appliedNotices here.trace = appliedNotices looked.trace ++ late ∧
        here.state.cache = NoticeQueue.remains looked.cache late) ∧
      ∃ late, appliedNotices there.trace = appliedNotices looked.trace ++ late ∧
        there.state.cache = NoticeQueue.remains looked.cache late := by
  intro here there looked others
  let request := access.request address
  have htwins : (first.worker.note (.workStarted request)).Twins
      (second.worker.note (.workStarted request)) :=
    { granule := h.granule
      registers := h.registers
      cache := h.cache
      agent := h.agent
      memory := h.memory
      requests := rfl
      calls := rfl
      applied := rfl }
  have hlooked : looked.Twins others := htwins.lookUp h.waiting address
  obtain ⟨hresult, hregisters⟩ := htwins.perform h.waiting access address
  let call? := (looked.cache.resolve address access.wanted).toOption.map access.call
  have hhere : looked.Finishes call? (first.worker.execute request).2 :=
    first.worker.finishes_execute access address
  have hthere : others.Finishes call? (second.worker.execute request).2 := by
    have hfinishes := second.worker.finishes_execute access address
    change others.Finishes ((others.cache.resolve address access.wanted).toOption.map access.call) _
      at hfinishes
    rwa [← hlooked.cache] at hfinishes
  obtain ⟨hagent, hmemory, hrequests, hcalls, hcontents⟩ := hlooked.finish hhere hthere
  have hunissued : calls looked.trace = [] :=
    (first.worker.note (.workStarted request)).observe_ensure overlooks_call? _
  have hissued : calls here.trace = call?.toList := by
    rw [← List.nil_append call?.toList, ← hunissued]
    exact hhere.calls
  have hfirst : looked.memory = first.memory := Worker.memory_ensure _ _
  have hsecond : others.memory = second.memory := Worker.memory_ensure _ _
  rw [hfirst, hsecond] at hcontents
  have happlied := hthere.applied
  have hdropped := hthere.cache
  rw [← hlooked.applied] at happlied
  rw [← hlooked.cache] at hdropped
  refine ⟨hrequests, hissued, hcalls.symm, ?_, ?_, hagent, hmemory, hcontents, hlooked.cache,
    hlooked.applied, ⟨_, hhere.applied, hhere.cache⟩, ⟨_, happlied, hdropped⟩⟩
  · exact (first.worker.fst_execute request).trans
      (hresult.trans (second.worker.fst_execute request).symm)
  · have hleft := congrArg Datapath.registers (first.worker.toDatapath_execute request)
    have hright := congrArg Datapath.registers (second.worker.toDatapath_execute request)
    exact hleft.trans (hregisters.trans hright.symm)

end Endpoint

/-! ## Parties that revoke -/

/-- A revoking agent answers as the agent that it wraps. -/
theorem Revoking.answersAlike {α : Type u} [TranslationAgent α] (agent : Revoking α) :
    AnswersAlike agent agent.party := by
  intro requests
  induction requests generalizing agent with
  | nil => rfl
  | cons request rest ih =>
    change (TranslationAgent.translate agent.party request).answer :: _ = _ :: _
    rw [ih]
    rfl

/-- A revoking memory serves as the memory that it wraps. -/
theorem Revoking.servesAlike {μ : Type u} [PhysicalMemory μ] (memory : Revoking μ) :
    ServesAlike memory memory.party := by
  intro calls
  induction calls generalizing memory with
  | nil => rfl
  | cons call rest ih =>
    cases call with
    | read physical count =>
      change _ :: served _ rest = _ :: _
      rw [ih]
      rfl
    | write physical bytes =>
      change _ :: served _ rest = _ :: _
      rw [ih]
      rfl

/-- A word is written while both pages around it are revoked, and while they are
not. The pages are used all the same, and are gone afterwards. -/
theorem Endpoint.word_access_undisturbed_by_revoking :
    let page : Granule := ⟨4096, Config.isValid_default⟩
    let first : Endpoint (Revoking BlockMap) (Revoking HostMemory) :=
      { agent := ⟨.identity page, [⟨0x9000, 0x1000⟩]⟩
        memory := ⟨.zeroed 0x8000 0x4000, [⟨0, 0x8000⟩]⟩
        config := {}
        config_valid := Config.isValid_default }
    let second : Endpoint BlockMap HostMemory :=
      { agent := .identity page
        memory := .zeroed 0x8000 0x4000
        config := {}
        config_valid := Config.isValid_default }
    let here := first.execute (WordAccess.request (.write 7) 0x8100)
    let there := second.execute (WordAccess.request (.write 7) 0x8100)
    first.Twins second ∧
      calls here.trace = [.write 0x8100 [7, 0, 0, 0]] ∧ calls there.trace = calls here.trace ∧
      here.result = there.result ∧ here.state.registers = there.state.registers ∧
      here.state.cache.size = 0 ∧ there.state.cache.size = 2 := by
  intro page first second here there
  have htwins : first.Twins second :=
    ⟨rfl, rfl, rfl, rfl, Revoking.answersAlike _, Revoking.servesAlike _⟩
  obtain ⟨-, -, hcalls, hresult, hregisters, -⟩ :=
    word_access_undisturbed htwins (.write 7) 0x8100
  exact ⟨htwins, by decide +kernel, hcalls, hresult, hregisters, by decide +kernel,
    by decide +kernel⟩

end AtsEndpoint
