import AtsEndpoint.Endpoint.Software
import AtsEndpoint.Proofs.Answers
import AtsEndpoint.Proofs.Driving

/-!
# What software can do

The actions of software on a software endpoint: mapping and unmapping, storing
bytes into host memory, register accesses, notices, drains, resets, and letting
work run. A state is reached when some sequence of actions leads to it from the
endpoint that came up, each of them allowed in the state that it meets.

Most actions leave the table alone and can only take regions away from the
cache, or put notices into the queue. What remains to be looked at for a
property of the cache are mapping, unmapping, and work.
-/

namespace AtsEndpoint

/-- What software does to a software endpoint. -/
inductive SoftwareAction
  /-- Map a range. -/
  | map (range : Span) (target : Address) (grants : Permissions)
  /-- Unmap a range. -/
  | unmap (range : Span)
  /-- Store bytes into host memory. -/
  | poke (physical : Address) (bytes : List UInt8)
  /-- Send a transaction to a window. -/
  | transact (bar : UInt32) (transaction : Transaction)
  /-- Write a whole register. -/
  | writeRegister (offset : Address) (word : UInt32)
  /-- Put a notice into the queue. -/
  | post (notice : Notice)
  /-- Apply a notice at once. -/
  | handle (notice : Notice)
  /-- Apply every waiting notice. -/
  | drain
  /-- Assert the reset line. -/
  | reset
  /-- Run every queued request. -/
  | runPending
  /-- Run one request at once, past the queue. -/
  | execute (request : Work.Request)

namespace Endpoint

/-- Store bytes into host memory, if it has them. -/
def poke (endpoint : SoftwareEndpoint) (physical : Address) (bytes : List UInt8) :
    SoftwareEndpoint :=
  match endpoint.memory.poke physical bytes with
  | .ok memory => { endpoint with memory }
  | .error _ => endpoint

/-- The endpoint after an action. -/
def after (endpoint : SoftwareEndpoint) : SoftwareAction → SoftwareEndpoint
  | .map range target grants => (endpoint.mapRange range target grants).state
  | .unmap range => (endpoint.unmapRange range).state
  | .poke physical bytes => endpoint.poke physical bytes
  | .transact bar transaction => (endpoint.transact bar transaction).state
  | .writeRegister offset word => (endpoint.write32 offset word).state
  | .post notice => (endpoint.post notice).state
  | .handle notice => (endpoint.handleNotice notice).state
  | .drain => endpoint.drain.state
  | .reset => endpoint.reset.state
  | .runPending => endpoint.runPending.state
  | .execute request => (endpoint.execute request).state

/-- The states that allowed actions lead to. -/
inductive Reaches (allowed : SoftwareEndpoint → SoftwareAction → Prop)
    (start : SoftwareEndpoint) : SoftwareEndpoint → Prop
  | start : Reaches allowed start start
  | step {endpoint : SoftwareEndpoint} (h : Reaches allowed start endpoint)
      (action : SoftwareAction) (hallowed : allowed endpoint action) :
      Reaches allowed start (endpoint.after action)

/-- What holds at the start and is kept by every allowed action holds in every
state reached. -/
theorem Reaches.invariant {allowed : SoftwareEndpoint → SoftwareAction → Prop}
    {P : SoftwareEndpoint → Prop} {start endpoint : SoftwareEndpoint}
    (h : Reaches allowed start endpoint) (hstart : P start)
    (hstep : ∀ endpoint action, P endpoint → allowed endpoint action →
      P (endpoint.after action)) : P endpoint := by
  induction h with
  | start => exact hstart
  | step _ action hallowed ih => exact hstep _ action ih hallowed

/-! ## Actions that leave the table alone -/

/-- The table and the configuration are the same, no region has been added to
the cache, and a notice that has left the queue has been applied. -/
structure Frames (endpoint next : SoftwareEndpoint) : Prop where
  agent : next.agent = endpoint.agent
  config : next.config = endpoint.config
  cache : ∀ region ∈ next.cache.regions, region ∈ endpoint.cache.regions
  waiting : ∀ notice ∈ endpoint.notices.waiting, notice ∈ next.notices.waiting ∨
    ∀ region ∈ next.cache.regions, region.hasBoundaryIn notice = false

variable {endpoint next : SoftwareEndpoint} {agents : Iommu → Prop} {good : Region → Prop}

theorem Frames.keeps (h : endpoint.Frames next) (hkeeps : endpoint.Keeps agents good) :
    next.Keeps agents good :=
  hkeeps.sub (h.agent ▸ hkeeps.agent) h.cache

theorem Frames.lags (h : endpoint.Frames next) (hlags : endpoint.Lags agents good) :
    next.Lags agents good := by
  refine ⟨h.agent ▸ hlags.agent, ?_⟩
  intro region hregion
  rcases hlags.cache region (h.cache region hregion) with hgood | ⟨notice, hnotice, hhit⟩
  · exact .inl hgood
  · rcases h.waiting notice hnotice with hwaits | happlied
    · exact .inr ⟨notice, hwaits, hhit⟩
    · simp [happlied region hregion] at hhit

/-- An endpoint whose agent, configuration, cache and queue are the same. -/
theorem Frames.of_eq (hagent : next.agent = endpoint.agent)
    (hconfig : next.config = endpoint.config) (hcache : next.cache = endpoint.cache)
    (hnotices : next.notices = endpoint.notices) : endpoint.Frames next :=
  ⟨hagent, hconfig, fun _ hregion => hcache ▸ hregion, fun _ hnotice => .inl (hnotices ▸ hnotice)⟩

/-- Register accesses do not touch the cache. -/
theorem Writes.frames {writes : List (Address × UInt32)} {step : Step SoftwareEndpoint ρ}
    (h : endpoint.Writes writes step) : endpoint.Frames step.state := by
  rw [h.state]
  exact .of_eq rfl rfl rfl rfl

theorem frames_drain (endpoint : SoftwareEndpoint) : endpoint.Frames endpoint.drain.state :=
  ⟨rfl, rfl, fun _ hregion => (mem_drain.mp hregion).1,
    fun notice hnotice => .inr fun _ hregion => (mem_drain.mp hregion).2 notice hnotice⟩

theorem frames_handleNotice (endpoint : SoftwareEndpoint) (notice : Notice) :
    endpoint.Frames (endpoint.handleNotice notice).state :=
  ⟨rfl, rfl, fun _ hregion => (Cache.mem_without.mp hregion).1, fun _ => .inl⟩

/-- A reset keeps the cache, or empties it. -/
theorem frames_reset (endpoint : SoftwareEndpoint) : endpoint.Frames endpoint.reset.state := by
  refine ⟨rfl, rfl, ?_, fun _ => .inl⟩
  intro region hregion
  simp only [reset] at hregion
  split at hregion
  · cases hregion
  · exact hregion

theorem frames_poke (endpoint : SoftwareEndpoint) (physical : Address) (bytes : List UInt8) :
    endpoint.Frames (endpoint.poke physical bytes) := by
  unfold poke
  split <;> exact .of_eq rfl rfl rfl rfl

theorem frames_post (endpoint : SoftwareEndpoint) (notice : Notice) :
    endpoint.Frames (endpoint.post notice).state :=
  ⟨rfl, rfl, fun _ => id, fun _ hnotice => .inl (List.mem_append_left _ hnotice)⟩

/-- An action maps, unmaps, lets work run, or leaves the table alone. -/
theorem after_cases (endpoint : SoftwareEndpoint) (action : SoftwareAction) :
    (∃ range target grants, action = .map range target grants) ∨ (∃ range, action = .unmap range) ∨
      action = .runPending ∨ (∃ request, action = .execute request) ∨
      endpoint.Frames (endpoint.after action) := by
  cases action with
  | map range target grants => exact .inl ⟨_, _, _, rfl⟩
  | unmap range => exact .inr (.inl ⟨_, rfl⟩)
  | runPending => exact .inr (.inr (.inl rfl))
  | execute request => exact .inr (.inr (.inr (.inl ⟨_, rfl⟩)))
  | poke physical bytes => exact .inr (.inr (.inr (.inr (endpoint.frames_poke physical bytes))))
  | transact bar transaction =>
      exact .inr (.inr (.inr (.inr (endpoint.writes_transact bar transaction).frames)))
  | writeRegister offset word =>
      exact .inr (.inr (.inr (.inr (endpoint.writes_write32 offset word).frames)))
  | post notice => exact .inr (.inr (.inr (.inr (endpoint.frames_post notice))))
  | handle notice => exact .inr (.inr (.inr (.inr (endpoint.frames_handleNotice notice))))
  | drain => exact .inr (.inr (.inr (.inr endpoint.frames_drain)))
  | reset => exact .inr (.inr (.inr (.inr endpoint.frames_reset)))

/-- A linked agent announces the range that is unmapped. -/
theorem notices_unmapRange (hlinked : endpoint.agent.linked = true) (range : Span) :
    (endpoint.unmapRange range).state.notices = endpoint.notices.post [range] := by
  have hlinked : (endpoint.agent.unmap range).state.linked = true := hlinked
  simp only [unmapRange, Iommu.announce, hlinked, if_true, Option.getD]

/-! ## The table of a state that is reached -/

/-- Work changes no more of the agent than its counter. -/
theorem later_execute (endpoint : SoftwareEndpoint) (request : Work.Request) :
    endpoint.agent.Later (endpoint.execute request).state.agent := by
  have htrivial : endpoint.Keeps endpoint.agent.Later fun _ => True :=
    ⟨.refl _, fun _ _ => trivial⟩
  have hyields : Yields endpoint.agent.Later fun _ => True :=
    ⟨fun _ _ _ _ _ _ => trivial, endpoint.agent.yields.next⟩
  exact (execute_invariant endpoint
    (P := fun datapath => datapath.Keeps endpoint.agent.Later fun _ => True)
    (Datapath.Keeps.invariant hyields) htrivial request).agent

theorem later_runPending (endpoint : SoftwareEndpoint) :
    endpoint.agent.Later endpoint.runPending.state.agent := by
  have htrivial : endpoint.Keeps endpoint.agent.Later fun _ => True :=
    ⟨.refl _, fun _ _ => trivial⟩
  have hyields : Yields endpoint.agent.Later fun _ => True :=
    ⟨fun _ _ _ _ _ _ => trivial, endpoint.agent.yields.next⟩
  exact (keeps_runPending hyields htrivial).agent

/-- The table is one that mapping and unmapping have made, and the agent stays
linked. -/
theorem Reaches.built {allowed : SoftwareEndpoint → SoftwareAction → Prop}
    {start : SoftwareEndpoint} {pageSize granule : UInt64}
    (h : Reaches allowed start endpoint) (hbuilt : start.agent.Built pageSize granule)
    (hlinked : start.agent.linked = true) :
    endpoint.agent.Built pageSize granule ∧ endpoint.agent.linked = true := by
  have hlater {before agent : Iommu} (hlater : before.Later agent)
      (h : before.Built pageSize granule ∧ before.linked = true) :
      agent.Built pageSize granule ∧ agent.linked = true := by
    obtain ⟨served, rfl⟩ := hlater
    exact ⟨h.1.recount before.linked served, h.2⟩
  refine h.invariant (P := fun endpoint => endpoint.agent.Built pageSize granule ∧
    endpoint.agent.linked = true) ⟨hbuilt, hlinked⟩ ?_
  intro endpoint action h _
  obtain ⟨range, target, grants, rfl⟩ | ⟨range, rfl⟩ | rfl | ⟨request, rfl⟩ | hframes :=
    endpoint.after_cases action
  · obtain ⟨mappings, hstate⟩ := endpoint.agent.map_state range target grants
    refine ⟨h.1.map range target grants, ?_⟩
    change (endpoint.agent.map range target grants).state.linked = true
    rw [hstate]
    exact h.2
  · exact ⟨h.1.unmap range, h.2⟩
  · exact hlater endpoint.later_runPending h
  · exact hlater (endpoint.later_execute request) h
  · rw [hframes.agent]
    exact h

theorem config_after (endpoint : SoftwareEndpoint) (action : SoftwareAction) :
    (endpoint.after action).config = endpoint.config := by
  obtain ⟨range, target, grants, rfl⟩ | ⟨range, rfl⟩ | rfl | ⟨request, rfl⟩ | hframes :=
    endpoint.after_cases action
  · rfl
  · rfl
  · exact config_runPending endpoint
  · rfl
  · exact hframes.config

/-- No action changes the settings. -/
theorem Reaches.config_eq {allowed : SoftwareEndpoint → SoftwareAction → Prop}
    {start : SoftwareEndpoint} (h : Reaches allowed start endpoint) :
    endpoint.config = start.config :=
  h.invariant (P := fun endpoint => endpoint.config = start.config) rfl
    fun endpoint action hsame _ => (endpoint.config_after action).trans hsame

/-- An endpoint that has just come up, with an empty table and the default
settings. -/
def fresh : SoftwareEndpoint :=
  { agent := { linked := true }
    memory := .zeroed 0x8000 0x4000
    config := {}
    config_valid := Config.isValid_default }

theorem boot_fresh : (bootLinked {} {} (.zeroed 0x8000 0x4000)).1 = .ok fresh :=
  congrArg Prod.fst (dif_pos Config.isValid_default)

end Endpoint

end AtsEndpoint
