import AtsEndpoint.Endpoint.Schedule
import AtsEndpoint.Proofs.Draining
import AtsEndpoint.Proofs.Observations

/-!
# What work preserves

A fill is built from turns that ask the agent, note an event and keep a region;
a worker is built from suspensions, fills, physical accesses and register
updates. What each of these parts preserves is preserved by the whole, whatever
the agent and the memory do. The loops are opened here once, so that a property
of the cache or of the agent needs no induction of its own.

Two such properties speak of regions. A cache keeps good regions when all of
them are good, and it lags behind them when every other region is about to be
dropped by a notice that waits. Both are kept by any work under an agent that
yields good regions only, and a suspension lets a cache that lags catch up.
-/

namespace AtsEndpoint

namespace Fill

variable {α : Type u} [TranslationAgent α]

/-- A walk that has one property as long as it goes on has another at its end,
when it can stop at any moment, and when a request that ends it early leads from
the first property to the second. -/
theorem walk_induction {P Q : Fill α → Prop} (rest : ∀ fill, P fill → Q fill)
    (ends : ∀ fill address event, event.EndsFill → P fill →
      Q ((fill.ask ⟨address, .all⟩).2.note event))
    (keep : ∀ fill address answer (hlength : answer.length ≠ 0), P fill →
      (fill.ask ⟨address, .all⟩).1 = .ok answer →
      P ((fill.ask ⟨address, .all⟩).2.keep (Region.ofTranslation address answer hlength)))
    (fill : Fill α) (address : Address) (remaining : UInt64) (h : P fill) :
    Q (fill.walk address remaining) := by
  fun_induction walk fill address remaining with
  | case1 => exact rest _ h
  | case2 fill address remaining _ fault asked hask =>
      simpa only [hask] using ends fill address _ (.declined address fault) h
  | case3 fill address remaining _ answer asked hask =>
      simpa only [hask] using ends fill address _ (.unusable address) h
  | case4 fill address remaining _ answer asked hask hlength =>
      exact rest _ (by simpa only [hask] using keep fill address answer hlength h (by rw [hask]))
  | case5 fill address remaining _ answer asked hask hlength =>
      exact rest _ (by simpa only [hask] using keep fill address answer hlength h (by rw [hask]))
  | case6 fill address remaining _ answer asked hask hlength _ _ _ next _ ih =>
      exact ih (by simpa only [hask] using keep fill address answer hlength h (by rw [hask]))

/-- A property that asking, noting and keeping an answer preserve holds at the
end of a walk if it holds at its start. -/
theorem walk_invariant {P : Fill α → Prop}
    (ask : ∀ fill address, P fill → P (fill.ask ⟨address, .all⟩).2)
    (note : ∀ fill event, event.EndsFill → P fill → P (fill.note event))
    (keep : ∀ fill address answer (hlength : answer.length ≠ 0), P fill →
      (fill.ask ⟨address, .all⟩).1 = .ok answer →
      P ((fill.ask ⟨address, .all⟩).2.keep (Region.ofTranslation address answer hlength)))
    (fill : Fill α) (address : Address) (remaining : UInt64) (h : P fill) :
    P (fill.walk address remaining) := by
  refine walk_induction (fun _ h => h) ?_ keep fill address remaining h
  intro fill address event hends h
  exact note _ event hends (ask fill address h)

/-- A region that is kept stays to the end of the walk. -/
theorem mem_walk {fill : Fill α} {region : Region} (h : region ∈ fill.regions)
    (address : Address) (remaining : UInt64) : region ∈ (fill.walk address remaining).regions := by
  refine walk_invariant (P := fun fill => region ∈ fill.regions) ?_ ?_ ?_ fill address remaining h
  · intro fill address h
    exact h
  · intro fill event _ h
    exact h
  · intro fill address answer hlength h _
    exact Array.mem_push_of_mem _ h

/-- A walk that is asked for anything keeps the first answer it gets. -/
theorem first_mem_walk (fill : Fill α) {address : Address} {remaining : UInt64}
    {answer : Translation} (hremaining : remaining ≠ 0) (hlength : answer.length ≠ 0)
    (hanswer : (TranslationAgent.translate fill.agent ⟨address, .all⟩).answer = .ok answer) :
    Region.ofTranslation address answer hlength ∈ (fill.walk address remaining).regions := by
  have hask : fill.ask ⟨address, .all⟩ = (.ok answer, (fill.ask ⟨address, .all⟩).2) := by
    rw [← hanswer]
    rfl
  have hkept : Region.ofTranslation address answer hlength ∈
      ((fill.ask ⟨address, .all⟩).2.keep (Region.ofTranslation address answer hlength)).regions :=
    Array.mem_push_self
  rw [walk, if_neg hremaining, hask]
  simp only [dif_neg hlength]
  split
  · exact hkept
  · split
    · exact hkept
    · exact mem_walk hkept _ _

/-- Whoever overlooks such events sees nothing in a walk. -/
theorem observe_walk {see : Event → Option β} (overlooks : Overlooks see) (fill : Fill α)
    (address : Address) (remaining : UInt64) :
    observe see (fill.walk address remaining).trace = observe see fill.trace := by
  refine walk_invariant (P := fun walked => observe see walked.trace = observe see fill.trace)
    ?_ ?_ ?_ fill address remaining rfl
  · intro walked address h
    rw [← h, ask, observe_append, overlooks.observe_reply, List.append_nil]
  · intro walked event hends h
    rw [← h, note, observe_push, overlooks (.ended hends), Option.toList_none, List.append_nil]
  · intro walked address answer hlength h _
    have hcached (region : Region) : see (.cached region) = none := overlooks (.cached region)
    rw [← h, keep, observe_push, hcached, Option.toList_none, List.append_nil, ask, observe_append,
      overlooks.observe_reply, List.append_nil]

end Fill

/-- Agents in these states grant good regions only, and stay in such states. -/
structure Yields {α : Type u} [TranslationAgent α] (agents : α → Prop) (good : Region → Prop) :
    Prop where
  answer : ∀ ⦃agent⦄, agents agent → ∀ address answer (hlength : answer.length ≠ 0),
    (TranslationAgent.translate agent ⟨address, .all⟩).answer = .ok answer →
      good (Region.ofTranslation address answer hlength)
  next : ∀ ⦃agent⦄, agents agent → ∀ address,
    agents (TranslationAgent.translate agent ⟨address, .all⟩).agent

/-- A walk collects good regions only. -/
theorem Yields.walk {α : Type u} [TranslationAgent α] {agents : α → Prop} {good : Region → Prop}
    (yields : Yields agents good) (fill : Fill α)
    (h : agents fill.agent ∧ ∀ region ∈ fill.regions, good region)
    (address : Address) (remaining : UInt64) :
    agents (fill.walk address remaining).agent ∧
      ∀ region ∈ (fill.walk address remaining).regions, good region := by
  refine Fill.walk_invariant
    (P := fun fill => agents fill.agent ∧ ∀ region ∈ fill.regions, good region)
    ?_ ?_ ?_ fill address remaining h
  · intro fill address h
    exact ⟨yields.next h.1 address, h.2⟩
  · intro fill event _ h
    exact h
  · intro fill address answer hlength h hanswer
    refine ⟨yields.next h.1 address, ?_⟩
    intro region hregion
    rcases Array.mem_push.mp hregion with hold | rfl
    · exact h.2 region hold
    · exact yields.answer h.1 address answer hlength hanswer

namespace Worker

/-! ## What an observer sees -/

section Observation

variable {α : Type u} {μ : Type v} {see : Event → Option β} (overlooks : Overlooks see)
include overlooks

theorem observe_suspend (worker : Worker α μ) :
    observe see worker.suspend.trace = observe see worker.trace := by
  rw [suspend, observe_append, overlooks.observe_drain, List.append_nil]

variable [TranslationAgent α]

theorem observe_fill (worker : Worker α μ) (range : Span) :
    observe see (worker.fill range).2.trace = observe see worker.trace := by
  have hwalk := Fill.observe_walk overlooks { agent := worker.agent }
    (alignDown range.start worker.granule.bytes)
    (addSaturating range.length (granuleOffset range.start worker.granule.bytes))
  rw [fill, observe_append, Fill.run, hwalk, observe_empty, List.append_nil]

/-- Finding a translation shows nothing. -/
theorem observe_ensure (worker : Worker α μ) (range : Span) :
    observe see (worker.ensure range).2.trace = observe see worker.trace := by
  unfold ensure
  split
  · rfl
  · rw [observe_fill overlooks, observe_suspend overlooks]

end Observation

/-! ## How word accesses go -/

section Operations

variable {α : Type u} {μ : Type v} [TranslationAgent α] [PhysicalMemory μ]

/-- A read is denied, it fails, or it is performed. -/
theorem read_cases (worker : Worker α μ) (address : Address) :
    (∃ reason resolved, worker.resolve address .read = (.error reason, resolved) ∧
        worker.read address =
          (.ok (.denied reason), (resolved.note (.readDenied address reason)).complete)) ∨
      (∃ physical resolved fault after, worker.resolve address .read = (.ok physical, resolved) ∧
        resolved.suspend.readMemory physical Register.width = (.error fault, after) ∧
        worker.read address = (.error fault, after)) ∨
      ∃ physical resolved word after, worker.resolve address .read = (.ok physical, resolved) ∧
        resolved.suspend.readMemory physical Register.width = (.ok word, after) ∧
        worker.read address = (.ok .applied, complete
          { after with
            registers := after.registers.set .value (Word.ofBytes word.val.toList) }) := by
  unfold Worker.read
  split
  next reason resolved hresolve => exact .inl ⟨reason, resolved, hresolve, rfl⟩
  next physical resolved hresolve =>
    split
    next fault after hread =>
      exact .inr (.inl ⟨physical, resolved, fault, after, hresolve, hread, rfl⟩)
    next word after hread =>
      exact .inr (.inr ⟨physical, resolved, word, after, hresolve, hread, rfl⟩)

/-- A write is denied, it fails, or it is performed. -/
theorem write_cases (worker : Worker α μ) (address : Address) (word : UInt32) :
    (∃ reason resolved, worker.resolve address .write = (.error reason, resolved) ∧
        worker.write address word =
          (.ok (.denied reason), (resolved.note (.writeDenied address reason)).complete)) ∨
      (∃ physical resolved fault after, worker.resolve address .write = (.ok physical, resolved) ∧
        resolved.suspend.writeMemory physical (Word.bytes word) = (.error fault, after) ∧
        worker.write address word = (.error fault, after)) ∨
      ∃ physical resolved after, worker.resolve address .write = (.ok physical, resolved) ∧
        resolved.suspend.writeMemory physical (Word.bytes word) = (.ok (), after) ∧
        worker.write address word = (.ok .applied, after.complete) := by
  unfold Worker.write
  split
  next reason resolved hresolve => exact .inl ⟨reason, resolved, hresolve, rfl⟩
  next physical resolved hresolve =>
    split
    next fault after hwrite =>
      exact .inr (.inl ⟨physical, resolved, fault, after, hresolve, hwrite, rfl⟩)
    next after hwrite =>
      exact .inr (.inr ⟨physical, resolved, after, hresolve, hwrite, rfl⟩)

/-! ## What the parts preserve -/

/-- A property of workers that looking translations up and reading memory
preserve. The queued notices take effect before each fill and each read. -/
structure Steady (P : Worker α μ → Prop) : Prop where
  mark : ∀ worker event, event.IsMark → P worker → P (worker.note event)
  fill : ∀ worker range, P worker → P (worker.suspend.fill range).2
  readMemory : ∀ worker physical count, P worker → P (worker.suspend.readMemory physical count).2

/-- A property of workers that every part of their work preserves. Marking the
start and the end of a request is not part of the work. -/
structure Invariant (P : Worker α μ → Prop) : Prop extends Steady P where
  registers : ∀ (worker : Worker α μ) registers, P worker → P { worker with registers }
  writeMemory : ∀ worker physical bytes, P worker → P (worker.suspend.writeMemory physical bytes).2

variable {P : Worker α μ → Prop} {worker : Worker α μ}

namespace Steady

theorem ensure (h : Steady P) (range : Span) (hw : P worker) : P (worker.ensure range).2 := by
  unfold Worker.ensure
  split
  · exact hw
  · exact h.fill _ _ hw

theorem resolve (h : Steady P) (address : Address) (wanted : Permissions) (hw : P worker) :
    P (worker.resolve address wanted).2 :=
  h.ensure _ hw

theorem stride (h : Steady P) (address : Address) (remaining : UInt64) (filled : Nat)
    (hw : P worker) : P (worker.stride address remaining filled).2 := by
  fun_induction Worker.stride worker address remaining filled with
  | case1 => exact hw
  | case2 worker address remaining filled _ size added next hensure =>
      simpa only [size, hensure] using h.ensure ⟨address, size⟩ hw
  | case3 worker address remaining filled _ size added next hensure =>
      simpa only [size, hensure] using h.ensure ⟨address, size⟩ hw
  | case4 worker address remaining filled _ size added next hensure _ _ _ ih =>
      exact ih (by simpa only [size, hensure] using h.ensure ⟨address, size⟩ hw)

theorem gather (h : Steady P) (address : Address) (remaining : UInt64) (bytes : ByteArray)
    (hw : P worker) : P (worker.gather address remaining bytes).2 := by
  fun_induction Worker.gather worker address remaining bytes with
  | case1 => exact hw
  | case2 worker address remaining bytes _ ensured =>
      exact h.mark _ _ (.checksumStopped _) (h.ensure _ hw)
  | case3 worker address remaining bytes _ ensured region _ physical chunk fault after hread =>
      have haccess : P (ensured.suspend.readMemory physical chunk.toNat).2 :=
        h.readMemory _ _ _ (h.ensure _ hw)
      rwa [hread] at haccess
  | case4 worker address remaining bytes _ ensured region _ physical chunk piece after hread ih =>
      have haccess : P (ensured.suspend.readMemory physical chunk.toNat).2 :=
        h.readMemory _ _ _ (h.ensure _ hw)
      rw [hread] at haccess
      exact ih haccess

end Steady

/-- Only the end of an operation touches the registers. -/
theorem steady_registers (registers : RegisterFile) :
    Steady fun worker : Worker α μ => worker.registers = registers where
  mark _ _ _ h := h
  fill _ _ h := h
  readMemory _ _ _ h := h

namespace Invariant

theorem read (h : Invariant P) (address : Address) (hw : P worker) : P (worker.read address).2 := by
  have hresolved := h.resolve address .read hw
  obtain ⟨reason, resolved, hresolve, hended⟩ |
    ⟨physical, resolved, fault, after, hresolve, hread, hended⟩ |
    ⟨physical, resolved, word, after, hresolve, hread, hended⟩ := worker.read_cases address
  · rw [hresolve] at hresolved
    rw [hended]
    exact h.registers _ _ (h.mark _ _ (.readDenied address reason) hresolved)
  · rw [hresolve] at hresolved
    have haccess := h.readMemory _ physical Register.width hresolved
    rw [hread] at haccess
    rw [hended]
    exact haccess
  · rw [hresolve] at hresolved
    have haccess := h.readMemory _ physical Register.width hresolved
    rw [hread] at haccess
    rw [hended]
    exact h.registers _ _ (h.registers _ _ haccess)

theorem write (h : Invariant P) (address : Address) (word : UInt32) (hw : P worker) :
    P (worker.write address word).2 := by
  have hresolved := h.resolve address .write hw
  obtain ⟨reason, resolved, hresolve, hended⟩ |
    ⟨physical, resolved, fault, after, hresolve, hwrite, hended⟩ |
    ⟨physical, resolved, after, hresolve, hwrite, hended⟩ := worker.write_cases address word
  · rw [hresolve] at hresolved
    rw [hended]
    exact h.registers _ _ (h.mark _ _ (.writeDenied address reason) hresolved)
  · rw [hresolve] at hresolved
    have haccess := h.writeMemory _ physical (Word.bytes word) hresolved
    rw [hwrite] at haccess
    rw [hended]
    exact haccess
  · rw [hresolve] at hresolved
    have haccess := h.writeMemory _ physical (Word.bytes word) hresolved
    rw [hwrite] at haccess
    rw [hended]
    exact h.registers _ _ haccess

theorem checksum (h : Invariant P) (range : Span) (hw : P worker) :
    P (worker.checksum range).2 := by
  have hgathered := h.gather range.start range.length ByteArray.empty hw
  unfold Worker.checksum
  split
  next fault after hgather =>
    rwa [hgather] at hgathered
  next gathered after hgather =>
    rw [hgather] at hgathered
    split
    · exact h.registers _ _ (h.registers _ _ hgathered)
    · exact h.registers _ _ hgathered

/-- What every part of the work preserves, a whole operation preserves. -/
theorem perform (h : Invariant P) (worker : Worker α μ) (request : Work.Request)
    (hw : P worker) :
    P (worker.perform request).2 := by
  cases request with
  | translate range => exact h.registers _ _ (h.stride _ _ _ hw)
  | read address => exact h.read address hw
  | write address word => exact h.write address word hw
  | checksum range => exact h.checksum range hw

end Invariant

/-- Marking the start and the end of a request changes none of its results. -/
theorem fst_execute (worker : Worker α μ) (request : Work.Request) :
    (worker.execute request).1 = ((worker.note (.workStarted request)).perform request).1 := by
  unfold execute
  split <;> simp only [*]

theorem toDatapath_execute (worker : Worker α μ) (request : Work.Request) :
    (worker.execute request).2.toDatapath =
      ((worker.note (.workStarted request)).perform request).2.toDatapath := by
  unfold execute
  split
  next fault after hperform => rw [hperform]
  next outcome after hperform => rw [hperform]; rfl

/-! ## What the work leaves in the trace -/

/-- Whoever sees nothing in the events of the work sees nothing in what a worker
does between the start and the end of a request. -/
theorem observe_invariant {see : Event → Option β}
    (unseen : ∀ event : Event, event.IsWork → see event = none) (seen : List β) :
    Invariant fun worker : Worker α μ => observe see worker.trace = seen := by
  have overlooks : Overlooks see := fun _ hlookup => unseen _ (.lookup hlookup)
  constructor
  · constructor
    · intro worker event hmark h
      rw [note, observe_push, unseen _ (.mark hmark), Option.toList_none, List.append_nil, h]
    · intro worker range h
      exact (observe_fill overlooks _ range).trans ((observe_suspend overlooks worker).trans h)
    · intro worker physical count h
      refine (observe_append_posted (fun notice => overlooks (.posted notice)) _ _).trans ?_
      rw [observe_push, unseen _ (.readIssued _ _), Option.toList_none, List.append_nil]
      exact (observe_suspend overlooks worker).trans h
  · intro worker registers h
    exact h
  · intro worker physical bytes h
    refine (observe_append_posted (fun notice => overlooks (.posted notice)) _ _).trans ?_
    rw [observe_push, unseen _ (.writeIssued _ _), Option.toList_none, List.append_nil]
    exact (observe_suspend overlooks worker).trans h

theorem observe_perform {see : Event → Option β}
    (unseen : ∀ event : Event, event.IsWork → see event = none) (worker : Worker α μ)
    (request : Work.Request) :
    observe see (worker.perform request).2.trace = observe see worker.trace :=
  (observe_invariant unseen (observe see worker.trace)).perform worker request rfl

/-- Whoever does not see the end of a request sees its start and the work. -/
theorem observe_execute {see : Event → Option β}
    (unseen : ∀ outcome status, see (.workDone outcome status) = none) (worker : Worker α μ)
    (request : Work.Request) : observe see (worker.execute request).2.trace =
      observe see ((worker.note (.workStarted request)).perform request).2.trace := by
  unfold execute
  split
  next fault after hperform => rw [hperform]
  next outcome after hperform =>
    rw [hperform, note, observe_push, unseen, Option.toList_none, List.append_nil]

/-- A request that ends leaves one report, and one whose access fails leaves
none. -/
theorem reports_execute (worker : Worker α μ) (h : reports worker.trace = [])
    (request : Work.Request) : reports (worker.execute request).2.trace =
      match (worker.execute request).1 with
      | .ok outcome => [outcome.report]
      | .error _ => [] := by
  have hperformed : reports ((worker.note (.workStarted request)).perform request).2.trace = [] :=
    (observe_perform (fun _ => Event.IsWork.report) _ request).trans
      (by simp [note, h, Event.report?])
  unfold execute
  split
  next fault after hperform =>
    rwa [hperform] at hperformed
  next outcome after hperform =>
    rw [hperform] at hperformed
    simp [note, hperformed, Event.report?]

end Operations

end Worker

/-- After a suspension no notice waits. -/
theorem Worker.waiting_suspend {α : Type u} {μ : Type v} (worker : Worker α μ) :
    worker.suspend.notices.waiting = [] := by
  rw [suspend, NoticeQueue.state_drain]

/-- A suspension leaves the cache as it is when no notice waits. -/
theorem Worker.cache_suspend {α : Type u} {μ : Type v} (worker : Worker α μ)
    (h : worker.notices.waiting = []) : worker.suspend.cache = worker.cache := by
  rw [suspend, NoticeQueue.state_drain, h]
  rfl

namespace Datapath

/-! ## What is cached -/

/-- The agent is in one of these states, and every cached region is good. -/
structure Keeps (datapath : Datapath α μ) (agents : α → Prop) (good : Region → Prop) : Prop where
  agent : agents datapath.agent
  cache : ∀ region ∈ datapath.cache.regions, good region

/-- The agent is in one of these states, and every cached region is good or is
about to be dropped. -/
def Lags (datapath : Datapath α μ) (agents : α → Prop) (good : Region → Prop) : Prop :=
  datapath.Keeps agents fun region =>
    good region ∨ ∃ notice ∈ datapath.notices.waiting, region.hasBoundaryIn notice

variable {α : Type u} {μ : Type v} {agents : α → Prop} {good : Region → Prop}
variable {datapath after : Datapath α μ} {worker : Worker α μ}

/-- Fewer regions are still good ones. -/
theorem Keeps.sub (h : datapath.Keeps agents good) (hagent : agents after.agent)
    (hcache : ∀ region ∈ after.cache.regions, region ∈ datapath.cache.regions) :
    after.Keeps agents good :=
  ⟨hagent, fun region hregion => h.cache region (hcache region hregion)⟩

theorem Keeps.mono (h : datapath.Keeps agents good) {others : α → Prop} {better : Region → Prop}
    (hagent : others datapath.agent) (hgood : ∀ region, good region → better region) :
    datapath.Keeps others better :=
  ⟨hagent, fun region hregion => hgood region (h.cache region hregion)⟩

theorem Lags.mono (h : datapath.Lags agents good) {others : α → Prop} {better : Region → Prop}
    (hagent : others datapath.agent) (hgood : ∀ region, good region → better region) :
    datapath.Lags others better :=
  Keeps.mono h hagent fun region => Or.imp_left (hgood region)

theorem Keeps.lags (h : datapath.Keeps agents good) : datapath.Lags agents good :=
  ⟨h.agent, fun region hregion => .inl (h.cache region hregion)⟩

theorem mem_suspend {region : Region} : region ∈ worker.suspend.cache.regions ↔
    region ∈ worker.cache.regions ∧
      ∀ notice ∈ worker.notices.waiting, region.hasBoundaryIn notice = false := by
  rw [Worker.suspend, NoticeQueue.state_drain]
  exact NoticeQueue.mem_remains

theorem Keeps.suspend (h : worker.Keeps agents good) : worker.suspend.Keeps agents good :=
  h.sub h.agent fun _ hregion => (mem_suspend.mp hregion).1

/-- A suspension lets the cache catch up. -/
theorem Lags.suspend (h : worker.Lags agents good) : worker.suspend.Keeps agents good := by
  refine ⟨h.agent, ?_⟩
  intro region hregion
  obtain ⟨hcached, hmissed⟩ := mem_suspend.mp hregion
  rcases h.cache region hcached with hgood | ⟨notice, hwaiting, hhit⟩
  · exact hgood
  · simp [hmissed notice hwaiting] at hhit

variable [TranslationAgent α]

theorem Keeps.fill (h : worker.Keeps agents good) (yields : Yields agents good) (range : Span) :
    (worker.fill range).2.Keeps agents good := by
  obtain ⟨hagent, hnew⟩ := yields.walk { agent := worker.agent } ⟨h.agent, by simp⟩
    (alignDown range.start worker.granule.bytes)
    (addSaturating range.length (granuleOffset range.start worker.granule.bytes))
  refine ⟨hagent, ?_⟩
  intro region hregion
  rcases List.mem_append.mp hregion with hold | hadded
  · exact h.cache region hold
  · exact hnew region (Array.mem_toList_iff.mp hadded)

theorem Keeps.ensure (h : worker.Keeps agents good) (yields : Yields agents good) (range : Span) :
    (worker.ensure range).2.Keeps agents good := by
  unfold Worker.ensure
  split
  · exact h
  · exact h.suspend.fill yields range

variable [PhysicalMemory μ]

/-- Under an agent that yields good regions only, a cache goes on keeping them. -/
theorem Keeps.invariant (yields : Yields agents good) :
    Worker.Invariant (fun worker : Worker α μ => worker.Keeps agents good) where
  mark _ _ _ h := ⟨h.agent, h.cache⟩
  registers _ _ h := ⟨h.agent, h.cache⟩
  fill _ range h := h.suspend.fill yields range
  readMemory _ _ _ h := ⟨h.agent, h.suspend.cache⟩
  writeMemory _ _ _ h := ⟨h.agent, h.suspend.cache⟩

theorem Lags.invariant (yields : Yields agents good) :
    Worker.Invariant (fun worker : Worker α μ => worker.Lags agents good) where
  mark _ _ _ h := ⟨h.agent, h.cache⟩
  registers _ _ h := ⟨h.agent, h.cache⟩
  fill _ range h := (h.suspend.fill yields range).lags
  readMemory _ _ _ h := Keeps.lags ⟨h.agent, h.suspend.cache⟩
  writeMemory _ _ _ h := Keeps.lags ⟨h.agent, h.suspend.cache⟩

end Datapath

namespace Endpoint

variable {α : Type u} {μ : Type v} {agents : α → Prop} {good : Region → Prop}
variable {endpoint : Endpoint α μ}

theorem mem_drain {region : Region} : region ∈ endpoint.drain.state.cache.regions ↔
    region ∈ endpoint.cache.regions ∧
      ∀ notice ∈ endpoint.notices.waiting, region.hasBoundaryIn notice = false := by
  rw [drain, NoticeQueue.state_drain]
  exact NoticeQueue.mem_remains

/-- Before a request runs, the cache catches up. -/
theorem keeps_drain (h : endpoint.Lags agents good) : endpoint.drain.state.Keeps agents good :=
  have hlags : endpoint.worker.Lags agents good := h
  hlags.suspend

/-- Acting on the end of a request touches neither cache nor agent. -/
theorem keeps_conclude (h : endpoint.Keeps agents good) (request : Work.Request)
    (result : Except Fault Work.Outcome) :
    (endpoint.conclude request result).state.Keeps agents good := by
  cases result with
  | ok outcome => exact ⟨h.agent, h.cache⟩
  | error fault =>
      simp only [conclude]
      cases endpoint.config.onFailure <;> exact ⟨h.agent, h.cache⟩

@[simp] theorem config_conclude (endpoint : Endpoint α μ) (request : Work.Request)
    (result : Except Fault Work.Outcome) :
    (endpoint.conclude request result).state.config = endpoint.config := by
  cases result with
  | ok outcome => rfl
  | error fault =>
      simp only [conclude]
      cases endpoint.config.onFailure <;> rfl

variable [TranslationAgent α] [PhysicalMemory μ]

/-- What every part of the work preserves, a whole request preserves. -/
theorem execute_invariant (endpoint : Endpoint α μ) {P : Datapath α μ → Prop}
    (h : Worker.Invariant fun worker : Worker α μ => P worker.toDatapath)
    (hp : P endpoint.toDatapath) (request : Work.Request) :
    P (endpoint.execute request).state.toDatapath := by
  have hsame := endpoint.worker.toDatapath_execute request
  change P (endpoint.worker.execute request).2.toDatapath
  rw [hsame]
  exact h.perform (endpoint.worker.note _) request hp

theorem keeps_advance (yields : Yields agents good) (h : endpoint.Lags agents good)
    (request : Work.Request) (rest : List Work.Request) :
    (endpoint.advance request rest).state.Keeps agents good :=
  keeps_conclude (execute_invariant (endpoint.drain.state.setPending rest)
    (P := fun datapath => datapath.Keeps agents good) (Datapath.Keeps.invariant yields)
    (keeps_drain h) request) request _

@[simp] theorem config_advance (endpoint : Endpoint α μ) (request : Work.Request)
    (rest : List Work.Request) : (endpoint.advance request rest).state.config = endpoint.config :=
  config_conclude _ _ _

/-- However far a queue runs, it leaves the cache with good regions only. -/
theorem keeps_runQueue (yields : Yields agents good) (h : endpoint.Lags agents good)
    (ran : Nat) (trace : Trace) (queue : List Work.Request) :
    (endpoint.runQueue ran trace queue).state.Keeps agents good := by
  induction queue generalizing endpoint ran trace with
  | nil => exact keeps_drain h
  | cons request rest ih =>
      have hadvanced := keeps_advance yields h request rest
      rw [runQueue]
      split
      · exact ih hadvanced.lags (ran + 1) _
      · exact hadvanced

theorem config_runQueue (endpoint : Endpoint α μ) (ran : Nat) (trace : Trace)
    (queue : List Work.Request) :
    (endpoint.runQueue ran trace queue).state.config = endpoint.config := by
  induction queue generalizing endpoint ran trace with
  | nil => rfl
  | cons request rest ih =>
      rw [runQueue]
      split
      · exact (ih _ _ _).trans (config_advance endpoint request rest)
      · exact config_advance endpoint request rest

theorem lags_runPending (yields : Yields agents good) (h : endpoint.Lags agents good) :
    endpoint.runPending.state.Lags agents good := by
  unfold runPending
  split
  · exact h
  · exact (keeps_runQueue yields h 0 #[] endpoint.pending).lags

theorem keeps_runPending (yields : Yields agents good) (h : endpoint.Keeps agents good) :
    endpoint.runPending.state.Keeps agents good := by
  unfold runPending
  split
  · exact h
  · exact keeps_runQueue yields h.lags 0 #[] endpoint.pending

@[simp] theorem config_runPending (endpoint : Endpoint α μ) :
    endpoint.runPending.state.config = endpoint.config := by
  unfold runPending
  split
  · rfl
  · exact config_runQueue _ _ _ _

end Endpoint

end AtsEndpoint
