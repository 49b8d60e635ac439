import AtsEndpoint.Memory.Host
import AtsEndpoint.Proofs.Invariants

/-!
# Caches without notices

Nothing leaves the cache as long as no notice arrives. New regions are kept
behind the old ones, and a lookup takes the first region that holds the address.
So an address that is cached once keeps its region, whatever the agent answers
later on.
-/

namespace AtsEndpoint

namespace Cache

/-- The cache has the regions of another one, and maybe others behind them. -/
def Extends (cache old : Cache) : Prop :=
  old.regions <+: cache.regions

variable {cache old : Cache} {address : Address} {region : Region}

theorem Extends.refl (cache : Cache) : cache.Extends cache :=
  List.prefix_refl cache.regions

theorem Extends.append (h : cache.Extends old) (regions : List Region) :
    (cache.append regions).Extends old :=
  List.IsPrefix.trans h (List.prefix_append cache.regions regions)

/-- What an address is looked up to does not change. -/
theorem Extends.find? (h : cache.Extends old) (hfound : old.find? address = some region) :
    cache.find? address = some region := by
  obtain ⟨more, hmore⟩ := h
  rw [Cache.find?, ← hmore, List.find?_append]
  exact congrArg (Option.or · _) hfound

theorem Extends.contains (h : cache.Extends old) (hcached : old.contains address) :
    cache.contains address := by
  obtain ⟨region, hfound⟩ := Option.isSome_iff_exists.mp hcached
  exact Option.isSome_of_eq_some (h.find? hfound)

end Cache

/-! ## Agents that post nothing -/

/-- Agents in these states post nothing, whatever they answer, and stay in such
states. -/
structure Silent {α : Type u} [TranslationAgent α] (agents : α → Prop) : Prop where
  posted : ∀ ⦃agent⦄, agents agent → ∀ address,
    (TranslationAgent.translate agent ⟨address, .all⟩).posted = []
  next : ∀ ⦃agent⦄, agents agent → ∀ address,
    agents (TranslationAgent.translate agent ⟨address, .all⟩).agent

/-- Nothing is posted during a walk. -/
theorem Silent.walk {α : Type u} [TranslationAgent α] {agents : α → Prop} (silent : Silent agents)
    (fill : Fill α) (h : agents fill.agent ∧ fill.posted = #[]) (address : Address)
    (remaining : UInt64) :
    agents (fill.walk address remaining).agent ∧ (fill.walk address remaining).posted = #[] := by
  refine Fill.walk_invariant (P := fun fill => agents fill.agent ∧ fill.posted = #[])
    ?_ ?_ ?_ fill address remaining h
  · rintro fill address ⟨hagent, hposted⟩
    refine ⟨silent.next hagent address, ?_⟩
    rw [Fill.ask, silent.posted hagent address, hposted]
    rfl
  · intro fill event _ hfill
    exact hfill
  · rintro fill address answer hlength ⟨hagent, hposted⟩ _
    refine ⟨silent.next hagent address, ?_⟩
    rw [Fill.keep, Fill.ask, silent.posted hagent address, hposted]
    rfl

namespace Datapath

/-- The agent is in one of these states, no notice waits, and the cache has kept
what it had. -/
structure Grows {α : Type u} {μ : Type v} (datapath : Datapath α μ) (agents : α → Prop)
    (old : Cache) : Prop where
  agent : agents datapath.agent
  waiting : datapath.notices.waiting = []
  cache : datapath.cache.Extends old

namespace Grows

variable {α : Type u} {μ : Type v} {agents : α → Prop} {old : Cache} {worker : Worker α μ}

theorem suspend (h : worker.Grows agents old) : worker.suspend.Grows agents old := by
  constructor
  · exact h.agent
  · exact worker.waiting_suspend
  · rw [worker.cache_suspend h.waiting]
    exact h.cache

variable [TranslationAgent α] (silent : Silent agents)
include silent

theorem fill (h : worker.Grows agents old) (range : Span) :
    (worker.fill range).2.Grows agents old := by
  obtain ⟨hagent, hposted⟩ := silent.walk { agent := worker.agent } ⟨h.agent, rfl⟩
    (alignDown range.start worker.granule.bytes)
    (addSaturating range.length (granuleOffset range.start worker.granule.bytes))
  constructor
  · exact hagent
  · change worker.notices.waiting ++ (Fill.walk _ _ _).posted.toList = []
    rw [h.waiting, hposted]
    rfl
  · exact h.cache.append _

theorem ensure (h : worker.Grows agents old) (range : Span) :
    (worker.ensure range).2.Grows agents old := by
  unfold Worker.ensure
  split
  · exact h
  · exact h.suspend.fill silent range

theorem stride (h : worker.Grows agents old) (address : Address) (remaining : UInt64)
    (filled : Nat) : (worker.stride address remaining filled).2.Grows agents old := by
  fun_induction Worker.stride worker address remaining filled with
  | case1 => exact h
  | case2 worker address remaining filled _ size added next hensure =>
    simpa only [size, hensure] using h.ensure silent ⟨address, size⟩
  | case3 worker address remaining filled _ size added next hensure =>
    simpa only [size, hensure] using h.ensure silent ⟨address, size⟩
  | case4 worker address remaining filled _ size added next hensure _ _ _ ih =>
    exact ih (by simpa only [size, hensure] using h.ensure silent ⟨address, size⟩)

end Grows

end Datapath

/-! ## Host memory -/

namespace HostMemory

variable (memory : HostMemory) (physical : Address)

theorem posted_read (count : Nat) : (PhysicalMemory.read memory physical count).posted = [] := by
  simp only [PhysicalMemory.read]
  split <;> rfl

theorem posted_write (bytes : List UInt8) :
    (PhysicalMemory.write memory physical bytes).posted = [] := by
  simp only [PhysicalMemory.write]
  split <;> rfl

end HostMemory

namespace Datapath.Grows

variable {α : Type u} [TranslationAgent α] {agents : α → Prop} (silent : Silent agents)
  (old : Cache)
include silent

/-- Host memory posts nothing either, so all work only adds to the cache. -/
theorem invariant : Worker.Invariant fun worker : Worker α HostMemory =>
    worker.Grows agents old where
  mark _ _ _ h := ⟨h.agent, h.waiting, h.cache⟩
  registers _ _ h := ⟨h.agent, h.waiting, h.cache⟩
  fill _ range h := h.suspend.fill silent range
  readMemory worker physical count h := by
    have hsuspended := h.suspend
    refine ⟨hsuspended.agent, ?_, hsuspended.cache⟩
    change worker.suspend.notices.waiting ++
      (PhysicalMemory.read worker.suspend.memory physical count).posted = []
    rw [hsuspended.waiting, HostMemory.posted_read]
    rfl
  writeMemory worker physical bytes h := by
    have hsuspended := h.suspend
    refine ⟨hsuspended.agent, ?_, hsuspended.cache⟩
    change worker.suspend.notices.waiting ++
      (PhysicalMemory.write worker.suspend.memory physical bytes).posted = []
    rw [hsuspended.waiting, HostMemory.posted_write]
    rfl

theorem execute {old : Cache} {endpoint : Endpoint α HostMemory} (h : endpoint.Grows agents old)
    (request : Work.Request) : (endpoint.execute request).state.Grows agents old := by
  have hstarted : (endpoint.worker.note (.workStarted request)).Grows agents old :=
    ⟨h.agent, h.waiting, h.cache⟩
  have hperformed := (invariant silent old).perform _ request hstarted
  rw [← endpoint.worker.toDatapath_execute request] at hperformed
  exact hperformed

end Datapath.Grows

end AtsEndpoint
