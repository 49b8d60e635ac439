import AtsEndpoint.Proofs.Alignment
import AtsEndpoint.Proofs.Invariants

/-!
# Agents that serve fixed blocks

A block map sends each address to the natural region around it, if there is
one, and gives one region for all of its addresses. An agent serves a block map
when every answer it gives is the block of the address, whatever it posts and
whatever becomes of its state.

Under such an agent a cache can hold nothing but blocks, and then lookups do
not depend on what is cached besides: any region that holds an address is the
block of that address. After a fill for an address, the cache answers for it
exactly as the block map does.
-/

namespace AtsEndpoint

/-- A fixed partial function from addresses to natural regions. -/
structure BlockMap where
  /-- The block that holds an address. -/
  find? : Address → Option Region
  /-- A block holds the address that it was found for. -/
  mem {address : Address} {block : Region} (h : find? address = some block) : address ∈ block.span
  /-- Blocks are aligned to their length on both sides. -/
  natural {address : Address} {block : Region} (h : find? address = some block) : block.IsNatural
  /-- Every address of a block finds this block. -/
  constant {address other : Address} {block : Region} (h : find? address = some block)
    (hmem : other ∈ block.span) : find? other = some block

/-- The answer that makes a region. -/
def Region.answer (region : Region) : Translation :=
  ⟨region.target, region.span.length, region.grants⟩

theorem Region.length_answer_ne_zero (region : Region) : region.answer.length ≠ 0 :=
  region.length_ne_zero

/-- A natural region is made again by its answer to any of its addresses. -/
theorem Region.IsNatural.ofTranslation_answer {region : Region} (h : region.IsNatural)
    {address : Address} (hmem : address ∈ region.span) :
    Region.ofTranslation address region.answer region.length_answer_ne_zero = region := by
  have hspan := h.span_aligned.around_eq hmem
  cases region
  simpa only [ofTranslation, answer, mk.injEq, and_true, Span.around] using hspan

namespace BlockMap

variable (blocks : BlockMap)

/-- A region is one of the blocks. -/
def IsBlock (region : Region) : Prop :=
  ∃ address, blocks.find? address = some region

/-- The cache holds nothing but blocks. -/
def Holds (cache : Cache) : Prop :=
  ∀ region ∈ cache.regions, blocks.IsBlock region

/-- No block is shorter than the granule. -/
def CoversGranule (granule : Granule) : Prop :=
  ∀ ⦃address block⦄, blocks.find? address = some block → granule.bytes ≤ block.span.length

/-- Agents in these states answer with the blocks, and stay in such states. -/
structure Serves {α : Type u} [TranslationAgent α] (agents : α → Prop) : Prop where
  answer : ∀ ⦃agent⦄, agents agent → ∀ address,
    (TranslationAgent.translate agent ⟨address, .all⟩).answer.toOption =
      (blocks.find? address).map Region.answer
  next : ∀ ⦃agent⦄, agents agent → ∀ address,
    agents (TranslationAgent.translate agent ⟨address, .all⟩).agent

variable {blocks}

theorem find?_eq_of_isBlock {region : Region} {address : Address} (h : blocks.IsBlock region)
    (hmem : address ∈ region.span) : blocks.find? address = some region := by
  obtain ⟨_, hfound⟩ := h
  exact blocks.constant hfound hmem

/-- The granule around an address finds the same block as the address. -/
theorem find?_alignDown {granule : Granule} (hcovers : blocks.CoversGranule granule)
    (address : Address) :
    blocks.find? (alignDown address granule.bytes) = blocks.find? address := by
  have hmem {block : Region} (hnatural : block.IsNatural)
      (hle : granule.bytes ≤ block.span.length) :
      alignDown address granule.bytes ∈ block.span ↔ address ∈ block.span :=
    hnatural.span_aligned.alignDown_mem_iff granule.isPowerOfTwo hle
  cases hfound : blocks.find? address with
  | some block =>
      exact blocks.constant hfound <|
        (hmem (blocks.natural hfound) (hcovers hfound)).mpr (blocks.mem hfound)
  | none =>
      cases hdown : blocks.find? (alignDown address granule.bytes) with
      | none => rfl
      | some block =>
          have hback := blocks.constant hdown <|
            (hmem (blocks.natural hdown) (hcovers hdown)).mp (blocks.mem hdown)
          simp [hfound] at hback

namespace Holds

variable {cache : Cache} {address : Address}

theorem find?_eq (h : blocks.Holds cache) {region : Region}
    (hfound : cache.find? address = some region) : blocks.find? address = some region := by
  have hmem : address ∈ region.span := by simpa using List.find?_some hfound
  exact find?_eq_of_isBlock (h region (List.mem_of_find?_eq_some hfound)) hmem

/-- Where the cache holds an address, it answers as the block map does. -/
theorem find?_eq_of_contains (h : blocks.Holds cache) (hcontains : cache.contains address) :
    cache.find? address = blocks.find? address := by
  obtain ⟨region, hfound⟩ := Option.isSome_iff_exists.mp hcontains
  rw [hfound, h.find?_eq hfound]

end Holds

/-! ## Fills from an agent that serves the blocks -/

namespace Serves

variable {α : Type u} [TranslationAgent α] {agents : α → Prop} {agent : α} {address : Address}

/-- What the agent grants is the block of the address. -/
theorem find?_eq_of_answer (serves : blocks.Serves agents) (hagent : agents agent)
    {answer : Translation} (hlength : answer.length ≠ 0)
    (hanswer : (TranslationAgent.translate agent ⟨address, .all⟩).answer = .ok answer) :
    blocks.find? address = some (Region.ofTranslation address answer hlength) := by
  have hserved := serves.answer hagent address
  rw [hanswer] at hserved
  obtain ⟨block, hfound, rfl⟩ := Option.map_eq_some_iff.mp hserved.symm
  rw [hfound, (blocks.natural hfound).ofTranslation_answer (blocks.mem hfound)]

/-- An address with a block is granted, with this block for an answer. -/
theorem answer_of_find?_eq (serves : blocks.Serves agents) (hagent : agents agent)
    {block : Region} (hfound : blocks.find? address = some block) :
    (TranslationAgent.translate agent ⟨address, .all⟩).answer = .ok block.answer := by
  have hserved := serves.answer hagent address
  rw [hfound] at hserved
  cases hanswer : (TranslationAgent.translate agent ⟨address, .all⟩).answer with
  | error fault => simp [hanswer, Except.toOption] at hserved
  | ok answer => simpa [hanswer, Except.toOption] using hserved

theorem yields (serves : blocks.Serves agents) : Yields agents blocks.IsBlock where
  answer _ hagent address _ hlength hanswer :=
    ⟨address, serves.find?_eq_of_answer hagent hlength hanswer⟩
  next := serves.next

end Serves

end BlockMap

namespace Worker

variable {α : Type u} {μ : Type v} [TranslationAgent α]

@[simp] theorem registers_ensure (worker : Worker α μ) (range : Span) :
    (worker.ensure range).2.registers = worker.registers := by
  unfold ensure
  split <;> rfl

@[simp] theorem memory_ensure (worker : Worker α μ) (range : Span) :
    (worker.ensure range).2.memory = worker.memory := by
  unfold ensure
  split <;> rfl

@[simp] theorem granule_ensure (worker : Worker α μ) (range : Span) :
    (worker.ensure range).2.granule = worker.granule := by
  unfold ensure
  split <;> rfl

/-- What was noted before makes no difference to what is resolved. -/
theorem fst_resolve_note (worker : Worker α μ) (event : Event) (address : Address)
    (wanted : Permissions) :
    ((worker.note event).resolve address wanted).1 = (worker.resolve address wanted).1 := by
  have hsame : ((worker.note event).ensure ⟨address, worker.granule.bytes⟩).2.cache =
      (worker.ensure ⟨address, worker.granule.bytes⟩).2.cache := by
    by_cases hcached : worker.cache.contains address = true
    · have hnoted : (worker.note event).cache.contains address = true := hcached
      rw [ensure, ensure, if_pos hnoted, if_pos hcached]
      rfl
    · have hnoted : ¬ (worker.note event).cache.contains address = true := hcached
      rw [ensure, ensure, if_neg hnoted, if_neg hcached]
      rfl
  exact congrArg (Cache.resolve · address wanted) hsame

end Worker

namespace Datapath

variable {α : Type u} {μ : Type v} [TranslationAgent α]
variable {blocks : BlockMap} {agents : α → Prop} {worker : Worker α μ}

/-- The fill for an address brings the block of the address, if it has one. -/
theorem Keeps.find?_ensure (h : worker.Keeps agents blocks.IsBlock) (serves : blocks.Serves agents)
    (hcovers : blocks.CoversGranule worker.granule) (range : Span) (hlength : range.length ≠ 0) :
    (worker.ensure range).2.cache.find? range.start = blocks.find? range.start := by
  have hensured : blocks.Holds (worker.ensure range).2.cache :=
    (h.ensure serves.yields range).cache
  cases hfound : blocks.find? range.start with
  | none =>
      cases hcached : (worker.ensure range).2.cache.find? range.start with
      | none => rfl
      | some region => simpa [hfound] using hensured.find?_eq hcached
  | some block =>
      rw [← hfound]
      apply hensured.find?_eq_of_contains
      unfold Worker.ensure
      split
      · assumption
      · rw [Cache.contains_iff]
        have hdown : blocks.find? (alignDown range.start worker.granule.bytes) = some block := by
          rw [BlockMap.find?_alignDown hcovers, hfound]
        have hwanted : addSaturating range.length
            (granuleOffset range.start worker.granule.bytes) ≠ 0 := addSaturating_ne_zero hlength _
        have hfirst := Fill.first_mem_walk { agent := worker.agent } hwanted
          block.length_answer_ne_zero (serves.answer_of_find?_eq h.agent hdown)
        rw [(blocks.natural hdown).ofTranslation_answer (blocks.mem hdown)] at hfirst
        exact ⟨block, List.mem_append_right _ (Array.mem_toList_iff.mpr hfirst),
          blocks.mem hfound⟩

end Datapath

end AtsEndpoint
