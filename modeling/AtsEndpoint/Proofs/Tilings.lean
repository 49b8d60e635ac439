import AtsEndpoint.Proofs.Checksum
import AtsEndpoint.Proofs.Exchanges

/-!
# What a fill covers

An agent may cut the address space into aligned blocks of different lengths, and
answer a request with the block that holds the address. Then the regions of a
fill are blocks, one next to the other, up to the first address without a block.

A fill takes the whole length of an answer off what it wants. Its first request
may fall into the middle of a block, and then the part of the block below the
request counts as well, although it does not belong to the range. All later
requests are made where a block begins. So a fill brings the blocks that begin
in an interval as long as the range, but laid from where the first block begins.
-/

namespace AtsEndpoint

/-- Some addresses lie in aligned blocks. Below `top` no address lies in two. -/
structure Tiling (top : Nat) where
  /-- The block that holds an address. -/
  block? : Address → Option Span
  mem {address : Address} {block : Span} (h : block? address = some block) : address ∈ block
  aligned {address : Address} {block : Span} (h : block? address = some block) : block.IsAligned
  constant {address other : Address} {block : Span} (h : block? address = some block)
    (hmem : other ∈ block) (htop : other.toNat < top) : block? other = some block

namespace Tiling

variable {top : Nat} (tiling : Tiling top)

/-- The address where the block of an address begins. Without a block it is the
address itself. -/
def begins (address : Address) : Address :=
  ((tiling.block? address).map Span.start).getD address

/-- Every address from one to another lies in a block. -/
def IsDense (first last : Address) : Prop :=
  ∀ address, first ≤ address → address ≤ last → tiling.block? address ≠ none

/-- Agents in these states grant every address its block, decline an address
without a block, and stay in such states. -/
structure GrantedBy {α : Type u} [TranslationAgent α] (agents : α → Prop) : Prop where
  grants : ∀ ⦃agent⦄, agents agent → ∀ ⦃address block⦄, tiling.block? address = some block →
    ∃ target permissions, (TranslationAgent.translate agent ⟨address, .all⟩).answer =
      .ok ⟨target, block.length, permissions⟩
  declines : ∀ ⦃agent⦄, agents agent → ∀ ⦃address⦄, tiling.block? address = none →
    ∃ fault, (TranslationAgent.translate agent ⟨address, .all⟩).answer = .error fault
  next : ∀ ⦃agent⦄, agents agent → ∀ address,
    agents (TranslationAgent.translate agent ⟨address, .all⟩).agent

/-- The answer makes the block of the address that was asked for, if it has one. -/
def Answers (exchange : Exchange) : Prop :=
  exchange.region?.map Region.span = tiling.block? exchange.request.address

theorem begins_le (address : Address) : (tiling.begins address).toNat ≤ address.toNat := by
  unfold begins
  cases h : tiling.block? address with
  | none => exact Nat.le_refl _
  | some block => exact (Span.mem_iff_toNat.mp (tiling.mem h)).1

variable {tiling} {address other start : Address} {block : Span}

theorem begins_of_block? (h : tiling.block? address = some block) :
    tiling.begins address = block.start := by
  rw [begins, h]
  rfl

/-- Behind the end of a block no other block begins below this end. -/
theorem stop_le_begins (h : tiling.block? address = some block)
    (hbehind : block.start.toNat + block.length.toNat ≤ other.toNat) (htop : other.toNat < top) :
    block.start.toNat + block.length.toNat ≤ (tiling.begins other).toNat := by
  cases hother : tiling.block? other with
  | none =>
    rw [begins, hother]
    exact hbehind
  | some next =>
    rw [begins_of_block? hother]
    refine Nat.le_of_not_lt fun hover => ?_
    have hnext := Span.mem_iff_toNat.mp (tiling.mem hother)
    have hpos := (tiling.aligned h).isPowerOfTwo.toNat_pos
    -- The later one of the two starts lies in both blocks, so they are the same.
    have hcommon : ∃ shared, shared ∈ block ∧ shared ∈ next ∧ shared.toNat < top := by
      by_cases hle : block.start.toNat ≤ next.start.toNat
      · exact ⟨next.start, Span.mem_iff_toNat.mpr ⟨hle, hover⟩,
          (tiling.aligned hother).start_mem, by omega⟩
      · exact ⟨block.start, (tiling.aligned h).start_mem,
          Span.mem_iff_toNat.mpr ⟨by omega, by omega⟩, by omega⟩
    obtain ⟨shared, hblock, hshared, hbelow⟩ := hcommon
    have hsame : some block = some next :=
      (tiling.constant h hblock hbelow).symm.trans (tiling.constant hother hshared hbelow)
    obtain rfl := Option.some.inj hsame
    omega

/-- Blocks begin in the order of their addresses. -/
theorem begins_mono (hle : start.toNat ≤ address.toNat) (htop : address.toNat < top) :
    (tiling.begins start).toNat ≤ (tiling.begins address).toNat := by
  cases h : tiling.block? start with
  | none =>
    cases haddress : tiling.block? address with
    | none =>
      rw [begins, begins, h, haddress]
      exact hle
    | some block =>
      rw [begins_of_block? haddress]
      refine Nat.le_trans (tiling.begins_le start) (Nat.le_of_not_lt fun hlt => ?_)
      have hmem := Span.mem_iff_toNat.mp (tiling.mem haddress)
      have hstart : start ∈ block := Span.mem_iff_toNat.mpr ⟨by omega, by omega⟩
      have hsome := tiling.constant haddress hstart (by omega)
      rw [h] at hsome
      cases hsome
  | some block =>
    by_cases hmem : address ∈ block
    · rw [begins_of_block? h, begins_of_block? (tiling.constant h hmem htop)]
    · have hstart := Span.mem_iff_toNat.mp (tiling.mem h)
      rw [Span.mem_iff_toNat] at hmem
      have hstop := stop_le_begins h (by omega) htop
      exact Nat.le_trans (tiling.begins_le start) (by omega)

theorem Answers.block?_eq_none {exchange : Exchange} (h : tiling.Answers exchange)
    (hrequest : exchange.request = ⟨address, .all⟩) (hrefused : exchange.region? = none) :
    tiling.block? address = none := by
  rw [Answers, hrefused, hrequest] at h
  exact h.symm

theorem Answers.block?_eq_some {exchange : Exchange} (h : tiling.Answers exchange)
    (hrequest : exchange.request = ⟨address, .all⟩) {region : Region}
    (hregion : exchange.region? = some region) : tiling.block? address = some region.span := by
  rw [Answers, hregion, hrequest] at h
  exact h.symm

theorem GrantedBy.answers {α : Type u} [TranslationAgent α] {agents : α → Prop}
    (h : tiling.GrantedBy agents) {agent : α} (hagent : agents agent) (address : Address) :
    tiling.Answers (.of agent ⟨address, .all⟩) := by
  cases hblock : tiling.block? address with
  | none =>
    obtain ⟨fault, hanswer⟩ := h.declines hagent hblock
    exact (congrArg _ (Exchange.region?_of_error hanswer)).trans hblock.symm
  | some block =>
    obtain ⟨target, permissions, hanswer⟩ := h.grants hagent hblock
    have haligned := tiling.aligned hblock
    have hregion : (Exchange.of agent ⟨address, .all⟩).region? = _ :=
      Exchange.region?_of_ok hanswer haligned.isPowerOfTwo.ne_zero
    refine (congrArg _ hregion).trans (Eq.trans ?_ hblock.symm)
    exact congrArg some (haligned.around_eq (tiling.mem hblock))

/-- What the agent is asked for all permissions, it answers with blocks. -/
theorem GrantedBy.answers_of_conversation {α : Type u} [TranslationAgent α] {agents : α → Prop}
    (h : tiling.GrantedBy agents) {agent after : α} {exchanges : List Exchange}
    (hconversation : Conversation agent exchanges after) (hagent : agents agent)
    (hwanted : ∀ exchange ∈ exchanges, exchange.request.wanted = .all) :
    ∀ exchange ∈ exchanges, tiling.Answers exchange := by
  induction hconversation with
  | silent => exact List.forall_mem_nil _
  | @ask agent after later request rest ih =>
    obtain ⟨address, wanted⟩ := request
    obtain ⟨hfirst, hlater⟩ := List.forall_mem_cons.mp hwanted
    obtain rfl : wanted = .all := hfirst
    exact List.forall_mem_cons.mpr ⟨h.answers hagent address, ih (h.next hagent address) hlater⟩

theorem block?_ne_none_of_mem (h : tiling.block? address = some block) (hmem : other ∈ block)
    (htop : other.toNat < top) : tiling.block? other ≠ none := by
  rw [tiling.constant h hmem htop]
  exact Option.some_ne_none block

/-- A block that holds the first and the last address holds all between them. -/
theorem isDense_of_mem (h : tiling.block? start = some block) (hmem : address ∈ block)
    (htop : address.toNat < top) : tiling.IsDense start address := by
  intro between hlow hhigh
  rw [UInt64.le_iff_toNat_le] at hlow hhigh
  have hfirst := Span.mem_iff_toNat.mp (tiling.mem h)
  have hlast := Span.mem_iff_toNat.mp hmem
  exact block?_ne_none_of_mem h (Span.mem_iff_toNat.mpr ⟨by omega, by omega⟩) (by omega)

/-- From the first address of a block on there is no gap just if there is none
from its end on. -/
theorem isDense_iff_of_stop (h : tiling.block? start = some block) {stop : Address}
    (hstop : stop.toNat = block.start.toNat + block.length.toNat) (htop : address.toNat < top) :
    tiling.IsDense start address ↔ tiling.IsDense stop address := by
  have hstart := Span.mem_iff_toNat.mp (tiling.mem h)
  constructor
  · intro hdense between hlow hhigh
    rw [UInt64.le_iff_toNat_le] at hlow
    exact hdense between (UInt64.le_iff_toNat_le.mpr (by omega)) hhigh
  · intro hdense between hlow hhigh
    by_cases hbehind : stop ≤ between
    · exact hdense between hbehind hhigh
    · rw [UInt64.le_iff_toNat_le] at hlow hhigh hbehind
      exact block?_ne_none_of_mem h (Span.mem_iff_toNat.mpr ⟨by omega, by omega⟩) (by omega)

/-- Anything that is wanted brings the block of the first address. -/
theorem isDense_and_begins_lt (h : tiling.block? start = some block) (hmem : address ∈ block)
    (htop : address.toNat < top) {remaining : UInt64} (hwanted : remaining ≠ 0) :
    tiling.IsDense start address ∧
      (tiling.begins address).toNat < (tiling.begins start).toNat + remaining.toNat := by
  refine ⟨isDense_of_mem h hmem htop, ?_⟩
  rw [begins_of_block? h, begins_of_block? (tiling.constant h hmem htop)]
  exact Nat.lt_add_of_pos_right (toNat_pos_of_ne_zero hwanted)

/-- A range as long as a granule, once it is widened, is long enough to bring the
block of its unwidened first address, whatever the blocks are. -/
theorem begins_lt_of_granule (granule : Granule)
    (hblock : tiling.block? (alignDown address granule.bytes) ≠ none) (htop : address.toNat < top) :
    (tiling.begins address).toNat <
      (tiling.begins (alignDown address granule.bytes)).toNat +
        min (address.toNat + granule.bytes.toNat - (alignDown address granule.bytes).toNat)
          (2 ^ 64 - 1) := by
  have hpower := granule.isPowerOfTwo
  have hpos := hpower.toNat_pos
  have hhalf := hpower.toNat_le
  have hgranule := Span.mem_iff_toNat.mp (Span.IsAligned.mem_around address hpower)
  simp only [Span.around] at hgranule
  obtain ⟨block, hsome⟩ := Option.ne_none_iff_exists'.mp hblock
  have haligned := tiling.aligned hsome
  by_cases hmem : address ∈ block
  · rw [begins_of_block? hsome, begins_of_block? (tiling.constant hsome hmem htop)]
    omega
  · -- A block that parts the address from the start of its granule is shorter
    -- than the granule, so it begins where the granule begins.
    have hshort : block.length ≤ granule.bytes := by
      refine UInt64.le_of_lt (UInt64.not_le.mp fun hle => hmem ?_)
      exact (haligned.alignDown_mem_iff hpower hle).mp (tiling.mem hsome)
    have hdvd := Nat.dvd_trans (haligned.isPowerOfTwo.dvd_of_le hpower hshort)
      (dvd_toNat_alignDown address hpower)
    have hbegins : tiling.begins (alignDown address granule.bytes) =
        alignDown address granule.bytes := by
      rw [begins_of_block? hsome, ← haligned.alignDown_eq (tiling.mem hsome)]
      exact alignDown_eq_self haligned.isPowerOfTwo hdvd
    have hown := tiling.begins_le address
    rw [hbegins]
    omega

end Tiling

namespace Fill

/-- Some region of the exchanges holds the address. -/
def Brings (exchanges : List Exchange) (address : Address) : Prop :=
  ∃ region ∈ exchanges.filterMap Exchange.region?, address ∈ region.span

section Brings

variable {exchange : Exchange} {later : List Exchange} {region : Region} {address : Address}

theorem not_brings_nil : ¬ Brings [] address := by
  rintro ⟨_, ⟨⟩, _⟩

theorem brings_cons_of_none (h : exchange.region? = none) :
    Brings (exchange :: later) address ↔ Brings later address := by
  rw [Brings, List.filterMap_cons_none h, Brings]

theorem brings_cons_of_some (h : exchange.region? = some region) :
    Brings (exchange :: later) address ↔ address ∈ region.span ∨ Brings later address := by
  rw [Brings, List.filterMap_cons_some h, List.exists_mem_cons_iff, Brings]

end Brings

variable {top : Nat} {tiling : Tiling top} {start address : Address} {remaining : UInt64}
  {exchanges : List Exchange}

/-- A walk brings the addresses behind its start whose blocks follow without a
gap, and begin before what is wanted is used up, laid from the first block on. -/
theorem Walks.brings_iff (h : Walks start remaining exchanges)
    (hanswers : ∀ exchange ∈ exchanges, tiling.Answers exchange)
    (hle : start.toNat ≤ address.toNat) (htop : address.toNat < top) :
    Brings exchanges address ↔ tiling.IsDense start address ∧
      (tiling.begins address).toNat < (tiling.begins start).toNat + remaining.toNat := by
  induction h with
  | idle start =>
    refine iff_of_false not_brings_nil fun hright => ?_
    exact Nat.not_lt.mpr (Tiling.begins_mono hle htop) hright.2
  | @refused exchange start remaining hrequest _ hrefused =>
    have hblock := Tiling.Answers.block?_eq_none (hanswers _ List.mem_cons_self) hrequest hrefused
    refine iff_of_false ?_ fun hright => ?_
    · rw [brings_cons_of_none hrefused]
      exact not_brings_nil
    · exact hright.1 start (UInt64.le_refl start) (UInt64.le_iff_toNat_le.mpr hle) hblock
  | @last exchange start remaining region hrequest hwanted hregion hlast =>
    have hblock := Tiling.Answers.block?_eq_some (hanswers _ List.mem_cons_self) hrequest hregion
    have hstart := Span.mem_iff_toNat.mp (tiling.mem hblock)
    rw [brings_cons_of_some hregion, or_iff_left not_brings_nil]
    refine ⟨fun hmem => Tiling.isDense_and_begins_lt hblock hmem htop hwanted, ?_⟩
    rintro ⟨-, hbegins⟩
    by_contra hmem
    rw [Span.mem_iff_toNat] at hmem
    rw [Tiling.begins_of_block? hblock] at hbegins
    have hbehind := Tiling.stop_le_begins hblock (by omega) htop
    have htotal := address.toNat_lt
    rw [UInt64.le_iff_toNat_le] at hlast
    omega
  | @more exchange start next remaining region later hrequest hwanted hregion hmore hnext rest ih =>
    obtain ⟨hfirst, hlater⟩ := List.forall_mem_cons.mp hanswers
    have hblock := hfirst.block?_eq_some hrequest hregion
    have hstart := Span.mem_iff_toNat.mp (tiling.mem hblock)
    rw [brings_cons_of_some hregion]
    by_cases hmem : address ∈ region.span
    · exact iff_of_true (.inl hmem) (Tiling.isDense_and_begins_lt hblock hmem htop hwanted)
    · -- The walk goes on at the end of a block, and no block begins below it there.
      have hoff := hmem
      rw [Span.mem_iff_toNat] at hoff
      have hbegins : (tiling.begins next).toNat = next.toNat :=
        Nat.le_antisymm (tiling.begins_le next)
          (hnext ▸ Tiling.stop_le_begins hblock (Nat.le_of_eq hnext.symm) (by omega))
      have hleft := UInt64.toNat_sub_of_le _ _ (UInt64.le_of_lt hmore)
      have hlt := UInt64.lt_iff_toNat_lt.mp hmore
      rw [or_iff_right hmem, ih hlater (by omega), Tiling.isDense_iff_of_stop hblock hnext htop,
        Tiling.begins_of_block? hblock, hbegins, hleft]
      refine and_congr_right fun _ => ?_
      omega

end Fill

/-- The blocks of a block map, without their images. -/
def BlockMap.tiling (blocks : BlockMap) : Tiling (2 ^ 64) where
  block? address := (blocks.find? address).map Region.span
  mem := by
    intro address _ h
    obtain ⟨block, hfound, rfl⟩ := Option.map_eq_some_iff.mp h
    exact blocks.mem hfound
  aligned := by
    intro address _ h
    obtain ⟨block, hfound, rfl⟩ := Option.map_eq_some_iff.mp h
    exact (blocks.natural hfound).span_aligned
  constant := by
    intro address other _ h hmem _
    obtain ⟨block, hfound, rfl⟩ := Option.map_eq_some_iff.mp h
    rw [blocks.constant hfound hmem]
    rfl

theorem BlockMap.Serves.grantedBy {blocks : BlockMap} {α : Type u} [TranslationAgent α]
    {agents : α → Prop} (serves : blocks.Serves agents) : blocks.tiling.GrantedBy agents where
  grants agent hagent address _ h := by
    obtain ⟨block, hfound, rfl⟩ := Option.map_eq_some_iff.mp h
    exact ⟨block.target, block.grants, serves.answer_of_find?_eq hagent hfound⟩
  declines agent hagent address h := by
    have hserved := serves.answer hagent address
    rw [Option.map_eq_none_iff.mp h] at hserved
    exact exists_eq_error_of_toOption hserved
  next := serves.next

theorem BlockMap.block?_identity_ne_none (granule : Granule) (address : Address) :
    (BlockMap.identity granule).tiling.block? address ≠ none :=
  Option.some_ne_none _

namespace Worker

variable {α : Type u} {μ : Type v} [TranslationAgent α] {agents : α → Prop}

/-- What the cache holds after a fill, from the granule of the first address on. -/
theorem contains_fill_of_grantedBy {top : Nat} {tiling : Tiling top}
    (granted : tiling.GrantedBy agents) (worker : Worker α μ) (hagent : agents worker.agent)
    (range : Span) {address : Address}
    (hle : (alignDown range.start worker.granule.bytes).toNat ≤ address.toNat)
    (htop : address.toNat < top) :
    (worker.fill range).2.cache.contains address ↔ worker.cache.contains address ∨
      tiling.IsDense (alignDown range.start worker.granule.bytes) address ∧
        (tiling.begins address).toNat <
          (tiling.begins (alignDown range.start worker.granule.bytes)).toNat +
            min (range.start.toNat + range.length.toNat -
              (alignDown range.start worker.granule.bytes).toNat) (2 ^ 64 - 1) := by
  obtain ⟨exchanges, hholds, hwalks, -⟩ := worker.exists_walks_fill range
  have hanswers := granted.answers_of_conversation hholds.conversation hagent hwalks.wanted_eq
  rw [← toNat_widened range worker.granule, ← hwalks.brings_iff hanswers hle htop,
    Cache.contains_iff, Cache.contains_iff, hholds.cache, Cache.regions_append]
  simp only [List.mem_append, or_and_right, exists_or, Fill.Brings]

/-- An address whose translation was looked up is cached if it was cached before,
or if from the start of its granule on there is no gap before it. -/
theorem contains_ensure_of_grantedBy {top : Nat} {tiling : Tiling top}
    (granted : tiling.GrantedBy agents) {worker : Worker α μ} (hagent : agents worker.agent)
    {address : Address} (htop : address.toNat < top) :
    (worker.ensure ⟨address, worker.granule.bytes⟩).2.cache.contains address ↔
      worker.cache.contains address ∨
        tiling.IsDense (alignDown address worker.granule.bytes) address := by
  unfold ensure
  split
  next hcached => exact iff_of_true hcached (.inl hcached)
  next hmissed =>
    have hsuspended : ¬ worker.suspend.cache.contains address = true := by
      rw [Cache.contains_iff] at hmissed ⊢
      rintro ⟨region, hregion, hmem⟩
      exact hmissed ⟨region, (Datapath.mem_suspend.mp hregion).1, hmem⟩
    have hdown := alignDown_le address worker.granule.bytes
    have hfilled : (worker.suspend.fill ⟨address, worker.granule.bytes⟩).2.cache.contains address ↔
        worker.suspend.cache.contains address ∨ _ :=
      contains_fill_of_grantedBy granted worker.suspend hagent _
        (UInt64.le_iff_toNat_le.mp hdown) htop
    rw [hfilled, or_iff_right hsuspended, or_iff_right hmissed]
    refine and_iff_left_of_imp fun hdense => ?_
    exact Tiling.begins_lt_of_granule worker.granule (hdense _ (UInt64.le_refl _) hdown) htop

/-- Under an agent that grants every address its block, a fill covers those
addresses of its range that were cached, and those whose block begins before the
end of the range, once this end is moved as far back as the block of the first
request begins below it. -/
theorem fill_covers_iff {tiling : Tiling (2 ^ 64)}
    (htotal : ∀ address, tiling.block? address ≠ none)
    (granted : tiling.GrantedBy agents) (worker : Worker α μ) (hagent : agents worker.agent)
    {range : Span} {address : Address} (hmem : address ∈ range) :
    let first := alignDown range.start worker.granule.bytes
    (worker.fill range).2.cache.contains address ↔ worker.cache.contains address ∨
      (tiling.begins address).toNat < (tiling.begins first).toNat +
        min (range.start.toNat + range.length.toNat - first.toNat) (2 ^ 64 - 1) := by
  have hdown := UInt64.le_iff_toNat_le.mp (alignDown_le range.start worker.granule.bytes)
  have hle := Nat.le_trans hdown (Span.mem_iff_toNat.mp hmem).1
  rw [contains_fill_of_grantedBy granted worker hagent range hle address.toNat_lt]
  refine or_congr_right ?_
  exact and_iff_right fun between _ _ => htotal between

/-- One byte more than two pages, from the second page of a block on, is covered
up to its last byte. -/
theorem fill_covers_lastByte :
    let page : Granule := ⟨0x1000, ⟨12, rfl⟩⟩
    let block : Granule := ⟨0x2000, ⟨13, rfl⟩⟩
    let worker : Worker BlockMap HostMemory :=
      { agent := .identity block
        memory := .zeroed 0 16
        granule := page }
    (worker.fill ⟨0x1000, 0x2001⟩).2.cache.contains 0x3000 := by
  intro page block worker
  refine (fill_covers_iff (BlockMap.block?_identity_ne_none block)
    (BlockMap.serves_self _).grantedBy worker rfl ?_).mpr (.inr ?_)
  · decide
  · decide +kernel

/-- Of two pages from the second page of a block on, the second one is missed. -/
theorem fill_misses_secondPage :
    let page : Granule := ⟨0x1000, ⟨12, rfl⟩⟩
    let block : Granule := ⟨0x2000, ⟨13, rfl⟩⟩
    let worker : Worker BlockMap HostMemory :=
      { agent := .identity block
        memory := .zeroed 0 16
        granule := page }
    let range : Span := ⟨0x1000, 0x2000⟩
    (∀ address, (BlockMap.identity block).tiling.block? address ≠ none) ∧
      (BlockMap.identity block).tiling.GrantedBy (· = worker.agent) ∧
      range.start.toNat + range.length.toNat ≤ 2 ^ 64 ∧
      ¬ ∀ address ∈ range, (worker.fill range).2.cache.contains address := by
  intro page block worker range
  refine ⟨BlockMap.block?_identity_ne_none block, (BlockMap.serves_self _).grantedBy, by decide, ?_⟩
  intro hall
  have hmissed : (worker.fill range).2.cache.contains 0x2000 = false := by decide +kernel
  have hcovered := hall 0x2000 (by decide)
  simp [hmissed] at hcovered

end Worker

end AtsEndpoint
