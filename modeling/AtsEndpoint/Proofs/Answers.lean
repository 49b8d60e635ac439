import AtsEndpoint.Proofs.Blocks
import AtsEndpoint.Proofs.Mappings

/-!
# The blocks of a table

The answers of a software IOMMU cut its mappings into blocks: pages, and large
granules where these fit. How long the block around an address is depends on
the address, but every address of a block is answered with this same block, and
a block never leaves its mapping. On a table whose mappings are kept apart, the
IOMMU serves a fixed block map.

A large granule may reach the last address while the end of its mapping is cut
off just below. Pages of a single byte are the only ones where this can happen;
there a block may hold the last address although the mapping does not.
-/

namespace AtsEndpoint

/-- Rounding down to a granule forgets the position inside a finer block. -/
theorem Span.alignDown_eq_of_mem_around {address other fine coarse : UInt64}
    (hfine : IsPowerOfTwo fine) (hcoarse : IsPowerOfTwo coarse) (hle : fine ≤ coarse)
    (hmem : other ∈ around address fine) : alignDown other coarse = alignDown address coarse := by
  have haligned := isAligned_around address hcoarse
  have hsame : alignDown other fine = alignDown address fine :=
    (isAligned_around address hfine).alignDown_eq hmem
  have hdown : alignDown address fine ∈ around address coarse :=
    (haligned.alignDown_mem_iff hfine hle).mpr (IsAligned.mem_around address hcoarse)
  rw [← hsame] at hdown
  exact haligned.alignDown_eq ((haligned.alignDown_mem_iff hfine hle).mp hdown)

namespace Iommu

variable {iommu : Iommu} {mapping : Mapping} {address other : Address}

theorem answerLength_cases (iommu : Iommu) (mapping : Mapping) (address : Address) :
    (iommu.pageSize < iommu.granule ∧ iommu.granuleFits mapping address ∧
      iommu.answerLength mapping address = iommu.granule) ∨
    (¬(iommu.pageSize < iommu.granule ∧ iommu.granuleFits mapping address) ∧
      iommu.answerLength mapping address = iommu.pageSize) := by
  unfold answerLength
  split
  next h => exact .inl ⟨h.1, h.2, rfl⟩
  next h => exact .inr ⟨h, rfl⟩

theorem pageSize_le_answerLength (iommu : Iommu) (mapping : Mapping) (address : Address) :
    iommu.pageSize ≤ iommu.answerLength mapping address := by
  obtain ⟨hlarge, _, hlength⟩ | ⟨_, hlength⟩ := iommu.answerLength_cases mapping address
  · rw [hlength]
    exact UInt64.le_of_lt hlarge
  · rw [hlength]
    exact UInt64.le_refl _

theorem granuleFits_iff : iommu.granuleFits mapping address ↔
    mapping.range.start ≤ alignDown address iommu.granule ∧
      (Span.around address iommu.granule).stop ≤ mapping.range.stop ∧
      granuleOffset (mapping.image (alignDown address iommu.granule)) iommu.granule = 0 := by
  simp [granuleFits, Span.around]

namespace IsPaged

variable (h : iommu.IsPaged)
include h

theorem isPowerOfTwo_answerLength (mapping : Mapping) (address : Address) :
    IsPowerOfTwo (iommu.answerLength mapping address) := by
  obtain ⟨_, _, hlength⟩ | ⟨_, hlength⟩ := iommu.answerLength_cases mapping address
  · exact hlength ▸ h.granule
  · exact hlength ▸ h.page

theorem answerLength_ne_zero (mapping : Mapping) (address : Address) :
    iommu.answerLength mapping address ≠ 0 :=
  (h.isPowerOfTwo_answerLength mapping address).ne_zero

/-- Every address of a block is answered with the same length. -/
theorem answerLength_eq
    (hmem : other ∈ Span.around address (iommu.answerLength mapping address)) :
    iommu.answerLength mapping other = iommu.answerLength mapping address := by
  have hfits (hlarge : iommu.pageSize < iommu.granule) :
      iommu.granuleFits mapping other = iommu.granuleFits mapping address := by
    have hdown : alignDown other iommu.granule = alignDown address iommu.granule := by
      obtain ⟨_, _, hlength⟩ | ⟨_, hlength⟩ := iommu.answerLength_cases mapping address
      · rw [hlength] at hmem
        exact (Span.isAligned_around address h.granule).alignDown_eq hmem
      · rw [hlength] at hmem
        exact Span.alignDown_eq_of_mem_around h.page h.granule (UInt64.le_of_lt hlarge) hmem
    simp only [granuleFits, hdown]
  unfold answerLength
  by_cases hlarge : iommu.pageSize < iommu.granule
  · rw [hfits hlarge]
  · simp only [hlarge, false_and, if_false]

/-- Every address of a block rounds down to its start. -/
theorem alignDown_eq
    (hmem : other ∈ Span.around address (iommu.answerLength mapping address)) :
    alignDown other (iommu.answerLength mapping address) =
      alignDown address (iommu.answerLength mapping address) :=
  (Span.isAligned_around address (h.isPowerOfTwo_answerLength mapping address)).alignDown_eq hmem

/-- The physical side of a block is aligned. -/
theorem dvd_image (hmapping : mapping.IsPaged iommu.pageSize) (hmem : address ∈ mapping.range) :
    (iommu.answerLength mapping address).toNat ∣
      (mapping.image (alignDown address (iommu.answerLength mapping address))).toNat := by
  obtain ⟨_, hfits, hlength⟩ | ⟨_, hlength⟩ := iommu.answerLength_cases mapping address
  · rw [hlength]
    exact (granuleOffset_eq_zero_iff h.granule).mp (granuleFits_iff.mp hfits).2.2
  · rw [hlength]
    have hstart : mapping.range.start ≤ alignDown address iommu.pageSize :=
      ((Span.alignDown_mem_iff_of_dvd h.page hmapping.dvd_start hmapping.dvd_length).mpr hmem).1
    rw [Mapping.image, UInt64.toNat_add, UInt64.toNat_sub_of_le _ _ hstart]
    refine (Nat.dvd_mod_iff h.page.dvd_size).mpr (Nat.dvd_add hmapping.dvd_target ?_)
    exact Nat.dvd_sub (dvd_toNat_alignDown address h.page) hmapping.dvd_start

/-- A block begins inside its mapping. -/
theorem start_le_of_mem_around (hmapping : mapping.IsPaged iommu.pageSize)
    (haddress : address ∈ mapping.range)
    (hmem : other ∈ Span.around address (iommu.answerLength mapping address)) :
    mapping.range.start ≤ other := by
  refine UInt64.le_trans ?_ hmem.1
  obtain ⟨_, hfits, hlength⟩ | ⟨_, hlength⟩ := iommu.answerLength_cases mapping address
  · rw [hlength]
    exact (granuleFits_iff.mp hfits).1
  · rw [hlength]
    exact ((Span.alignDown_mem_iff_of_dvd h.page hmapping.dvd_start hmapping.dvd_length).mpr
      haddress).1

/-- A block does not leave its mapping, except perhaps for the last address of
all when pages have a single byte. -/
theorem mem_range_of_mem_around (hmapping : mapping.IsPaged iommu.pageSize)
    (haddress : address ∈ mapping.range)
    (hmem : other ∈ Span.around address (iommu.answerLength mapping address))
    (hinner : 2 ≤ iommu.pageSize ∨ other.toNat + 1 < 2 ^ 64) : other ∈ mapping.range := by
  have hstart := h.start_le_of_mem_around hmapping haddress hmem
  obtain ⟨_, hfits, hlength⟩ | ⟨_, hlength⟩ := iommu.answerLength_cases mapping address
  · have hstop := UInt64.le_iff_toNat_le.mp (granuleFits_iff.mp hfits).2.1
    have hother := other.toNat_lt
    rw [hlength] at hmem
    have hmem := Span.mem_iff_toNat.mp hmem
    have hstart := UInt64.le_iff_toNat_le.mp hstart
    rw [Span.stop, Span.stop, toNat_addSaturating, toNat_addSaturating] at hstop
    refine Span.mem_iff_toNat.mpr ⟨hstart, ?_⟩
    rcases hinner with htwo | hlt
    · -- Whole pages of an even size do not end at the odd last address.
      have heven : 2 ∣ iommu.pageSize.toNat := IsPowerOfTwo.dvd_of_le ⟨1, rfl⟩ h.page htwo
      have hend : 2 ∣ mapping.range.start.toNat + mapping.range.length.toNat :=
        Nat.dvd_trans heven (Nat.dvd_add hmapping.dvd_start hmapping.dvd_length)
      omega
    · omega
  · rw [hlength] at hmem
    have hdown : alignDown other iommu.pageSize = alignDown address iommu.pageSize :=
      (Span.isAligned_around address h.page).alignDown_eq hmem
    have hpaged {x : Address} : alignDown x iommu.pageSize ∈ mapping.range ↔ x ∈ mapping.range :=
      Span.alignDown_mem_iff_of_dvd h.page hmapping.dvd_start hmapping.dvd_length
    rw [← hpaged, hdown, hpaged]
    exact haddress

end IsPaged

/-- The region is the answer for some address of the mapping. -/
def Cuts (iommu : Iommu) (mapping : Mapping) (region : Region) : Prop :=
  ∃ address ∈ mapping.range, ∃ hlength,
    region = Region.ofTranslation address (iommu.answer mapping ⟨address, .all⟩) hlength

namespace Cuts

variable {region : Region}

theorem grants_eq (hcut : iommu.Cuts mapping region) : region.grants = .all &&& mapping.grants := by
  obtain ⟨_, _, _, rfl⟩ := hcut
  rfl

variable (hcut : iommu.Cuts mapping region) (h : iommu.IsPaged)
  (hmapping : mapping.IsPaged iommu.pageSize)
include hcut h

/-- Any address of the block would have been answered with it. -/
theorem eq_of_mem {address : Address} (hmem : address ∈ region.span) :
    region = Region.ofTranslation address (iommu.answer mapping ⟨address, .all⟩)
      (h.answerLength_ne_zero mapping address) := by
  obtain ⟨origin, horigin, hlength, rfl⟩ := hcut
  have hsame : iommu.answerLength mapping address = iommu.answerLength mapping origin :=
    h.answerLength_eq hmem
  have hdown : alignDown address (iommu.answerLength mapping origin) =
      alignDown origin (iommu.answerLength mapping origin) :=
    h.alignDown_eq hmem
  simp only [Region.ofTranslation, answer, hsame, hdown]

include hmapping

theorem isNatural : region.IsNatural := by
  obtain ⟨address, haddress, hlength, rfl⟩ := hcut
  exact ⟨Span.isAligned_around address (h.isPowerOfTwo_answerLength mapping address),
    h.dvd_image hmapping haddress⟩

theorem start_le (hmem : address ∈ region.span) : mapping.range.start ≤ address := by
  obtain ⟨origin, horigin, hlength, rfl⟩ := hcut
  exact h.start_le_of_mem_around hmapping horigin hmem

theorem mem_range (hmem : address ∈ region.span)
    (hinner : 2 ≤ iommu.pageSize ∨ address.toNat + 1 < 2 ^ 64) : address ∈ mapping.range := by
  obtain ⟨origin, horigin, hlength, rfl⟩ := hcut
  exact h.mem_range_of_mem_around hmapping horigin hmem hinner

/-- A block translates as its mapping does. -/
theorem translate_eq (hmem : address ∈ region.span) :
    region.translate address = mapping.image address := by
  rw [(hcut.isNatural h hmapping).translate_eq hmem]
  obtain ⟨origin, horigin, hlength, rfl⟩ := hcut
  simp only [Region.ofTranslation, answer, Mapping.image]
  grind

end Cuts

/-- The region is cut from a mapping of the table. -/
def IsCut (iommu : Iommu) (region : Region) : Prop :=
  ∃ mapping ∈ iommu.mappings, iommu.Cuts mapping region

/-- The IOMMU as it is after any number of requests. -/
def Later (iommu agent : Iommu) : Prop :=
  ∃ served, agent = { iommu with served }

theorem Later.refl (iommu : Iommu) : iommu.Later iommu :=
  ⟨iommu.served, rfl⟩

theorem Later.translate {agent : Iommu} (h : iommu.Later agent) (request : TranslationRequest) :
    iommu.Later (TranslationAgent.translate agent request).agent := by
  obtain ⟨served, rfl⟩ := h
  refine ⟨served + 1, ?_⟩
  simp only [TranslationAgent.translate]
  split <;> rfl

/-- The table alone decides what is answered. -/
theorem Later.answer_eq {agent : Iommu} (h : iommu.Later agent) (request : TranslationRequest) :
    (TranslationAgent.translate agent request).answer =
      match iommu.find? request.address with
      | some mapping => .ok (iommu.answer mapping request)
      | none => .error (.declined request.address) := by
  obtain ⟨served, rfl⟩ := h
  change AgentReply.answer (match iommu.find? request.address with | some _ => _ | none => _) = _
  cases iommu.find? request.address <;> rfl

theorem Later.isTable {agent : Iommu} (h : iommu.Later agent) (table : iommu.IsTable) :
    agent.IsTable := by
  obtain ⟨served, rfl⟩ := h
  exact ⟨⟨table.page, table.granule, table.paged⟩, table.two_le, table.apart⟩

theorem Later.isCut {agent : Iommu} (h : iommu.Later agent) {region : Region}
    (hcut : iommu.IsCut region) : agent.IsCut region := by
  obtain ⟨served, rfl⟩ := h
  exact hcut

/-- Whatever is answered is cut from a mapping of the table. -/
theorem yields (iommu : Iommu) : Yields iommu.Later iommu.IsCut where
  answer agent hagent address answer hlength hanswer := by
    rw [hagent.answer_eq] at hanswer
    split at hanswer
    next mapping hfound =>
      cases hanswer
      have hmem : address ∈ mapping.range := by simpa using List.find?_some hfound
      exact ⟨mapping, List.mem_of_find?_eq_some hfound, address, hmem, hlength, rfl⟩
    next => cases hanswer
  next _ hagent address := hagent.translate _

namespace IsTable

/-- The blocks that a table is cut into. -/
def blocks (h : iommu.IsTable) : BlockMap where
  find? address := (iommu.find? address).map fun mapping =>
    Region.ofTranslation address (iommu.answer mapping ⟨address, .all⟩)
      (h.answerLength_ne_zero mapping address)
  mem := by
    intro address block hfound
    obtain ⟨mapping, _, rfl⟩ := Option.map_eq_some_iff.mp hfound
    exact Span.IsAligned.mem_around address (h.isPowerOfTwo_answerLength mapping address)
  natural := by
    intro address block hfound
    obtain ⟨mapping, hmapping, rfl⟩ := Option.map_eq_some_iff.mp hfound
    have hmem : address ∈ mapping.range := by simpa using List.find?_some hmapping
    exact Cuts.isNatural ⟨address, hmem, _, rfl⟩ h.toIsPaged
      (h.paged mapping (List.mem_of_find?_eq_some hmapping))
  constant := by
    intro address other block hfound hother
    obtain ⟨mapping, hmapping, hblock⟩ := Option.map_eq_some_iff.mp hfound
    have hmem : address ∈ mapping.range := by simpa using List.find?_some hmapping
    have hlisted := List.mem_of_find?_eq_some hmapping
    have hcut : iommu.Cuts mapping block := ⟨address, hmem, _, hblock.symm⟩
    have hinside := hcut.mem_range h.toIsPaged (h.paged mapping hlisted) hother (.inl h.two_le)
    rw [h.find?_eq_of_mem hlisted hinside, hcut.eq_of_mem h.toIsPaged hother]
    rfl

variable (h : iommu.IsTable)

theorem find?_blocks (address : Address) : h.blocks.find? address =
    (iommu.find? address).map fun mapping =>
      Region.ofTranslation address (iommu.answer mapping ⟨address, .all⟩)
        (h.answerLength_ne_zero mapping address) := rfl

/-- The blocks are the regions cut from the mappings. -/
theorem isBlock_iff {region : Region} :
    h.blocks.IsBlock region ↔ iommu.IsCut region := by
  constructor
  · rintro ⟨address, hfound⟩
    obtain ⟨mapping, hmapping, rfl⟩ := Option.map_eq_some_iff.mp hfound
    have hmem : address ∈ mapping.range := by simpa using List.find?_some hmapping
    exact ⟨mapping, List.mem_of_find?_eq_some hmapping, address, hmem, _, rfl⟩
  · rintro ⟨mapping, hmapping, address, hmem, hlength, rfl⟩
    refine ⟨address, ?_⟩
    rw [h.find?_blocks, h.find?_eq_of_mem hmapping hmem]
    rfl

theorem serves : h.blocks.Serves iommu.Later where
  answer agent hagent address := by
    rw [hagent.answer_eq, h.find?_blocks]
    cases iommu.find? address <;> rfl
  next _ hagent _ := hagent.translate _

/-- No block is shorter than a granule that fits into a page. -/
theorem coversGranule {granule : Granule} (hle : granule.bytes ≤ iommu.pageSize) :
    h.blocks.CoversGranule granule := by
  intro address block hfound
  obtain ⟨mapping, _, rfl⟩ := Option.map_eq_some_iff.mp hfound
  exact UInt64.le_trans hle (iommu.pageSize_le_answerLength mapping address)

end IsTable

end Iommu

end AtsEndpoint
