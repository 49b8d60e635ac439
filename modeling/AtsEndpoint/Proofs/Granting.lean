import AtsEndpoint.Proofs.Answers

/-!
# What a table grants

A table answers for the addresses that are mapped, and only for these. What it
answers is a block: it stays inside the mapping, it is moved to the physical side
as the mapping moves it, and it is aligned there as well. The large granule is
answered just where the whole granule is mapped by the one mapping and its image
is aligned; the table finds this out from ends that are cut off at the end of the
address space, and is right about it there too.

All addresses of a block get the same answer. So it does not matter which of them
the endpoint has asked for when it keeps the answer for all of them.
-/

namespace AtsEndpoint

/-- A span inside another one does not end later, when both ends are cut off. -/
theorem Span.stop_le_of_forall_mem {a b : Span} (hstart : a.start ∈ a)
    (hinside : ∀ address ∈ a, address ∈ b) : a.stop ≤ b.stop := by
  have hbegins := mem_iff_toNat.mp (hinside a.start hstart)
  apply UInt64.not_lt.mp
  intro hlt
  -- The end of the outer span would be an address of the inner one.
  rw [UInt64.lt_iff_toNat_lt, stop, stop, toNat_addSaturating, toNat_addSaturating] at hlt
  have hend : b.stop.toNat = b.start.toNat + b.length.toNat := by
    rw [stop, toNat_addSaturating]
    omega
  have hmem : b.stop ∈ b := hinside b.stop (mem_iff_toNat.mpr ⟨by omega, by omega⟩)
  have hbefore := (mem_iff_toNat.mp hmem).2
  omega

namespace Iommu

variable {iommu : Iommu} {mapping : Mapping} {request : TranslationRequest} {address : Address}

/-- The large granule exceeds a page, the mapping holds all of it around the
address, and there it begins at a multiple of its length on the physical side. -/
structure TakesGranule (iommu : Iommu) (mapping : Mapping) (address : Address) : Prop where
  pageSize_lt : iommu.pageSize < iommu.granule
  inside : ∀ other ∈ Span.around address iommu.granule, other ∈ mapping.range
  dvd_image : iommu.granule.toNat ∣ mapping.target.toNat +
    ((alignDown address iommu.granule).toNat - mapping.range.start.toNat)

/-- An answer to a request for an address of the mapping is right. -/
structure Grants (iommu : Iommu) (mapping : Mapping) (request : TranslationRequest)
    (answer : Translation) : Prop where
  isPowerOfTwo : IsPowerOfTwo answer.length
  /-- The mapping holds the whole block around the address. -/
  inside : ∀ other ∈ Span.around request.address answer.length, other ∈ mapping.range
  /-- The block is moved as the mapping moves it, -/
  target_eq : answer.target.toNat = mapping.target.toNat +
    ((alignDown request.address answer.length).toNat - mapping.range.start.toNat)
  /-- and it is aligned where it ends up. -/
  dvd_target : answer.length.toNat ∣ answer.target.toNat
  grants_eq : answer.grants = request.wanted &&& mapping.grants
  large : iommu.TakesGranule mapping request.address → answer.length = iommu.granule
  small : ¬ iommu.TakesGranule mapping request.address → answer.length = iommu.pageSize
  /-- Any address of the block gets this answer, now and later. -/
  constant : ∀ agent, iommu.Later agent →
    ∀ other ∈ Span.around request.address answer.length,
      (TranslationAgent.translate agent ⟨other, request.wanted⟩).answer = .ok answer

namespace IsTable

variable (h : iommu.IsTable) (hmapping : mapping ∈ iommu.mappings)
include h hmapping

/-- The block of an answer does not leave the mapping. -/
theorem mem_range_of_mem_around {other : Address} (hmem : address ∈ mapping.range)
    (hother : other ∈ Span.around address (iommu.answerLength mapping address)) :
    other ∈ mapping.range :=
  h.toIsPaged.mem_range_of_mem_around (h.paged mapping hmapping) hmem hother (.inl h.two_le)

theorem toNat_image_alignDown (hbounded : mapping.IsBounded) (hmem : address ∈ mapping.range) :
    let base := alignDown address (iommu.answerLength mapping address)
    (mapping.image base).toNat =
      mapping.target.toNat + (base.toNat - mapping.range.start.toNat) := by
  have haligned : (Span.around address (iommu.answerLength mapping address)).IsAligned :=
    Span.isAligned_around address (h.isPowerOfTwo_answerLength mapping address)
  exact hbounded.toNat_image (h.mem_range_of_mem_around hmapping hmem haligned.start_mem)

/-- The test for the large granule is exact. -/
theorem takesGranule_iff (hbounded : mapping.IsBounded) (hmem : address ∈ mapping.range) :
    iommu.TakesGranule mapping address ↔
      iommu.pageSize < iommu.granule ∧ iommu.granuleFits mapping address := by
  have haligned : (Span.around address iommu.granule).IsAligned :=
    Span.isAligned_around address h.granule
  constructor
  · rintro ⟨hlarge, hinside, hdvd⟩
    have hbegins : alignDown address iommu.granule ∈ mapping.range :=
      hinside _ haligned.start_mem
    rw [← hbounded.toNat_image hbegins] at hdvd
    refine ⟨hlarge, granuleFits_iff.mpr ⟨hbegins.1, ?_, ?_⟩⟩
    · exact Span.stop_le_of_forall_mem haligned.start_mem hinside
    · exact (granuleOffset_eq_zero_iff h.granule).mpr hdvd
  · rintro ⟨hlarge, hfits⟩
    have hlength : iommu.answerLength mapping address = iommu.granule := if_pos ⟨hlarge, hfits⟩
    have hinside (other : Address)
        (hother : other ∈ Span.around address (iommu.answerLength mapping address)) :
        other ∈ mapping.range :=
      h.mem_range_of_mem_around hmapping hmem hother
    have himage := h.toNat_image_alignDown hmapping hbounded hmem
    have hdvd := h.dvd_image (h.paged mapping hmapping) hmem
    rw [hlength] at hinside himage hdvd
    exact ⟨hlarge, hinside, himage ▸ hdvd⟩

/-- What is answered for an address of a mapping. -/
theorem answer_eq {agent : Iommu} (hagent : iommu.Later agent) (wanted : Permissions)
    (hmem : address ∈ mapping.range) :
    (TranslationAgent.translate agent ⟨address, wanted⟩).answer =
      .ok (iommu.answer mapping ⟨address, wanted⟩) := by
  rw [hagent.answer_eq, h.find?_eq_of_mem hmapping hmem]

/-- Any address of a block would have been answered with it. -/
theorem answer_constant {agent : Iommu} (hagent : iommu.Later agent) (wanted : Permissions)
    (hmem : address ∈ mapping.range) {other : Address}
    (hother : other ∈ Span.around address (iommu.answerLength mapping address)) :
    (TranslationAgent.translate agent ⟨other, wanted⟩).answer =
      .ok (iommu.answer mapping ⟨address, wanted⟩) := by
  have hinside := h.mem_range_of_mem_around hmapping hmem hother
  rw [h.answer_eq hmapping hagent wanted hinside]
  simp only [answer, h.answerLength_eq hother, h.alignDown_eq hother]

theorem grants_answer (hbounded : mapping.IsBounded) (hmem : request.address ∈ mapping.range) :
    iommu.Grants mapping request (iommu.answer mapping request) where
  isPowerOfTwo := h.isPowerOfTwo_answerLength mapping request.address
  inside _ hother := h.mem_range_of_mem_around hmapping hmem hother
  target_eq := h.toNat_image_alignDown hmapping hbounded hmem
  dvd_target := h.dvd_image (h.paged mapping hmapping) hmem
  grants_eq := rfl
  large htakes := if_pos ((h.takesGranule_iff hmapping hbounded hmem).mp htakes)
  small htakes := if_neg (mt (h.takesGranule_iff hmapping hbounded hmem).mpr htakes)
  constant _ hagent _ hother := h.answer_constant hmapping hagent request.wanted hmem hother

end IsTable

/-- A request is declined if and only if no mapping holds its address. -/
theorem answer_eq_declined_iff (iommu : Iommu) (request : TranslationRequest) :
    (TranslationAgent.translate iommu request).answer = .error (.declined request.address) ↔
      ∀ mapping ∈ iommu.mappings, request.address ∉ mapping.range := by
  rw [(Later.refl iommu).answer_eq]
  cases hfound : iommu.find? request.address with
  | none => simpa using List.find?_eq_none.mp hfound
  | some mapping =>
      have hmem : request.address ∈ mapping.range := by simpa using List.find?_some hfound
      simp only [reduceCtorEq, false_iff]
      exact fun hnone => hnone mapping (List.mem_of_find?_eq_some hfound) hmem

/-- Whatever has been mapped, unmapped and asked for before, a table of bounded
mappings declines a request just when its address is not mapped, and otherwise
grants what the mapping of the address allows. -/
theorem Built.translate_grants {pageSize granule : UInt64} (hbuilt : iommu.Built pageSize granule)
    (hpage : IsPowerOfTwo pageSize) (htwo : 2 ≤ pageSize) (hgranule : IsPowerOfTwo granule)
    (hbounded : ∀ mapping ∈ iommu.mappings, mapping.IsBounded) (request : TranslationRequest) :
    let reply := (TranslationAgent.translate iommu request).answer
    (reply = .error (.declined request.address) ↔
        ∀ mapping ∈ iommu.mappings, request.address ∉ mapping.range) ∧
      ∀ mapping ∈ iommu.mappings, request.address ∈ mapping.range →
        ∃ answer, reply = .ok answer ∧ iommu.Grants mapping request answer := by
  have h := hbuilt.isTable hpage htwo hgranule
  refine ⟨answer_eq_declined_iff iommu request, ?_⟩
  intro mapping hmapping hmem
  exact ⟨_, h.answer_eq hmapping (.refl iommu) request.wanted hmem,
    h.grants_answer hmapping (hbounded mapping hmapping) hmem⟩

/-- The last pages of the address space, and pages that are not aligned to a
granule of four on the physical side, are mapped one after the other. -/
def twoEdges : Iommu :=
  ((({ granule := 0x4000 } : Iommu).map ⟨0xffffffffffff8000, 0x8000⟩ 0x10000 .all).state.map
    ⟨0x8000, 0x8000⟩ 0x31000 .all).state

theorem mappings_twoEdges : twoEdges.mappings =
    [⟨⟨0xffffffffffff8000, 0x8000⟩, 0x10000, .all⟩, ⟨⟨0x8000, 0x8000⟩, 0x31000, .all⟩] := by
  decide +kernel

/-- The last address is answered with a granule, the other pages are answered one
by one, and nothing is granted between them. -/
theorem translate_grants_twoEdges :
    (∀ mapping ∈ twoEdges.mappings, mapping.IsBounded) ∧
      twoEdges.Grants ⟨⟨0xffffffffffff8000, 0x8000⟩, 0x10000, .all⟩ ⟨0xffffffffffffffff, .all⟩
        ⟨0x14000, 0x4000, .all⟩ ∧
      twoEdges.Grants ⟨⟨0x8000, 0x8000⟩, 0x31000, .all⟩ ⟨0x9004, .read⟩
        ⟨0x32000, 0x1000, .read⟩ ∧
      (TranslationAgent.translate twoEdges ⟨0x10000, .all⟩).answer =
        .error (.declined 0x10000) := by
  have hbuilt : twoEdges.Built 4096 0x4000 := .map _ _ _ (.map _ _ _ (.empty false 0))
  have hbounded : ∀ mapping ∈ twoEdges.mappings, mapping.IsBounded := by
    rw [mappings_twoEdges]
    decide
  have h := hbuilt.translate_grants ⟨12, rfl⟩ (by decide) ⟨14, rfl⟩ hbounded
  have hanswer {request : TranslationRequest} {mapping : Mapping} {expected : Translation}
      (hmapping : mapping ∈ twoEdges.mappings) (hmem : request.address ∈ mapping.range)
      (hreply : (TranslationAgent.translate twoEdges request).answer = .ok expected) :
      twoEdges.Grants mapping request expected := by
    obtain ⟨answer, hok, hgrants⟩ := (h request).2 mapping hmapping hmem
    rwa [Except.ok.inj (hok.symm.trans hreply)] at hgrants
  refine ⟨hbounded, hanswer (by simp [mappings_twoEdges]) (by decide) rfl,
    hanswer (by simp [mappings_twoEdges]) (by decide) rfl, ?_⟩
  apply (h ⟨0x10000, .all⟩).1.mpr
  rw [mappings_twoEdges]
  decide

end Iommu

end AtsEndpoint
