import AtsEndpoint.Proofs.Granting
import AtsEndpoint.Proofs.Meeting

/-!
# What a table gives up

Unmapping is meant to take away every mapping that meets the range. It compares the
ends of the two, cut off at the end of the address space, and the last address of
all is not below such an end. So a mapping that meets the range stays where one of
them begins at that address. An empty range meets nothing, but its ends compare like
those of other ranges: it takes away a mapping that it lies inside.

In all other cases unmapping does what it is meant to do, and afterwards no address
of the range is translated.
-/

namespace AtsEndpoint

/-- The range begins at the last address of all. -/
def Span.BeginsLast (span : Span) : Prop :=
  span.start.toNat + 1 = 2 ^ 64

instance (span : Span) : Decidable span.BeginsLast :=
  inferInstanceAs (Decidable (_ = _))

namespace Mapping

/-- The range is empty and lies inside the mapping, behind its first address. -/
def IsSplitBy (mapping : Mapping) (range : Span) : Prop :=
  range.length = 0 ∧ mapping.range.start < range.start ∧ range.start ∈ mapping.range

instance (mapping : Mapping) (range : Span) : Decidable (mapping.IsSplitBy range) :=
  inferInstanceAs (Decidable (_ ∧ _))

/-- The range takes the mapping away: neither of them begins at the last address of
all, and they meet, or the range splits the mapping. -/
def IsHitBy (mapping : Mapping) (range : Span) : Prop :=
  (mapping.range.Meets range ∨ mapping.IsSplitBy range) ∧
    ¬ (mapping.range.BeginsLast ∨ range.BeginsLast)

instance (mapping : Mapping) (range : Span) : Decidable (mapping.IsHitBy range) :=
  inferInstanceAs (Decidable (_ ∧ _))

/-- The ends tell something else than the addresses: the mapping meets the range and
stays, or it is taken away and does not meet the range. -/
def IsMisjudgedBy (mapping : Mapping) (range : Span) : Prop :=
  (mapping.range.Meets range ∧ (mapping.range.BeginsLast ∨ range.BeginsLast)) ∨
    (mapping.IsSplitBy range ∧ ¬ range.BeginsLast)

variable {mapping : Mapping} {range : Span}

/-- An empty range meets nothing. -/
theorem IsSplitBy.not_meets (h : mapping.IsSplitBy range) : ¬ mapping.range.Meets range := by
  rintro ⟨address, -, hmem⟩
  rw [Span.mem_iff_toNat, h.1, UInt64.toNat_zero] at hmem
  omega

/-- A mapping that begins at the last address of all is not split. -/
theorem IsSplitBy.not_beginsLast (h : mapping.IsSplitBy range) : ¬ mapping.range.BeginsLast := by
  have hbehind := UInt64.lt_iff_toNat_lt.mp h.2.1
  have hlt := range.start.toNat_lt
  rw [Span.BeginsLast]
  omega

/-- What the test of the ends finds. -/
theorem overlaps_iff_isHitBy (hmapping : mapping.range.length ≠ 0) :
    mapping.range.overlaps range ↔ mapping.IsHitBy range := by
  have hpos := toNat_pos_of_ne_zero hmapping
  have hmappingStart := mapping.range.start.toNat_lt
  have hrangeStart := range.start.toNat_lt
  rw [Span.overlaps_iff, IsHitBy, IsSplitBy, Span.BeginsLast, Span.BeginsLast,
    Span.meets_iff_toNat, Span.mem_iff_toNat, ← UInt64.toNat_inj, UInt64.toNat_zero]
  simp only [UInt64.lt_iff_toNat_lt, Span.stop, toNat_addSaturating]
  omega

theorem isHitBy_iff_meets :
    (mapping.IsHitBy range ↔ mapping.range.Meets range) ↔ ¬ mapping.IsMisjudgedBy range := by
  have hempty := fun h : mapping.IsSplitBy range => h.not_meets
  have hfirst := fun h : mapping.IsSplitBy range => h.not_beginsLast
  unfold IsHitBy IsMisjudgedBy
  grind

end Mapping

namespace Iommu

variable {iommu : Iommu} {range : Span} {pageSize granule : UInt64}

/-- No mapping of a table is empty. -/
theorem Built.length_ne_zero (hbuilt : iommu.Built pageSize granule) :
    ∀ mapping ∈ iommu.mappings, mapping.range.length ≠ 0 := by
  induction hbuilt with
  | empty => simp
  | @map iommu range target grants _ ih =>
      obtain ⟨_, _, hsame⟩ | ⟨haligned, _, _, hadded⟩ := iommu.map_cases range target grants
      · rwa [hsame]
      · have hne : range.length ≠ 0 := by
          simp only [isAligned, decide_eq_true_eq] at haligned
          exact haligned.1
        rw [hadded]
        exact List.forall_mem_append.mpr ⟨ih, List.forall_mem_singleton.mpr hne⟩
  | unmap range _ ih => exact fun mapping hmapping => ih mapping (List.mem_filter.mp hmapping).1
  | recount _ _ _ ih => exact ih

/-- The mappings that stay, and their order. -/
theorem Built.mappings_unmap (hbuilt : iommu.Built pageSize granule) (range : Span) :
    (iommu.unmap range).state.mappings =
      iommu.mappings.filter fun mapping => ¬ mapping.IsHitBy range := by
  apply List.filter_congr
  intro mapping hmapping
  have hhit : mapping.range.overlaps range ↔ mapping.IsHitBy range :=
    Mapping.overlaps_iff_isHitBy (hbuilt.length_ne_zero mapping hmapping)
  rw [Bool.eq_iff_iff, Bool.not_eq_true', ← Bool.not_eq_true, hhit, decide_eq_true_eq]

/-- What is taken away is counted. -/
theorem Built.result_unmap (hbuilt : iommu.Built pageSize granule) (range : Span) :
    (iommu.unmap range).result = iommu.mappings.countP fun mapping => mapping.IsHitBy range := by
  have hkept : (iommu.unmap range).result =
      iommu.mappings.length - (iommu.unmap range).state.mappings.length := rfl
  rw [hkept, hbuilt.mappings_unmap]
  exact Nat.sub_eq_of_eq_add (countP_add_length_filter_not _ _).symm

/-- In pages of at least two bytes, a range that is not empty and does not begin at
the last address of all misjudges nothing. -/
theorem Built.not_isMisjudgedBy (hbuilt : iommu.Built pageSize granule)
    (hpage : IsPowerOfTwo pageSize) (htwo : 2 ≤ pageSize) (hrange : range.length ≠ 0)
    (hinner : ¬ range.BeginsLast) : ∀ mapping ∈ iommu.mappings, ¬ mapping.IsMisjudgedBy range := by
  intro mapping hmapping
  have hstart : mapping.range.start.toNat + 1 < 2 ^ 64 :=
    ((hbuilt.layout hpage htwo).paged mapping hmapping).start_lt hpage htwo
  rintro (⟨-, hlast | hlast⟩ | ⟨hsplit, -⟩)
  · exact Nat.ne_of_lt hstart hlast
  · exact hinner hlast
  · exact hrange hsplit.1

/-- After unmapping, an address of the range is still mapped just where a mapping
that holds it was misjudged. -/
theorem Built.mem_unmap_iff (hbuilt : iommu.Built pageSize granule) {address : Address}
    (hmem : address ∈ range) {mapping : Mapping} (hmapping : mapping ∈ iommu.mappings)
    (hheld : address ∈ mapping.range) :
    mapping ∈ (iommu.unmap range).state.mappings ↔ mapping.IsMisjudgedBy range := by
  have hmeets : mapping.range.Meets range := ⟨address, hheld, hmem⟩
  have hjudged : (mapping.IsHitBy range ↔ mapping.range.Meets range) ↔ _ :=
    Mapping.isHitBy_iff_meets
  rw [hbuilt.mappings_unmap, List.mem_filter, decide_eq_true_eq]
  simp only [hmeets, iff_true] at hjudged
  rw [hjudged, Classical.not_not]
  exact and_iff_right hmapping

/-- Unmapping takes away the mappings that the range hits, leaves the others in
their order, and counts those that it takes away. These are the mappings that meet the
range, except where one is misjudged; and an address of the range is translated
afterwards only if a mapping that holds it is misjudged. In pages of at least two
bytes, a range that is not empty and does not begin at the last address of all
misjudges nothing. -/
theorem Built.unmap_exact (hbuilt : iommu.Built pageSize granule) (range : Span) :
    let step := iommu.unmap range
    step.state.mappings = (iommu.mappings.filter fun mapping => ¬ mapping.IsHitBy range) ∧
      step.result = (iommu.mappings.countP fun mapping => mapping.IsHitBy range) ∧
      (∀ mapping ∈ iommu.mappings,
        (mapping.IsHitBy range ↔ mapping.range.Meets range) ↔ ¬ mapping.IsMisjudgedBy range) ∧
      (∀ address ∈ range, ∀ wanted,
        (TranslationAgent.translate step.state ⟨address, wanted⟩).answer =
            .error (.declined address) ↔
          ∀ mapping ∈ iommu.mappings, address ∈ mapping.range → ¬ mapping.IsMisjudgedBy range) ∧
      (IsPowerOfTwo pageSize → 2 ≤ pageSize → range.length ≠ 0 → ¬ range.BeginsLast →
        ∀ mapping ∈ iommu.mappings, ¬ mapping.IsMisjudgedBy range) := by
  intro step
  refine ⟨hbuilt.mappings_unmap range, hbuilt.result_unmap range,
    fun mapping _ => Mapping.isHitBy_iff_meets, ?_, hbuilt.not_isMisjudgedBy⟩
  intro address hmem wanted
  rw [answer_eq_declined_iff step.state ⟨address, wanted⟩]
  constructor
  · intro hdeclined mapping hmapping hheld hmisjudged
    exact hdeclined mapping ((hbuilt.mem_unmap_iff hmem hmapping hheld).mpr hmisjudged) hheld
  · intro hjudged mapping hkept hheld
    have hmapping : mapping ∈ iommu.mappings := (List.mem_filter.mp hkept).1
    exact hjudged mapping hmapping hheld ((hbuilt.mem_unmap_iff hmem hmapping hheld).mp hkept)

theorem built_twoEdges : twoEdges.Built 4096 0x4000 :=
  .map _ _ _ (.map _ _ _ (.empty false 0))

/-- A range that begins inside a page and passes the end of the address space takes
away the mapping at the end and leaves the one before the range; then none of its
addresses is translated. -/
theorem unmap_exact_twoEdges :
    let range : Span := ⟨0x10800, 0xfffffffffffff000⟩
    (twoEdges.unmap range).state.mappings = [⟨⟨0x8000, 0x8000⟩, 0x31000, .all⟩] ∧
      (twoEdges.unmap range).result = 1 ∧
      ∀ address ∈ range, ∀ wanted,
        (TranslationAgent.translate (twoEdges.unmap range).state ⟨address, wanted⟩).answer =
          .error (.declined address) := by
  intro range
  obtain ⟨hkept, hcount, -, hdeclined, hjudged⟩ := built_twoEdges.unmap_exact range
  rw [mappings_twoEdges] at hkept hcount
  refine ⟨?_, ?_, ?_⟩
  · rw [hkept]
    decide +kernel
  · rw [hcount]
    decide +kernel
  · intro address hmem wanted
    have hnone : ∀ mapping ∈ twoEdges.mappings, ¬ mapping.IsMisjudgedBy range :=
      hjudged ⟨12, rfl⟩ (by decide) (by decide +kernel) (by decide +kernel)
    exact (hdeclined address hmem wanted).mpr fun mapping hmapping _ => hnone mapping hmapping

/-- Unmapping the last address alone leaves it mapped, and unmapping nothing takes
away a mapping. -/
theorem unmap_misjudges_twoEdges :
    let last : Span := ⟨0xffffffffffffffff, 1⟩
    let nothing : Span := ⟨0x8800, 0⟩
    (∃ mapping ∈ twoEdges.mappings, mapping.range.Meets last) ∧
      (twoEdges.unmap last).result = 0 ∧
      (TranslationAgent.translate (twoEdges.unmap last).state ⟨0xffffffffffffffff, .all⟩).answer =
        .ok ⟨0x14000, 0x4000, .all⟩ ∧
      (∀ mapping ∈ twoEdges.mappings, ¬ mapping.range.Meets nothing) ∧
      (twoEdges.unmap nothing).result = 1 := by
  intro last nothing
  rw [mappings_twoEdges]
  exact ⟨⟨_, List.mem_cons_self, by decide +kernel⟩, by decide +kernel,
    eq_ok_of_toOption (by decide +kernel), by decide +kernel, by decide +kernel⟩

end Iommu

end AtsEndpoint
