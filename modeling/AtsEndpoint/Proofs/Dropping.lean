import AtsEndpoint.Cache
import AtsEndpoint.Proofs.Meeting

/-!
# What an invalidation drops

One invalidation drops the regions that have an address in the range, the other one
those that have their first or their last address in it. Both look at ends that are
cut off at the end of the address space, and there they stay exact, since the first
and the last address of a region are addresses that it holds.

A region with an end in the range has an address in the range. The other way round,
a region that has an address in the range and no end holds addresses on both sides of
it: it encloses the range.
-/

namespace AtsEndpoint

namespace Region

/-- The address is the first or the last one that the region holds. -/
structure IsEnd (region : Region) (address : Address) : Prop where
  mem : address ∈ region.span
  extreme : (∀ other ∈ region.span, address ≤ other) ∨ ∀ other ∈ region.span, other ≤ address

/-- The first or the last address of the region lies in the range. -/
def EndsIn (region : Region) (range : Span) : Prop :=
  ∃ address ∈ range, region.IsEnd address

/-- The region begins before the range and ends behind it. -/
structure Encloses (region : Region) (range : Span) : Prop where
  before : ∃ address ∈ region.span, ∀ other ∈ range, address < other
  behind : ∃ address ∈ region.span, ∀ other ∈ range, other < address

variable {region : Region} {range : Span} {address : Address}

theorem start_mem (region : Region) : region.span.start ∈ region.span :=
  Span.start_mem region.length_ne_zero

theorem mem_iff_le_last : address ∈ region.span ↔ region.span.start ≤ address ∧
    address ≤ region.last :=
  Span.mem_iff_le_last region.length_ne_zero

theorem last_mem (region : Region) : region.last ∈ region.span :=
  Span.last_mem_of_ne_zero region.length_ne_zero

theorem isEnd_iff : region.IsEnd address ↔ address = region.span.start ∨ address = region.last := by
  constructor
  · rintro ⟨hmem, hfirst | hlast⟩
    · exact .inl (UInt64.le_antisymm (hfirst _ region.start_mem) hmem.1)
    · exact .inr (UInt64.le_antisymm (mem_iff_le_last.mp hmem).2 (hlast _ region.last_mem))
  · rintro (rfl | rfl)
    · exact ⟨region.start_mem, .inl fun other hother => hother.1⟩
    · exact ⟨region.last_mem, .inr fun other hother => (mem_iff_le_last.mp hother).2⟩

theorem hasBoundaryIn_iff_endsIn : region.hasBoundaryIn range ↔ region.EndsIn range := by
  simp only [hasBoundaryIn_iff, EndsIn, isEnd_iff]
  constructor
  · rintro (hstart | hlast)
    · exact ⟨_, hstart, .inl rfl⟩
    · exact ⟨_, hlast, .inr rfl⟩
  · rintro ⟨address, hmem, rfl | rfl⟩
    · exact .inl hmem
    · exact .inr hmem

instance (region : Region) (range : Span) : Decidable (region.EndsIn range) :=
  decidable_of_iff _ hasBoundaryIn_iff_endsIn

theorem meets_iff_span_meets : region.meets range ↔ region.span.Meets range := by
  rw [meets_iff]
  constructor
  · rintro ⟨hrange, hbefore, hbehind⟩
    rcases UInt64.le_total region.span.start range.start with hle | hle
    · exact ⟨range.start, mem_iff_le_last.mpr ⟨hle, hbehind⟩, Span.start_mem hrange⟩
    · exact ⟨region.span.start, region.start_mem,
        (Span.mem_iff_le_last hrange).mpr ⟨hle, hbefore⟩⟩
  · rintro ⟨address, hheld, hmem⟩
    have hrange := Span.length_ne_zero_of_mem hmem
    have hheld := mem_iff_le_last.mp hheld
    have hmem := (Span.mem_iff_le_last hrange).mp hmem
    exact ⟨hrange, UInt64.le_trans hheld.1 hmem.2, UInt64.le_trans hmem.1 hheld.2⟩

theorem EndsIn.meets (h : region.EndsIn range) : region.span.Meets range := by
  obtain ⟨address, hmem, hend⟩ := h
  exact ⟨address, hend.mem, hmem⟩

/-- A range that is not empty is enclosed by its ends. -/
theorem encloses_iff (hrange : range.length ≠ 0) :
    region.Encloses range ↔ region.span.start < range.start ∧ range.last < region.last := by
  have hfirst := Span.start_mem hrange
  have hlast := Span.last_mem_of_ne_zero hrange
  constructor
  · rintro ⟨⟨before, hbefore, hlow⟩, ⟨behind, hbehind, hhigh⟩⟩
    exact ⟨UInt64.lt_of_le_of_lt hbefore.1 (hlow _ hfirst),
      UInt64.lt_of_lt_of_le (hhigh _ hlast) (mem_iff_le_last.mp hbehind).2⟩
  · rintro ⟨hlow, hhigh⟩
    exact ⟨⟨_, region.start_mem, fun other hother => UInt64.lt_of_lt_of_le hlow hother.1⟩,
      ⟨_, region.last_mem, fun other hother =>
        UInt64.lt_of_le_of_lt ((Span.mem_iff_le_last hrange).mp hother).2 hhigh⟩⟩

/-- A region that meets a range and has no end in it is on both sides of it. -/
theorem meets_and_not_endsIn_iff (hrange : range.length ≠ 0) :
    region.span.Meets range ∧ ¬ region.EndsIn range ↔ region.Encloses range := by
  rw [encloses_iff hrange, ← meets_iff_span_meets, ← hasBoundaryIn_iff_endsIn, meets_iff,
    and_iff_right hrange, hasBoundaryIn_iff, Span.mem_iff_le_last hrange,
    Span.mem_iff_le_last hrange]
  have hregion := (mem_iff_le_last.mp region.start_mem).2
  have hordered := ((Span.mem_iff_le_last hrange).mp (Span.start_mem hrange)).2
  simp only [UInt64.le_iff_toNat_le, UInt64.lt_iff_toNat_lt] at *
  omega

end Region

namespace Cache

/-- What an operation on a cache drops: the regions with a property. The others stay
in their order, those dropped are counted, and when the operation is made again it
finds nothing to drop. -/
structure Drops (operation : Cache → Step Cache Nat) (dropped : Region → Prop)
    [DecidablePred dropped] : Prop where
  regions : ∀ cache, (operation cache).state.regions =
    cache.regions.filter fun region => ¬ dropped region
  count : ∀ cache, (operation cache).result = cache.regions.countP fun region => dropped region
  state_again : ∀ cache, (operation (operation cache).state).state = (operation cache).state
  count_again : ∀ cache, (operation (operation cache).state).result = 0

/-- An operation that keeps the regions that pass a test, and counts the others. -/
theorem Drops.of_filter {operation : Cache → Step Cache Nat} {dropped : Region → Prop}
    [DecidablePred dropped] {test : Region → Bool} (htest : ∀ region, test region ↔ dropped region)
    (hstate : ∀ cache, (operation cache).state.regions =
      cache.regions.filter fun region => !test region)
    (hcount : ∀ cache, (operation cache).result = cache.size - (operation cache).state.size) :
    Drops operation dropped := by
  obtain rfl : test = fun region => decide (dropped region) := by
    funext region
    rw [Bool.eq_iff_iff, htest, decide_eq_true_eq]
  have hresult (cache : Cache) :
      (operation cache).result = cache.regions.countP fun region => dropped region := by
    have hkept : (operation cache).state.regions = cache.regions.filter fun region =>
        ¬ dropped region := by
      rw [hstate]
      simp only [decide_not]
    rw [hcount, size, size, hkept]
    exact Nat.sub_eq_of_eq_add (countP_add_length_filter_not _ _).symm
  have hnone (cache : Cache) :
      ∀ region ∈ (operation cache).state.regions, ¬ dropped region := by
    intro region hregion
    rw [hstate] at hregion
    simpa using (List.mem_filter.mp hregion).2
  refine ⟨fun cache => ?_, hresult, fun cache => ?_, fun cache => ?_⟩
  · simp only [hstate, decide_not]
  · have hkept : (operation (operation cache).state).state.regions = _ := hstate _
    rw [List.filter_eq_self.mpr (by simpa using hnone cache)] at hkept
    exact congrArg Cache.mk hkept
  · rw [hresult, List.countP_eq_zero]
    simpa using hnone cache

theorem Drops.mem_iff {operation : Cache → Step Cache Nat} {dropped : Region → Prop}
    [DecidablePred dropped] (h : Drops operation dropped) {cache : Cache} {region : Region} :
    region ∈ (operation cache).state.regions ↔ region ∈ cache.regions ∧ ¬ dropped region := by
  simp [h.regions]

theorem drops_invalidateOverlapping (range : Span) :
    Drops (fun cache => cache.invalidateOverlapping range) fun region =>
      region.span.Meets range :=
  .of_filter (fun _ => Region.meets_iff_span_meets) (fun _ => rfl) fun _ => rfl

theorem drops_invalidate (range : Span) :
    Drops (fun cache => cache.invalidate range) fun region => region.EndsIn range :=
  .of_filter (fun _ => Region.hasBoundaryIn_iff_endsIn) (fun _ => rfl) fun _ => rfl

/-- One invalidation drops the regions that hold an address of the range, so that
none of its addresses is cached afterwards, and the other one those with an end in
the range. What the second drops the first drops as well, and if the range is not
empty, then the first drops besides just the regions that enclose it. -/
theorem invalidations_exact (range : Span) :
    Drops (fun cache => cache.invalidateOverlapping range)
        (fun region => region.span.Meets range) ∧
      Drops (fun cache => cache.invalidate range) (fun region => region.EndsIn range) ∧
      ∀ cache : Cache,
        let overlapping := (cache.invalidateOverlapping range).state
        let ending := (cache.invalidate range).state
        (∀ address ∈ range, overlapping.contains address = false) ∧
          ∀ region ∈ cache.regions,
            (region ∉ ending.regions → region ∉ overlapping.regions) ∧
            (range.length ≠ 0 →
              (region ∈ ending.regions ∧ region ∉ overlapping.regions ↔
                region.Encloses range)) := by
  have hoverlapping := drops_invalidateOverlapping range
  have hending := drops_invalidate range
  refine ⟨hoverlapping, hending, fun cache => ⟨?_, fun region hregion => ⟨?_, ?_⟩⟩⟩
  · intro address hmem
    rw [← Bool.not_eq_true, contains_iff]
    rintro ⟨region, hkept, hheld⟩
    exact (hoverlapping.mem_iff.mp hkept).2 ⟨address, hheld, hmem⟩
  · intro hdropped hkept
    obtain ⟨-, hapart⟩ := hoverlapping.mem_iff.mp hkept
    exact hdropped (hending.mem_iff.mpr ⟨hregion, fun hends => hapart hends.meets⟩)
  · intro hrange
    rw [hending.mem_iff, hoverlapping.mem_iff, ← Region.meets_and_not_endsIn_iff hrange]
    simp only [hregion, true_and, Classical.not_not]
    exact and_comm

/-- A page, a large region around it, and a region that passes the end of the address
space. -/
def nested : Cache :=
  ⟨[⟨⟨0x1000, 0x1000⟩, 0x9000, .all, by decide⟩, ⟨⟨0, 0x200000⟩, 0, .all, by decide⟩,
    ⟨⟨0xfffffffffffff000, 0x2000⟩, 0x8000, .all, by decide⟩]⟩

/-- A range inside the page is enclosed by the page and by the large region. A range
at the end of the address space is not enclosed by the region there: the two end with
the same address. -/
theorem invalidations_exact_nested :
    let inside : Span := ⟨0x1800, 0x10⟩
    let atEnd : Span := ⟨0xfffffffffffff800, 0x1000⟩
    (nested.invalidate inside).result = 0 ∧ (nested.invalidateOverlapping inside).result = 2 ∧
      (∀ region ∈ nested.regions.take 2, region.Encloses inside) ∧
      (nested.invalidateOverlapping inside).state.contains 0x1804 = false ∧
      (nested.invalidate atEnd).result = 1 ∧
      ∀ region ∈ nested.regions, ¬ region.Encloses atEnd := by
  intro inside atEnd
  obtain ⟨hoverlapping, hending, hinside⟩ := invalidations_exact inside
  obtain ⟨-, hendingAtEnd, hatEnd⟩ := invalidations_exact atEnd
  obtain ⟨hfree, hdifference⟩ := hinside nested
  refine ⟨?_, ?_, ?_, hfree 0x1804 (by decide), ?_, ?_⟩
  · rw [hending.count]
    decide +kernel
  · rw [hoverlapping.count]
    decide +kernel
  · intro region hregion
    apply ((hdifference region (List.mem_of_mem_take hregion)).2 (by decide)).mp
    revert region
    decide +kernel
  · rw [hendingAtEnd.count]
    decide +kernel
  · intro region hregion
    rw [← ((hatEnd nested).2 region hregion).2 (by decide)]
    revert region
    decide +kernel

end Cache

end AtsEndpoint
