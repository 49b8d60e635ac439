import AtsEndpoint.Iommu
import AtsEndpoint.Proofs.Alignment

/-!
# Mapping tables

The ends of ranges are cut off at the end of the address space when two ranges
are compared. On whole pages of at least two bytes this is exact: a page never
starts at the last address, so two ranges of pages that meet are seen to
overlap. A table that grows by accepted mappings alone therefore keeps its
mappings apart, and the first mapping that holds an address is the only one.
-/

namespace AtsEndpoint

/-- Clear low bits of a union are clear low bits of its parts. -/
theorem granuleOffset_or_eq_zero_iff {a b granule : UInt64} :
    granuleOffset (a ||| b) granule = 0 ↔
      granuleOffset a granule = 0 ∧ granuleOffset b granule = 0 := by
  have hsplit : granuleOffset (a ||| b) granule =
      granuleOffset a granule ||| granuleOffset b granule := by
    unfold granuleOffset
    rw [← UInt64.toBitVec_inj]
    simp only [UInt64.toBitVec_or, UInt64.toBitVec_and]
    ext i hi
    simp only [BitVec.getElem_or, BitVec.getElem_and, Bool.and_or_distrib_right]
  rw [hsplit]
  exact UInt64.or_eq_zero_iff

namespace Span

/-- No address lies in both spans. -/
def Apart (a b : Span) : Prop :=
  ∀ address, address ∈ a → address ∉ b

/-- An address beyond the start is below the end, cut off or not, unless the
start is the last address of all. -/
theorem lt_stop_of_mem {a : Span} {start address : Address} (hmem : address ∈ a)
    (hle : start ≤ address) (hstart : start.toNat + 1 < 2 ^ 64) : start < a.stop := by
  have hle := UInt64.le_iff_toNat_le.mp hle
  have hmem := mem_iff_toNat.mp hmem
  rw [UInt64.lt_iff_toNat_lt, stop, toNat_addSaturating]
  omega

/-- Ranges that do not start at the last address and do not overlap have no
address in common. -/
theorem apart_of_not_overlaps {a b : Span} (ha : a.start.toNat + 1 < 2 ^ 64)
    (hb : b.start.toNat + 1 < 2 ^ 64) (h : a.overlaps b = false) : a.Apart b := by
  intro address hmema hmemb
  have hoverlaps : a.overlaps b := overlaps_iff.mpr
    ⟨lt_stop_of_mem hmema hmemb.1 hb, lt_stop_of_mem hmemb hmema.1 ha⟩
  rw [h] at hoverlaps
  exact absurd hoverlaps Bool.false_ne_true

/-- Of two ranges that overlap and are not empty, the later start is in both. -/
theorem exists_mem_of_overlaps {a b : Span} (ha : a.length ≠ 0) (hb : b.length ≠ 0)
    (h : a.overlaps b) : ∃ address, address ∈ a ∧ address ∈ b := by
  have hapos := toNat_pos_of_ne_zero ha
  have hbpos := toNat_pos_of_ne_zero hb
  obtain ⟨hbefore, hbehind⟩ := overlaps_iff.mp h
  rw [UInt64.lt_iff_toNat_lt, stop, toNat_addSaturating] at hbefore hbehind
  rcases Nat.le_total a.start.toNat b.start.toNat with hle | hle
  · exact ⟨b.start, mem_iff_toNat.mpr ⟨hle, by omega⟩, mem_iff_toNat.mpr ⟨by omega, by omega⟩⟩
  · exact ⟨a.start, mem_iff_toNat.mpr ⟨by omega, by omega⟩, mem_iff_toNat.mpr ⟨hle, by omega⟩⟩

theorem Apart.symm {a b : Span} (h : a.Apart b) : b.Apart a :=
  fun address hb ha => h address ha hb

end Span

/-- A mapping is made of whole pages on both sides, at least one of them. -/
structure Mapping.IsPaged (mapping : Mapping) (pageSize : UInt64) : Prop where
  length_ne_zero : mapping.range.length ≠ 0
  dvd_start : pageSize.toNat ∣ mapping.range.start.toNat
  dvd_length : pageSize.toNat ∣ mapping.range.length.toNat
  dvd_target : pageSize.toNat ∣ mapping.target.toNat

/-- The physical side of a mapping ends inside the address space. -/
def Mapping.IsBounded (mapping : Mapping) : Prop :=
  mapping.target.toNat + mapping.range.length.toNat ≤ 2 ^ 64

instance (mapping : Mapping) : Decidable mapping.IsBounded :=
  inferInstanceAs (Decidable (_ ≤ _))

/-- A page of at least two bytes does not start at the last address. -/
theorem Mapping.IsPaged.start_lt {mapping : Mapping} {pageSize : UInt64}
    (h : mapping.IsPaged pageSize) (hpage : IsPowerOfTwo pageSize) (htwo : 2 ≤ pageSize) :
    mapping.range.start.toNat + 1 < 2 ^ 64 := by
  have haligned : Span.IsAligned ⟨mapping.range.start, pageSize⟩ := ⟨hpage, h.dvd_start⟩
  have hstop := haligned.stop_le
  have htwo := UInt64.le_iff_toNat_le.mp htwo
  change 2 ≤ _ at htwo
  dsimp only at hstop
  omega

/-- The image of an address inside a bounded mapping does not wrap. -/
theorem Mapping.IsBounded.toNat_image {mapping : Mapping} (h : mapping.IsBounded)
    {address : Address} (hmem : address ∈ mapping.range) :
    (mapping.image address).toNat =
      mapping.target.toNat + (address.toNat - mapping.range.start.toNat) := by
  have hlt := (Span.mem_iff_toNat.mp hmem).2
  have hle := (Span.mem_iff_toNat.mp hmem).1
  unfold IsBounded at h
  rw [image, UInt64.toNat_add, UInt64.toNat_sub_of_le _ _ hmem.1]
  exact Nat.mod_eq_of_lt (by omega)

/-- The mappings are made of whole pages, and no address is in two of them. -/
structure Layout (pageSize : UInt64) (mappings : List Mapping) : Prop where
  paged : ∀ mapping ∈ mappings, mapping.IsPaged pageSize
  apart : mappings.Pairwise fun a b => a.range.Apart b.range

namespace Layout

variable {pageSize : UInt64} {mappings others : List Mapping} {mapping : Mapping}

theorem nil : Layout pageSize [] :=
  ⟨by simp, .nil⟩

theorem sublist (h : Layout pageSize mappings) (hsublist : others.Sublist mappings) :
    Layout pageSize others :=
  ⟨fun mapping hmapping => h.paged mapping (hsublist.subset hmapping), h.apart.sublist hsublist⟩

theorem perm (h : Layout pageSize mappings) (hperm : mappings.Perm others) :
    Layout pageSize others :=
  ⟨fun mapping hmapping => h.paged mapping (hperm.mem_iff.mpr hmapping),
    hperm.pairwise h.apart Span.Apart.symm⟩

/-- One more mapping has to be made of whole pages and to hold no address that
is held already. -/
theorem append_singleton_iff (h : Layout pageSize mappings) :
    Layout pageSize (mappings ++ [mapping]) ↔
      mapping.IsPaged pageSize ∧ ∀ other ∈ mappings, other.range.Apart mapping.range := by
  constructor
  · intro hlayout
    obtain ⟨_, hpaged⟩ := List.forall_mem_append.mp hlayout.paged
    obtain ⟨_, _, hcross⟩ := List.pairwise_append.mp hlayout.apart
    refine ⟨hpaged mapping List.mem_cons_self, fun other hother => ?_⟩
    exact hcross other hother mapping List.mem_cons_self
  · rintro ⟨hpaged, hcross⟩
    refine ⟨List.forall_mem_append.mpr ⟨h.paged, List.forall_mem_singleton.mpr hpaged⟩, ?_⟩
    refine List.pairwise_append.mpr ⟨h.apart, List.pairwise_singleton _ _, fun other hother => ?_⟩
    exact List.forall_mem_singleton.mpr (hcross other hother)

/-- On whole pages the test of the ends is exact. -/
theorem overlaps_eq_false_iff {a b : Mapping} (hpage : IsPowerOfTwo pageSize)
    (htwo : 2 ≤ pageSize) (ha : a.IsPaged pageSize) (hb : b.IsPaged pageSize) :
    a.range.overlaps b.range = false ↔ a.range.Apart b.range := by
  constructor
  · exact Span.apart_of_not_overlaps (ha.start_lt hpage htwo) (hb.start_lt hpage htwo)
  · intro happart
    apply Bool.eq_false_iff.mpr
    intro hoverlaps
    obtain ⟨address, hmema, hmemb⟩ :=
      Span.exists_mem_of_overlaps ha.length_ne_zero hb.length_ne_zero hoverlaps
    exact happart address hmema hmemb

end Layout

namespace Iommu

/-- The tables that mapping and unmapping make, starting with an empty one.
Linking and the number of requests served do not matter. -/
inductive Built (pageSize granule : UInt64) : Iommu → Prop
  | empty (linked : Bool) (served : Nat) :
      Built pageSize granule { pageSize, granule, linked, served }
  | map {iommu : Iommu} (range : Span) (target : Address) (grants : Permissions)
      (h : Built pageSize granule iommu) :
      Built pageSize granule (iommu.map range target grants).state
  | unmap {iommu : Iommu} (range : Span) (h : Built pageSize granule iommu) :
      Built pageSize granule (iommu.unmap range).state
  | recount {iommu : Iommu} (linked : Bool) (served : Nat) (h : Built pageSize granule iommu) :
      Built pageSize granule { iommu with linked, served }

/-- What a mapping is checked for is that it is made of whole pages. -/
theorem isAligned_iff {iommu : Iommu} {range : Span} {target : Address}
    (hpage : IsPowerOfTwo iommu.pageSize) (grants : Permissions) :
    iommu.isAligned range target ↔ Mapping.IsPaged ⟨range, target, grants⟩ iommu.pageSize := by
  simp only [isAligned, Bool.decide_and, Bool.and_eq_true, decide_eq_true_eq,
    granuleOffset_or_eq_zero_iff]
  simp only [granuleOffset_eq_zero_iff hpage]
  constructor
  · rintro ⟨hne, ⟨hstart, htarget⟩, hlength⟩
    exact ⟨hne, hstart, hlength, htarget⟩
  · rintro ⟨hne, hstart, hlength, htarget⟩
    exact ⟨hne, ⟨hstart, htarget⟩, hlength⟩

/-- A request to map is refused and changes nothing, or adds one mapping that
is made of whole pages and overlaps none of the others. -/
theorem map_cases (iommu : Iommu) (range : Span) (target : Address) (grants : Permissions) :
    (∃ problem, (iommu.map range target grants).result = .error (.config problem) ∧
      (iommu.map range target grants).state = iommu) ∨
    (iommu.isAligned range target ∧
      (∀ mapping ∈ iommu.mappings, mapping.range.overlaps range = false) ∧
      (iommu.map range target grants).result = .ok () ∧
      (iommu.map range target grants).state =
        { iommu with mappings := iommu.mappings ++ [⟨range, target, grants⟩] }) := by
  unfold map
  split
  next => exact .inl ⟨_, rfl, rfl⟩
  next haligned =>
    split
    next => exact .inl ⟨_, rfl, rfl⟩
    next hfree => exact .inr ⟨by simpa using haligned, by simpa using hfree, rfl, rfl⟩

/-- A mapping is accepted if and only if the table with it is a layout. -/
theorem map_ok_iff {iommu : Iommu} {range : Span} {target : Address} {grants : Permissions}
    (hpage : IsPowerOfTwo iommu.pageSize) (htwo : 2 ≤ iommu.pageSize)
    (h : Layout iommu.pageSize iommu.mappings) :
    (iommu.map range target grants).result = .ok () ↔
      Layout iommu.pageSize (iommu.mappings ++ [⟨range, target, grants⟩]) := by
  rw [h.append_singleton_iff]
  constructor
  · intro hok
    obtain ⟨_, herror, _⟩ | ⟨haligned, hfree, _⟩ := iommu.map_cases range target grants
    · rw [hok] at herror
      cases herror
    · have hpaged := (isAligned_iff hpage grants).mp haligned
      refine ⟨hpaged, fun other hother => ?_⟩
      exact (Layout.overlaps_eq_false_iff hpage htwo (h.paged other hother) hpaged).mp
        (hfree other hother)
  · rintro ⟨hpaged, happart⟩
    have haligned := (isAligned_iff hpage grants).mpr hpaged
    have hfree : ¬ iommu.mappings.any fun mapping => mapping.range.overlaps range := by
      rw [List.any_eq_true]
      rintro ⟨other, hother, hoverlaps⟩
      rw [(Layout.overlaps_eq_false_iff hpage htwo (h.paged other hother) hpaged).mpr
        (happart other hother)] at hoverlaps
      cases hoverlaps
    rw [map, if_neg (by simpa using haligned), if_neg hfree]

/-- Of mappings that part an address, one at most holds it. -/
theorem eq_of_mem_of_pairwise {mappings : List Mapping} {address : Address}
    (h : mappings.Pairwise fun a b => address ∈ a.range → address ∉ b.range) {a b : Mapping}
    (ha : a ∈ mappings) (hb : b ∈ mappings) (hmema : address ∈ a.range)
    (hmemb : address ∈ b.range) : a = b := by
  induction mappings with
  | nil => cases ha
  | cons first rest ih =>
      obtain ⟨hfirst, hrest⟩ := List.pairwise_cons.mp h
      rcases List.mem_cons.mp ha with hafirst | harest <;>
        rcases List.mem_cons.mp hb with hbfirst | hbrest
      · rw [hafirst, hbfirst]
      · exact absurd hmemb (hfirst b hbrest (hafirst ▸ hmema))
      · exact absurd hmema (hfirst a harest (hbfirst ▸ hmemb))
      · exact ih hrest harest hbrest

/-- The only mapping that holds an address is found for it. -/
theorem find?_eq_of_unique {iommu : Iommu} {mapping : Mapping} {address : Address}
    (hmapping : mapping ∈ iommu.mappings) (hmem : address ∈ mapping.range)
    (hunique : ∀ other ∈ iommu.mappings, address ∈ other.range → other = mapping) :
    iommu.find? address = some mapping := by
  cases hfound : iommu.find? address with
  | none => simpa [hmem] using List.find?_eq_none.mp hfound mapping hmapping
  | some other =>
      have hother : address ∈ other.range := by simpa using List.find?_some hfound
      rw [hunique other (List.mem_of_find?_eq_some hfound) hother]

/-- Every mapping of the table is made of whole pages. -/
structure IsPaged (iommu : Iommu) : Prop where
  page : IsPowerOfTwo iommu.pageSize
  granule : IsPowerOfTwo iommu.granule
  paged : ∀ mapping ∈ iommu.mappings, mapping.IsPaged iommu.pageSize

/-- The pages have at least two bytes, and no two mappings meet. -/
structure IsTable (iommu : Iommu) : Prop extends iommu.IsPaged where
  two_le : 2 ≤ iommu.pageSize
  apart : iommu.mappings.Pairwise fun a b => a.range.Apart b.range

theorem IsPaged.map {iommu : Iommu} (h : iommu.IsPaged) (range : Span) (target : Address)
    (grants : Permissions) : (iommu.map range target grants).state.IsPaged := by
  obtain ⟨_, _, hsame⟩ | ⟨haligned, _, _, hadded⟩ := iommu.map_cases range target grants
  · rwa [hsame]
  · have hpaged := (isAligned_iff h.page grants).mp haligned
    rw [hadded]
    exact ⟨h.page, h.granule,
      List.forall_mem_append.mpr ⟨h.paged, List.forall_mem_singleton.mpr hpaged⟩⟩

theorem IsPaged.unmap {iommu : Iommu} (h : iommu.IsPaged) (range : Span) :
    (iommu.unmap range).state.IsPaged :=
  ⟨h.page, h.granule, fun mapping hmapping => h.paged mapping (List.mem_filter.mp hmapping).1⟩

namespace IsTable

variable {iommu : Iommu}

theorem layout (h : iommu.IsTable) : Layout iommu.pageSize iommu.mappings :=
  ⟨h.paged, h.apart⟩

theorem map (h : iommu.IsTable) (range : Span) (target : Address) (grants : Permissions) :
    (iommu.map range target grants).state.IsTable := by
  have hpaged := h.toIsPaged.map range target grants
  obtain ⟨_, _, hsame⟩ | ⟨_, _, hok, hadded⟩ := iommu.map_cases range target grants
  · rwa [hsame]
  · rw [hadded] at hpaged ⊢
    exact ⟨hpaged, h.two_le, ((map_ok_iff h.page h.two_le h.layout).mp hok).apart⟩

theorem unmap (h : iommu.IsTable) (range : Span) : (iommu.unmap range).state.IsTable :=
  ⟨h.toIsPaged.unmap range, h.two_le, h.apart.filter _⟩

/-- No address is held by two mappings. -/
theorem eq_of_mem (h : iommu.IsTable) {a b : Mapping} {address : Address}
    (ha : a ∈ iommu.mappings) (hb : b ∈ iommu.mappings) (hmema : address ∈ a.range)
    (hmemb : address ∈ b.range) : a = b :=
  eq_of_mem_of_pairwise (h.apart.imp fun happart => happart address) ha hb hmema hmemb

/-- The mapping that holds an address is the one that is found for it. -/
theorem find?_eq_of_mem (h : iommu.IsTable) {mapping : Mapping} {address : Address}
    (hmapping : mapping ∈ iommu.mappings) (hmem : address ∈ mapping.range) :
    iommu.find? address = some mapping :=
  find?_eq_of_unique hmapping hmem fun _ hother hheld => h.eq_of_mem hother hmapping hheld hmem

end IsTable

/-- Mapping changes nothing but the table. -/
theorem map_state (iommu : Iommu) (range : Span) (target : Address) (grants : Permissions) :
    ∃ mappings, (iommu.map range target grants).state = { iommu with mappings } := by
  obtain ⟨_, _, hsame⟩ | ⟨_, _, _, hadded⟩ := iommu.map_cases range target grants
  · exact ⟨iommu.mappings, hsame⟩
  · exact ⟨_, hadded⟩

theorem Built.pageSize_eq {pageSize granule : UInt64} {iommu : Iommu}
    (h : Built pageSize granule iommu) : iommu.pageSize = pageSize := by
  induction h with
  | empty => rfl
  | @map iommu range target grants _ ih =>
      obtain ⟨mappings, hstate⟩ := iommu.map_state range target grants
      rw [hstate]
      exact ih
  | unmap _ _ ih => exact ih
  | recount _ _ _ ih => exact ih

/-- Whatever comes to a table, it stays a layout. -/
theorem Built.layout {pageSize granule : UInt64} {iommu : Iommu}
    (h : Built pageSize granule iommu) (hpage : IsPowerOfTwo pageSize) (htwo : 2 ≤ pageSize) :
    Layout pageSize iommu.mappings := by
  induction h with
  | empty => exact .nil
  | @map iommu range target grants hbuilt ih =>
      obtain ⟨_, _, hsame⟩ | ⟨_, _, hok, hadded⟩ := iommu.map_cases range target grants
      · rwa [hsame]
      · rw [← hbuilt.pageSize_eq] at hpage htwo ih ⊢
        rw [hadded]
        exact (map_ok_iff hpage htwo ih).mp hok
  | unmap range _ ih => exact ih.sublist List.filter_sublist
  | recount _ _ _ ih => exact ih

theorem Built.isPaged {pageSize granule : UInt64} {iommu : Iommu}
    (h : Built pageSize granule iommu) (hpage : IsPowerOfTwo pageSize)
    (hgranule : IsPowerOfTwo granule) : iommu.IsPaged := by
  induction h with
  | empty linked served => exact ⟨hpage, hgranule, by simp⟩
  | map range target grants _ ih => exact ih.map range target grants
  | unmap range _ ih => exact ih.unmap range
  | recount linked served _ ih => exact ⟨ih.page, ih.granule, ih.paged⟩

/-- Every table that is built from pages of at least two bytes is kept apart. -/
theorem Built.isTable {pageSize granule : UInt64} {iommu : Iommu}
    (h : Built pageSize granule iommu) (hpage : IsPowerOfTwo pageSize) (htwo : 2 ≤ pageSize)
    (hgranule : IsPowerOfTwo granule) : iommu.IsTable :=
  ⟨h.isPaged hpage hgranule, h.pageSize_eq ▸ htwo, (h.layout hpage htwo).apart⟩

end Iommu

end AtsEndpoint
