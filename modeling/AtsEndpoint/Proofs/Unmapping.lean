import AtsEndpoint.Proofs.Transparency

/-!
# What unmapping leaves in the cache

Unmapping takes away every mapping that the range overlaps, but announces the
range alone, and a notice drops the regions that begin or end in its range. The
three meet where every cached region of a mapping that is taken away begins or
ends in the range: then nothing stale is left once the notice is applied.

A range that holds only part of a mapping can miss regions of this mapping.
They stay cached until another notice hits them. The same is true of a large
granule around a range of single pages.
-/

namespace AtsEndpoint

/-- Every address of the region is held by a mapping of the table that has the
same image for it and grants what the region grants. -/
def Iommu.Backs (iommu : Iommu) (region : Region) : Prop :=
  ∀ address ∈ region.span, ∃ mapping ∈ iommu.mappings, address ∈ mapping.range ∧
    region.translate address = mapping.image address ∧ region.grants = .all &&& mapping.grants

namespace Endpoint

/-- All cached regions agree with the table. -/
def Agrees (endpoint : SoftwareEndpoint) : Prop :=
  ∀ region ∈ endpoint.cache.regions, endpoint.agent.Backs region

/-- Every cached region that holds an address of a mapping that the range
overlaps begins or ends in the range. -/
def Announces (endpoint : SoftwareEndpoint) (range : Span) : Prop :=
  ∀ region ∈ endpoint.cache.regions, ∀ mapping ∈ endpoint.agent.mappings,
    mapping.range.overlaps range → ∀ address ∈ region.span, address ∈ mapping.range →
      region.hasBoundaryIn range

variable {endpoint : SoftwareEndpoint} {range : Span}

/-- The regions left are those that neither begin nor end in the range. -/
theorem mem_drain_unmapRange (hempty : endpoint.notices.waiting = [])
    (hlinked : endpoint.agent.linked = true) {region : Region} :
    region ∈ (endpoint.unmapRange range).state.drain.state.cache.regions ↔
      region ∈ endpoint.cache.regions ∧ region.hasBoundaryIn range = false := by
  rw [mem_drain, notices_unmapRange hlinked]
  simp only [NoticeQueue.waiting_post, hempty, List.nil_append, List.forall_mem_singleton]
  rfl

/-- Where the range is announced to every region concerned, nothing stale is
left. -/
theorem agrees_drain_unmapRange (hempty : endpoint.notices.waiting = [])
    (hlinked : endpoint.agent.linked = true) (hagrees : endpoint.Agrees)
    (hannounces : endpoint.Announces range) :
    (endpoint.unmapRange range).state.drain.state.Agrees := by
  intro region hregion address hmem
  obtain ⟨hcached, hmissed⟩ := (mem_drain_unmapRange hempty hlinked).mp hregion
  obtain ⟨mapping, hmapping, hholds, himage, hgrants⟩ := hagrees region hcached address hmem
  refine ⟨mapping, List.mem_filter.mpr ⟨hmapping, ?_⟩, hholds, himage, hgrants⟩
  cases hoverlaps : mapping.range.overlaps range with
  | false => rfl
  | true =>
      have hhit := hannounces region hcached mapping hmapping hoverlaps address hmem hholds
      simp [hmissed] at hhit

/-- Where it is not, a region of a mapping that is gone stays cached. -/
theorem announces_of_agrees (table : endpoint.agent.IsTable)
    (hempty : endpoint.notices.waiting = []) (hlinked : endpoint.agent.linked = true)
    (hagrees : (endpoint.unmapRange range).state.drain.state.Agrees) :
    endpoint.Announces range := by
  intro region hcached mapping hmapping hoverlaps address hmem hholds
  cases hmissed : region.hasBoundaryIn range with
  | true => rfl
  | false =>
      have hkept := (mem_drain_unmapRange hempty hlinked).mpr ⟨hcached, hmissed⟩
      obtain ⟨other, hother, hothers, _, _⟩ := hagrees region hkept address hmem
      obtain ⟨hlisted, hapart⟩ := List.mem_filter.mp hother
      rw [table.eq_of_mem hlisted hmapping hothers hholds, hoverlaps] at hapart
      exact absurd hapart Bool.false_ne_true

/-! ## Coherent endpoints -/

/-- In a coherent endpoint without waiting notices all cached regions agree
with the table. -/
theorem Coherent.agrees (h : endpoint.Coherent) (hempty : endpoint.notices.waiting = []) :
    endpoint.Agrees := by
  intro region hregion address hmem
  rcases h.lags.cache region hregion with ⟨mapping, hmapping, hcut⟩ | ⟨notice, hnotice, _⟩
  · have hpaged := h.table.paged mapping hmapping
    exact ⟨mapping, hmapping, hcut.mem_range h.table.toIsPaged hpaged hmem (.inl h.table.two_le),
      hcut.translate_eq h.table.toIsPaged hpaged hmem, hcut.grants_eq⟩
  · simp [hempty] at hnotice

/-- A range that contains every mapping it overlaps is announced to all regions
of these mappings. -/
theorem Coherent.announces (h : endpoint.Coherent) (hempty : endpoint.notices.waiting = [])
    (hcareful : (SoftwareAction.unmap range).IsCareful endpoint) : endpoint.Announces range := by
  intro region hregion mapping hmapping hoverlaps address hmem hholds
  rcases h.lags.cache region hregion with ⟨other, hother, hcut⟩ | ⟨notice, hnotice, _⟩
  · have hinside := hcut.mem_range h.table.toIsPaged (h.table.paged other hother) hmem
      (.inl h.table.two_le)
    obtain rfl := h.table.eq_of_mem hother hmapping hinside hholds
    exact hcut.hasBoundaryIn h.table hother (hcareful other hother hoverlaps)
  · simp [hempty] at hnotice

/-- A drain after an unmapping leaves the regions that neither begin nor end in
the range. They all agree with the table if the range is announced to every
region concerned, and on pages of at least two bytes only then. -/
theorem unmapRange_drain_agrees {pageSize granule : UInt64} {config : Config} {iommu : Iommu}
    {memory : HostMemory} {start : SoftwareEndpoint} (hbuilt : iommu.Built pageSize granule)
    (hboot : (bootLinked config iommu memory).1 = .ok start)
    (hreaches : Reaches (fun _ _ => True) start endpoint)
    (hempty : endpoint.notices.waiting = []) (hagrees : endpoint.Agrees) (range : Span) :
    let next := (endpoint.unmapRange range).state.drain.state
    (∀ region, region ∈ next.cache.regions ↔
      region ∈ endpoint.cache.regions ∧ region.hasBoundaryIn range = false) ∧
    (endpoint.Announces range → next.Agrees) ∧
    (IsPowerOfTwo pageSize → 2 ≤ pageSize → IsPowerOfTwo granule → next.Agrees →
      endpoint.Announces range) := by
  obtain ⟨hstart, hlinked⟩ := built_boot hbuilt hboot
  obtain ⟨hbuilt, hlinked⟩ := hreaches.built hstart hlinked
  refine ⟨fun _ => mem_drain_unmapRange hempty hlinked,
    agrees_drain_unmapRange hempty hlinked hagrees, ?_⟩
  intro hpage htwo hgranule hnext
  exact announces_of_agrees (hbuilt.isTable hpage htwo hgranule) hempty hlinked hnext

/-- An endpoint that has cached both pages of a mapping. -/
def twoPages : SoftwareEndpoint :=
  (fresh.after (.map ⟨0x8000, 0x2000⟩ 0x9000 .all)).after (.execute (.translate ⟨0x8000, 0x2000⟩))

theorem coherent_twoPages : twoPages.Coherent :=
  coherent_after (coherent_after coherent_fresh (.map ⟨0x8000, 0x2000⟩ 0x9000 .all) trivial)
    (.execute (.translate ⟨0x8000, 0x2000⟩)) trivial

theorem reaches_twoPages : Reaches (fun _ _ => True) fresh twoPages :=
  .step (.step .start (.map ⟨0x8000, 0x2000⟩ 0x9000 .all) trivial)
    (.execute (.translate ⟨0x8000, 0x2000⟩)) trivial

theorem waiting_twoPages : twoPages.notices.waiting = [] := by
  decide +kernel

/-- Unmapping the mapping as a whole leaves nothing stale. -/
theorem agrees_unmapRange_twoPages :
    (twoPages.unmapRange ⟨0x8000, 0x2000⟩).state.drain.state.Agrees := by
  have hmappings : twoPages.agent.mappings = [⟨⟨0x8000, 0x2000⟩, 0x9000, .all⟩] := by
    decide +kernel
  have hcareful : (SoftwareAction.unmap ⟨0x8000, 0x2000⟩).IsCareful twoPages := by
    intro mapping hmapping _ address hmem
    rw [hmappings, List.mem_singleton] at hmapping
    rwa [hmapping] at hmem
  exact (unmapRange_drain_agrees (.empty false 0) boot_fresh reaches_twoPages waiting_twoPages
    (coherent_twoPages.agrees waiting_twoPages) ⟨0x8000, 0x2000⟩).2.1
    (coherent_twoPages.announces waiting_twoPages hcareful)

/-- Unmapping the second page takes away the whole mapping, and the translation
of the first page stays cached. -/
theorem stale_unmapRange_twoPages :
    (bootLinked {} {} (.zeroed 0x8000 0x4000)).1 = .ok fresh ∧
      Reaches (fun _ _ => True) fresh twoPages ∧
      twoPages.notices.waiting = [] ∧ twoPages.Agrees ∧
      ¬ (twoPages.unmapRange ⟨0x9000, 0x1000⟩).state.drain.state.Agrees := by
  refine ⟨boot_fresh, reaches_twoPages, waiting_twoPages,
    coherent_twoPages.agrees waiting_twoPages, ?_⟩
  intro hagrees
  have hcached :
      (twoPages.unmapRange ⟨0x9000, 0x1000⟩).state.drain.state.cache.contains 0x8000 := by
    decide +kernel
  have hgone : (twoPages.unmapRange ⟨0x9000, 0x1000⟩).state.drain.state.agent.mappings = [] := by
    decide +kernel
  obtain ⟨region, hregion, hmem⟩ := Cache.contains_iff.mp hcached
  obtain ⟨mapping, hmapping, _⟩ := hagrees region hregion 0x8000 hmem
  rw [hgone] at hmapping
  cases hmapping

end Endpoint

end AtsEndpoint
