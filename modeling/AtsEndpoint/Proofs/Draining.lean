import AtsEndpoint.Notice

/-!
# What a drain leaves

Applying notices one after another keeps exactly the regions that none of them
hits, in their order. Nothing is added by a drain, so whatever holds of every
cached region survives it.
-/

namespace AtsEndpoint.NoticeQueue

/-- The notices of a list act together as one filter on the cache. -/
theorem regions_remains (cache : Cache) (notices : List Notice) :
    (remains cache notices).regions =
      cache.regions.filter fun region => !notices.any region.hasBoundaryIn := by
  induction notices generalizing cache with
  | nil => exact (List.filter_eq_self.mpr fun _ _ => rfl).symm
  | cons notice rest ih =>
      change (remains (cache.without notice) rest).regions = _
      rw [ih, Cache.without, List.filter_filter]
      simp only [List.any_cons, Bool.not_or, Bool.and_comm]

theorem mem_remains {cache : Cache} {notices : List Notice} {region : Region} :
    region ∈ (remains cache notices).regions ↔
      region ∈ cache.regions ∧ ∀ notice ∈ notices, region.hasBoundaryIn notice = false := by
  simp [regions_remains]

end AtsEndpoint.NoticeQueue
