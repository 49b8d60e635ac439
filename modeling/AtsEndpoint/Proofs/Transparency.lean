import AtsEndpoint.Proofs.Lockstep
import AtsEndpoint.Proofs.Runs

/-!
# The cache cannot be seen

An endpoint is coherent when every cached region is cut from a mapping that the
table still has, or else is about to be dropped by a notice that waits. Actions
keep an endpoint coherent as long as nothing is unmapped in part: a mapping that
an unmapping takes away must lie inside the range that is announced for it, so
that the notice hits every region cut from it.

The scheduler applies the waiting notices before each request. So in every
state that is reached, queued requests end as they would without a cache.
-/

namespace AtsEndpoint

/-- Whatever the action unmaps lies inside the range given. -/
def SoftwareAction.IsCareful (endpoint : SoftwareEndpoint) : SoftwareAction → Prop
  | .unmap range => ∀ mapping ∈ endpoint.agent.mappings, mapping.range.overlaps range →
      ∀ address ∈ mapping.range, address ∈ range
  | _ => True

namespace Iommu

variable {iommu : Iommu} {region : Region}

/-- A region that is cut from a mapping stays so when more is mapped. -/
theorem isCut_map (h : iommu.IsCut region) (range : Span) (target : Address)
    (grants : Permissions) : (iommu.map range target grants).state.IsCut region := by
  obtain ⟨_, _, hsame⟩ | ⟨_, _, _, hadded⟩ := iommu.map_cases range target grants
  · rwa [hsame]
  · obtain ⟨mapping, hmapping, hcut⟩ := h
    rw [hadded]
    exact ⟨mapping, List.mem_append_left _ hmapping, hcut⟩

/-- A notice for a range that contains a mapping hits every region cut from it. -/
theorem Cuts.hasBoundaryIn {mapping : Mapping} (hcut : iommu.Cuts mapping region)
    (table : iommu.IsTable) (hmapping : mapping ∈ iommu.mappings) {range : Span}
    (hcontains : ∀ address ∈ mapping.range, address ∈ range) : region.hasBoundaryIn range := by
  have hpaged := table.paged mapping hmapping
  have haligned := (hcut.isNatural table.toIsPaged hpaged).span_aligned
  have hstart := hcut.mem_range table.toIsPaged hpaged haligned.start_mem (.inl table.two_le)
  exact Region.hasBoundaryIn_iff.mpr (.inl (hcontains region.span.start hstart))

/-- A region is still cut from the table after an unmapping, or the notice for
the range hits it. -/
theorem isCut_unmap (table : iommu.IsTable) (h : iommu.IsCut region) {range : Span}
    (hcareful : ∀ mapping ∈ iommu.mappings, mapping.range.overlaps range →
      ∀ address ∈ mapping.range, address ∈ range) :
    (iommu.unmap range).state.IsCut region ∨ region.hasBoundaryIn range := by
  obtain ⟨mapping, hmapping, hcut⟩ := h
  cases hoverlaps : mapping.range.overlaps range with
  | false => exact .inl ⟨mapping, List.mem_filter.mpr ⟨hmapping, by simp [hoverlaps]⟩, hcut⟩
  | true =>
      exact .inr (hcut.hasBoundaryIn table hmapping (hcareful mapping hmapping hoverlaps))

end Iommu

namespace Endpoint

/-- Every cached region is cut from the table, or is about to be dropped. -/
structure Coherent (endpoint : SoftwareEndpoint) : Prop where
  table : endpoint.agent.IsTable
  linked : endpoint.agent.linked = true
  covers : endpoint.config.granule ≤ endpoint.agent.pageSize
  lags : endpoint.Lags endpoint.agent.Later endpoint.agent.IsCut

variable {endpoint next : SoftwareEndpoint}

/-- What comes up has the agent and the configuration given, and nothing cached. -/
theorem boot_eq {config : Config} {iommu : Iommu} {memory : HostMemory}
    (h : (bootLinked config iommu memory).1 = .ok endpoint) :
    endpoint.agent = { iommu with linked := true } ∧ endpoint.config = config ∧
      endpoint.cache = {} := by
  unfold bootLinked boot at h
  split at h
  · cases h
    exact ⟨rfl, rfl, rfl⟩
  · cases h

theorem built_boot {pageSize granule : UInt64} {config : Config} {iommu : Iommu}
    {memory : HostMemory} (hbuilt : iommu.Built pageSize granule)
    (hboot : (bootLinked config iommu memory).1 = .ok endpoint) :
    endpoint.agent.Built pageSize granule ∧ endpoint.agent.linked = true := by
  rw [(boot_eq hboot).1]
  exact ⟨hbuilt.recount true iommu.served, rfl⟩

theorem coherent_boot {pageSize granule : UInt64} {config : Config} {iommu : Iommu}
    {memory : HostMemory} (hbuilt : iommu.Built pageSize granule) (hpage : IsPowerOfTwo pageSize)
    (htwo : 2 ≤ pageSize) (hgranule : IsPowerOfTwo granule) (hcovers : config.granule ≤ pageSize)
    (hboot : (bootLinked config iommu memory).1 = .ok endpoint) : endpoint.Coherent := by
  obtain ⟨hbuilt, hlinked⟩ := built_boot hbuilt hboot
  obtain ⟨_, hconfig, hcache⟩ := boot_eq hboot
  refine ⟨hbuilt.isTable hpage htwo hgranule, hlinked, ?_, .refl _, ?_⟩
  · rw [hconfig, hbuilt.pageSize_eq]
    exact hcovers
  · simp [hcache]

namespace Coherent

theorem of_frames (h : endpoint.Coherent) (hframes : endpoint.Frames next) : next.Coherent := by
  obtain ⟨htable, hlinked, hcovers, hlags⟩ := h
  rw [← hframes.agent] at htable hlinked hcovers hlags
  rw [← hframes.config] at hcovers
  exact ⟨htable, hlinked, hcovers, hframes.lags hlags⟩

/-- Work changes no more of the agent than its counter. -/
theorem of_lags (h : endpoint.Coherent) (hconfig : next.config = endpoint.config)
    (hlags : next.Lags endpoint.agent.Later endpoint.agent.IsCut) : next.Coherent := by
  have hlater := hlags.agent
  refine ⟨hlater.isTable h.table, ?_, ?_, hlags.mono (.refl _) fun _ => hlater.isCut⟩
  · obtain ⟨served, hserved⟩ := hlater
    rw [hserved]
    exact h.linked
  · obtain ⟨served, hserved⟩ := hlater
    rw [hserved, hconfig]
    exact h.covers

theorem map (h : endpoint.Coherent) (range : Span) (target : Address) (grants : Permissions) :
    (endpoint.mapRange range target grants).state.Coherent := by
  have hcut (region : Region) (hregion : endpoint.agent.IsCut region) :=
    Iommu.isCut_map hregion range target grants
  obtain ⟨mappings, hstate⟩ := endpoint.agent.map_state range target grants
  have hlinked : (endpoint.agent.map range target grants).state.linked = true := by
    rw [hstate]
    exact h.linked
  have hcovers : endpoint.config.granule ≤
      (endpoint.agent.map range target grants).state.pageSize := by
    rw [hstate]
    exact h.covers
  exact ⟨h.table.map range target grants, hlinked, hcovers, .refl _,
    fun region hregion => (h.lags.cache region hregion).imp_left (hcut region)⟩

/-- The notice for the range hits every region whose mapping is taken away. -/
theorem unmap (h : endpoint.Coherent) {range : Span}
    (hcareful : (SoftwareAction.unmap range).IsCareful endpoint) :
    (endpoint.unmapRange range).state.Coherent := by
  refine ⟨h.table.unmap range, h.linked, h.covers, .refl _, ?_⟩
  intro region hregion
  rw [notices_unmapRange h.linked]
  rcases h.lags.cache region hregion with hcut | ⟨notice, hnotice, hhit⟩
  · refine (Iommu.isCut_unmap h.table hcut hcareful).imp_right fun hhit => ?_
    exact ⟨range, List.mem_append_right _ (List.mem_singleton_self _), hhit⟩
  · exact .inr ⟨notice, List.mem_append_left _ hnotice, hhit⟩

end Coherent

/-- Careful actions keep an endpoint coherent. -/
theorem coherent_after (h : endpoint.Coherent) (action : SoftwareAction)
    (hcareful : action.IsCareful endpoint) : (endpoint.after action).Coherent := by
  obtain ⟨range, target, grants, rfl⟩ | ⟨range, rfl⟩ | rfl | ⟨request, rfl⟩ | hframes :=
    endpoint.after_cases action
  · exact h.map range target grants
  · exact h.unmap hcareful
  · exact h.of_lags (config_runPending endpoint) (lags_runPending endpoint.agent.yields h.lags)
  · exact h.of_lags rfl (execute_invariant endpoint
      (P := fun datapath => datapath.Lags endpoint.agent.Later endpoint.agent.IsCut)
      (Datapath.Lags.invariant endpoint.agent.yields) h.lags request)
  · exact h.of_frames hframes

theorem Reaches.coherent {start : SoftwareEndpoint}
    (h : Reaches SoftwareAction.IsCareful start endpoint) (hstart : start.Coherent) :
    endpoint.Coherent :=
  h.invariant hstart fun _ action hcoherent => coherent_after hcoherent action

/-- In every state that careful actions lead to, queued requests end as they do
without a cache, by the current table alone: each request is reported alike, and
registers and memory are left alike. -/
theorem runPending_eq_uncached {pageSize granule : UInt64} {config : Config} {iommu : Iommu}
    {memory : HostMemory} {start : SoftwareEndpoint} (hbuilt : iommu.Built pageSize granule)
    (hpage : IsPowerOfTwo pageSize) (htwo : 2 ≤ pageSize) (hgranule : IsPowerOfTwo granule)
    (hcovers : config.granule ≤ pageSize)
    (hboot : (bootLinked config iommu memory).1 = .ok start)
    (hreaches : Reaches SoftwareAction.IsCareful start endpoint) :
    endpoint.runPending.uncached =
      endpoint.uncached.runPending endpoint.agent endpoint.config.onFailure := by
  have hcoherent := hreaches.coherent (coherent_boot hbuilt hpage htwo hgranule hcovers hboot)
  have hlags : endpoint.Lags endpoint.agent.Later hcoherent.table.blocks.IsBlock :=
    hcoherent.lags.mono (.refl _) fun _ => hcoherent.table.isBlock_iff.mpr
  have hgranule : endpoint.granule.bytes ≤ endpoint.agent.pageSize := hcoherent.covers
  exact runPending_uncached hcoherent.table hlags (hcoherent.table.coversGranule hgranule)

theorem coherent_fresh : fresh.Coherent :=
  coherent_boot (.empty false 0) ⟨12, rfl⟩ (by decide) ⟨12, rfl⟩ (UInt64.le_refl 4096) boot_fresh

/-- A word is read while the translation of a range that was unmapped and mapped
again elsewhere is still cached, with the notice for it waiting. -/
theorem runPending_eq_uncached_of_remapped :
    let cached := (fresh.after (.map ⟨0x1000, 0x2000⟩ 0x9000 .all)).after (.execute (.read 0x1000))
    let remapped := (cached.after (.unmap ⟨0x1000, 0x2000⟩)).after
      (.map ⟨0x1000, 0x1000⟩ 0xa000 .read)
    let endpoint := (remapped.after (.writeRegister Register.addrLsb.offset 0x1000)).after
      (.writeRegister Register.ctrl.offset Control.read)
    endpoint.cache.translate? 0x1000 = some 0x9000 ∧
      endpoint.runPending.uncached =
        endpoint.uncached.runPending endpoint.agent endpoint.config.onFailure := by
  intro cached remapped endpoint
  have hmappings : cached.agent.mappings = [⟨⟨0x1000, 0x2000⟩, 0x9000, .all⟩] := by
    simp only [cached]
    decide +kernel
  have hcareful : (SoftwareAction.unmap ⟨0x1000, 0x2000⟩).IsCareful cached := by
    intro mapping hmapping _ address hmem
    rw [hmappings, List.mem_singleton] at hmapping
    rwa [hmapping] at hmem
  have hcached : endpoint.cache.translate? 0x1000 = some 0x9000 := by
    simp only [endpoint, remapped, cached]
    decide +kernel
  have hreached : Reaches SoftwareAction.IsCareful fresh cached :=
    .step (.step .start (.map ⟨0x1000, 0x2000⟩ 0x9000 .all) trivial) (.execute (.read 0x1000))
      trivial
  have hremapped : Reaches SoftwareAction.IsCareful fresh remapped :=
    .step (.step hreached (.unmap ⟨0x1000, 0x2000⟩) hcareful) (.map ⟨0x1000, 0x1000⟩ 0xa000 .read)
      trivial
  have hprogrammed : Reaches SoftwareAction.IsCareful fresh endpoint :=
    .step (.step hremapped (.writeRegister Register.addrLsb.offset 0x1000) trivial)
      (.writeRegister Register.ctrl.offset Control.read) trivial
  exact ⟨hcached, runPending_eq_uncached (.empty false 0) ⟨12, rfl⟩ (by decide) ⟨12, rfl⟩
    (UInt64.le_refl 4096) boot_fresh hprogrammed⟩

end Endpoint

end AtsEndpoint
