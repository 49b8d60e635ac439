import AtsEndpoint.Proofs.Mounting

/-!
# Filling ahead over a buffer

The strides of a translate-ahead over a buffer begin where its pages do. As long
as nothing is cached from there on, each of them brings the page that it begins
with and no other. So filling ahead over some pages that are not cached caches
each of them once.
-/

namespace AtsEndpoint

variable {μ : Type v} {buffer : Buffer}

/-- A software IOMMU posts nothing while it answers. -/
theorem Iommu.posted_translate (iommu : Iommu) (request : TranslationRequest) :
    (TranslationAgent.translate iommu request).posted = [] := by
  simp only [TranslationAgent.translate]
  split <;> rfl

namespace Buffer

variable {position : Nat}

/-- A page that begins at a position. -/
theorem span_pageAt (hdvd : buffer.page.bytes.toNat ∣ (buffer.address position).toNat) :
    (buffer.pageAt (buffer.address position)).span =
      ⟨buffer.address position, buffer.page.bytes⟩ := by
  simp only [pageAt, Region.ofTranslation, Iommu.answer, buffer.answerLength_iommu,
    alignDown_eq_self buffer.page.isPowerOfTwo hdvd]

theorem addChecked?_address {count : UInt64} (h : position + count.toNat < buffer.size) :
    addChecked? (buffer.address position) count =
      some (buffer.address (position + count.toNat)) := by
  have hstop : buffer.mapping.range.start.toNat + buffer.size ≤ 2 ^ 64 := buffer.stop_le
  have hfits : ¬ buffer.address position + count < buffer.address position := by
    rw [add_lt_left_iff, toNat_address (Nat.lt_of_le_of_lt (Nat.le_add_right _ _) h)]
    omega
  rw [addChecked?, if_neg hfits, buffer.address_add]

end Buffer

/-- A fill from the start of a granule on is not widened. -/
theorem Fill.run_of_dvd {α : Type u} [TranslationAgent α] {granule : UInt64}
    (hgranule : IsPowerOfTwo granule) (agent : α) {range : Span}
    (hdvd : granule.toNat ∣ range.start.toNat) :
    Fill.run granule agent range = Fill.walk { agent } range.start range.length := by
  have hoffset := (granuleOffset_eq_zero_iff hgranule).mpr hdvd
  have hwanted : addSaturating range.length 0 = range.length := by
    simp [addSaturating]
  rw [Fill.run, alignDown_eq_self hgranule hdvd, hoffset, hwanted]

/-- A walk that wants no more than a page of the buffer keeps this page. -/
theorem Fill.walk_page (fill : Fill Iommu) (hagent : buffer.iommu.Later fill.agent)
    {address : Address} (hmem : address ∈ buffer.mapping.range) {remaining : UInt64}
    (hremaining : remaining ≠ 0) (hle : remaining ≤ buffer.page.bytes) :
    (fill.walk address remaining).regions = fill.regions.push (buffer.pageAt address) ∧
      (fill.walk address remaining).posted = fill.posted ∧
      buffer.iommu.Later (fill.walk address remaining).agent := by
  let answer := buffer.iommu.answer buffer.mapping ⟨address, .all⟩
  have hlength : answer.length = buffer.page.bytes := buffer.answerLength_iommu address
  have hanswer : (TranslationAgent.translate fill.agent ⟨address, .all⟩).answer = .ok answer := by
    have hfound := buffer.find?_iommu address
    rw [if_pos hmem] at hfound
    rw [hagent.answer_eq, hfound]
  have hasked : fill.ask ⟨address, .all⟩ = (.ok answer, (fill.ask ⟨address, .all⟩).2) := by
    rw [← hanswer]
    rfl
  have hposted : (fill.ask ⟨address, .all⟩).2.posted = fill.posted := by
    change fill.posted ++ (TranslationAgent.translate fill.agent _).posted = _
    rw [Iommu.posted_translate]
    simp
  have hnonzero : answer.length ≠ 0 := hlength ▸ buffer.page.bytes_ne_zero
  have hwalk : fill.walk address remaining =
      (fill.ask ⟨address, .all⟩).2.keep (buffer.pageAt address) := by
    rw [Fill.walk, if_neg hremaining, hasked]
    simp only [dif_neg hnonzero]
    rw [if_pos (hlength ▸ hle)]
    rfl
  rw [hwalk]
  exact ⟨rfl, hposted, hagent.translate _⟩

namespace Worker

variable {worker : Worker Iommu μ}

/-- The IOMMU has the buffer mapped, no notice waits, and whatever is cached
lies before a position of the buffer. -/
structure FilledTo (worker : Worker Iommu μ) (buffer : Buffer) (position : Nat) : Prop where
  agent : buffer.iommu.Later worker.agent
  granule : worker.granule = buffer.page
  waiting : worker.notices.waiting = []
  before : ∀ region ∈ worker.cache.regions, ∀ address ∈ region.span,
    address.toNat < buffer.mapping.range.start.toNat + position

/-- A stride that begins with a page which is not cached caches this page. -/
theorem FilledTo.ensure {position : Nat} (h : worker.FilledTo buffer position)
    (hdvd : buffer.page.bytes.toNat ∣ position) (hroom : position < buffer.size) :
    (worker.ensure ⟨buffer.address position, buffer.page.bytes⟩).2.FilledTo buffer
        (position + buffer.page.bytes.toNat) ∧
      (worker.ensure ⟨buffer.address position, buffer.page.bytes⟩).2.cache.size =
        worker.cache.size + 1 := by
  have haddress := Buffer.toNat_address hroom
  have hmissed : ¬ worker.cache.contains (buffer.address position) = true := by
    rw [Cache.contains_iff]
    rintro ⟨region, hregion, hmem⟩
    have hbefore := h.before region hregion _ hmem
    omega
  have hwhole : buffer.page.bytes.toNat ∣ (buffer.address position).toNat := by
    rw [haddress]
    exact Nat.dvd_add buffer.paged.dvd_start hdvd
  have hagent : buffer.iommu.Later worker.suspend.agent := h.agent
  let fresh : Fill Iommu := { agent := worker.suspend.agent }
  obtain ⟨hregions, hposted, hlater⟩ := fresh.walk_page hagent (Buffer.address_mem hroom)
    buffer.page.bytes_ne_zero (UInt64.le_refl _)
  have hgranule : worker.suspend.granule = buffer.page := h.granule
  have hrun : Fill.run worker.suspend.granule.bytes worker.suspend.agent
      ⟨buffer.address position, buffer.page.bytes⟩ =
        fresh.walk (buffer.address position) buffer.page.bytes := by
    rw [hgranule]
    exact Fill.run_of_dvd buffer.page.isPowerOfTwo _ hwhole
  have hensured : worker.ensure ⟨buffer.address position, buffer.page.bytes⟩ =
      worker.suspend.fill ⟨buffer.address position, buffer.page.bytes⟩ := if_neg hmissed
  have hcache : (worker.suspend.fill ⟨buffer.address position, buffer.page.bytes⟩).2.cache =
      worker.cache.append [buffer.pageAt (buffer.address position)] := by
    rw [fill, hrun, hregions]
    exact congrArg (Cache.append · _) (worker.cache_suspend h.waiting)
  rw [hensured]
  refine ⟨⟨?_, h.granule, ?_, ?_⟩, ?_⟩
  · rw [fill, hrun]
    exact hlater
  · rw [fill, hrun, hposted]
    exact (List.append_nil _).trans worker.waiting_suspend
  · rw [hcache]
    intro region hregion address hmem
    rcases List.mem_append.mp hregion with hold | hnew
    · have hbefore := h.before region hold address hmem
      omega
    · rw [List.mem_singleton.mp hnew, Buffer.span_pageAt hwhole] at hmem
      have hlast := (Span.mem_iff_toNat.mp hmem).2
      rwa [haddress, Nat.add_assoc] at hlast
  · rw [hcache, Cache.size_append]
    rfl

/-- Strides over some pages that are not cached cache each of them once. -/
theorem FilledTo.stride {position count : Nat} (h : worker.FilledTo buffer position)
    (hdvd : buffer.page.bytes.toNat ∣ position) {remaining : UInt64}
    (hremaining : remaining.toNat = count * buffer.page.bytes.toNat)
    (hroom : position + count * buffer.page.bytes.toNat ≤ buffer.size) (filled : Nat) :
    (worker.stride (buffer.address position) remaining filled).2.cache.size =
        worker.cache.size + count ∧
      (worker.stride (buffer.address position) remaining filled).2.notices.waiting = [] := by
  induction count generalizing worker position remaining filled with
  | zero =>
      have hzero : remaining = 0 := UInt64.toNat_inj.mp (hremaining.trans (Nat.zero_mul _))
      rw [Worker.stride, if_pos hzero]
      exact ⟨rfl, h.waiting⟩
  | succ count ih =>
      have hpos := buffer.page.isPowerOfTwo.toNat_pos
      rw [Nat.succ_mul] at hremaining hroom
      obtain ⟨hnext, hsize⟩ := h.ensure hdvd (by omega)
      have hne : remaining ≠ 0 := by
        rintro rfl
        change 0 = _ at hremaining
        omega
      rw [Worker.stride, if_neg hne, h.granule]
      dsimp only
      split
      next hlast =>
        have hlast := UInt64.le_iff_toNat_le.mp hlast
        have hcount : count = 0 := by
          refine Nat.eq_zero_of_not_pos fun hmore => ?_
          have hgrows := Nat.le_mul_of_pos_left buffer.page.bytes.toNat hmore
          omega
        exact ⟨by rw [hcount, hsize], hnext.waiting⟩
      next hmore =>
        have hlt := UInt64.lt_iff_toNat_lt.mp (UInt64.not_le.mp hmore)
        have hrest : (remaining - buffer.page.bytes).toNat = count * buffer.page.bytes.toNat := by
          rw [UInt64.toNat_sub_of_le _ _ (UInt64.le_of_lt (UInt64.not_le.mp hmore)), hremaining,
            Nat.add_sub_cancel]
        rw [Buffer.addChecked?_address (by omega)]
        obtain ⟨hcached, hwaiting⟩ := ih hnext (Nat.dvd_add hdvd (Nat.dvd_refl _)) hrest (by omega)
          (filled + (worker.ensure ⟨buffer.address position, buffer.page.bytes⟩).1)
        refine ⟨hcached.trans ?_, hwaiting⟩
        rw [hsize, Nat.add_assoc, Nat.add_comm 1 count]

end Worker

namespace Host

open Endpoint

/-- Filling ahead over the first pages of a buffer, with nothing cached before,
leaves each of these pages cached once. -/
theorem size_cache_translate {endpoint : SoftwareEndpoint} {contents : ByteArray}
    (h : endpoint.Mounts buffer contents) (hempty : endpoint.cache = {}) {length : UInt32}
    {count : Nat} (hlength : length.toNat = count * buffer.page.bytes.toNat)
    (hroom : count * buffer.page.bytes.toNat ≤ buffer.size) :
    (translate endpoint (buffer.address 0) length).state.cache.size = count := by
  let ready := endpoint.programmed (Operation.translate (buffer.address 0) length).writes
  let range : Span := ⟨buffer.address 0, length.toUInt64⟩
  let worker := ready.worker.note (.workStarted (.translate range))
  obtain ⟨filled, hok⟩ := Mounts.execute_translate ready range
  obtain ⟨_, hstate⟩ := translate_of_ok h.idle (buffer.address 0) length hok
  have hfilled : worker.FilledTo buffer 0 := by
    refine ⟨h.keeps.agent, h.granule, h.idle.waiting, ?_⟩
    change ∀ region ∈ endpoint.cache.regions, _
    rw [hempty]
    exact List.forall_mem_nil _
  obtain ⟨hcached, hwaiting⟩ := hfilled.stride (Nat.dvd_zero _)
    ((UInt32.toNat_toUInt64 length).trans hlength) (by omega) 0
  have hexecuted : (ready.execute (.translate range)).state.toDatapath =
      (worker.stride range.start range.length 0).2.complete.toDatapath :=
    ready.worker.toDatapath_execute (.translate range)
  have hquiet : (ready.execute (.translate range)).state.countCompleted.notices.waiting = [] :=
    (congrArg (fun datapath => datapath.notices.waiting) hexecuted).trans hwaiting
  have hfinished : (ready.finished (.translate range)).cache =
      (ready.execute (.translate range)).state.cache := by
    rw [Endpoint.finished, state_drain_of_waiting _ hquiet]
    rfl
  have hempty : worker.cache.size = 0 := congrArg Cache.size hempty
  rw [hstate, hfinished]
  refine (congrArg (fun datapath => datapath.cache.size) hexecuted).trans (hcached.trans ?_)
  rw [hempty, Nat.zero_add]

end Host

end AtsEndpoint
