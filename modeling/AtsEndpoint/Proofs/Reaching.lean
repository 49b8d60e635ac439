import AtsEndpoint.Proofs.Tilings
import AtsEndpoint.Proofs.Words

/-!
# Which mapped addresses are reached

A word access to an address that is not cached fills from the start of its
granule on, and the fill ends at the first address that the table does not map.
So a mapped address behind an address of its granule that is not mapped stays
out of reach, until a fill from elsewhere brings its block. Granules no larger
than a page have no such gaps, as mappings are made of whole pages.

Whatever was cached or is brought, an address below the last one is held by one
mapping at most. So the permissions found for it are those of its mapping.
-/

namespace AtsEndpoint

/-! ## Tables as tilings -/

/-- Below the last address, ranges that do not overlap have no address in common. -/
theorem Span.not_mem_of_not_overlaps {a b : Span} {address : Address}
    (h : a.overlaps b = false) (hinner : address.toNat + 1 < 2 ^ 64) (hmem : address ∈ a) :
    address ∉ b := by
  intro hother
  have ha := UInt64.le_iff_toNat_le.mp hmem.1
  have hb := UInt64.le_iff_toNat_le.mp hother.1
  exact apart_of_not_overlaps (by omega) (by omega) h address hmem hother

namespace Iommu

variable {iommu : Iommu} {mapping : Mapping} {address : Address}

/-- Addresses from here on may lie in two mappings. Only pages of a single byte
leave such an address, the last one of all. -/
def limit (iommu : Iommu) : Nat :=
  if 2 ≤ iommu.pageSize then 2 ^ 64 else 2 ^ 64 - 1

theorem lt_limit_iff :
    address.toNat < iommu.limit ↔ 2 ≤ iommu.pageSize ∨ address.toNat + 1 < 2 ^ 64 := by
  have hlt := address.toNat_lt
  unfold limit
  split
  next htwo => simp [htwo, hlt]
  next hone =>
    simp only [hone, false_or]
    omega

/-- The table is made of whole pages, and below the limit no address is held by
two mappings. -/
structure IsExact (iommu : Iommu) : Prop extends iommu.IsPaged where
  unique : ∀ a ∈ iommu.mappings, ∀ b ∈ iommu.mappings, ∀ address : Address,
    address.toNat < iommu.limit → address ∈ a.range → address ∈ b.range → a = b

theorem Built.apart_of_inner {pageSize granule : UInt64} (h : Built pageSize granule iommu)
    (hinner : address.toNat + 1 < 2 ^ 64) :
    iommu.mappings.Pairwise fun a b => address ∈ a.range → address ∉ b.range := by
  induction h with
  | empty => exact .nil
  | @map iommu range target grants _ ih =>
    obtain ⟨_, _, hsame⟩ | ⟨_, hfree, _, hadded⟩ := iommu.map_cases range target grants
    · rwa [hsame]
    · rw [hadded]
      refine List.pairwise_append.mpr ⟨ih, List.pairwise_singleton _ _, ?_⟩
      intro mapping hold other hother
      rw [List.mem_singleton.mp hother]
      exact Span.not_mem_of_not_overlaps (hfree mapping hold) hinner
  | unmap _ _ ih => exact ih.filter _
  | recount _ _ _ ih => exact ih

/-- Every table that mapping and unmapping make is exact. -/
theorem Built.isExact {pageSize granule : UInt64} (h : Built pageSize granule iommu)
    (hpage : IsPowerOfTwo pageSize) (hgranule : IsPowerOfTwo granule) : iommu.IsExact := by
  refine ⟨h.isPaged hpage hgranule, ?_⟩
  intro a ha b hb address hlimit hmema hmemb
  rcases lt_limit_iff.mp hlimit with htwo | hinner
  · rw [h.pageSize_eq] at htwo
    exact (h.isTable hpage htwo hgranule).eq_of_mem ha hb hmema hmemb
  · exact eq_of_mem_of_pairwise (h.apart_of_inner hinner) ha hb hmema hmemb

namespace IsExact

theorem find?_eq_of_mem (h : iommu.IsExact) (hmapping : mapping ∈ iommu.mappings)
    (hlimit : address.toNat < iommu.limit) (hmem : address ∈ mapping.range) :
    iommu.find? address = some mapping :=
  find?_eq_of_unique hmapping hmem fun other hother hheld =>
    h.unique other hother mapping hmapping address hlimit hheld hmem

/-- The blocks that an exact table is cut into, without their images. -/
def tiling (h : iommu.IsExact) : Tiling iommu.limit where
  block? address := (iommu.find? address).map fun mapping =>
    .around address (iommu.answerLength mapping address)
  mem := by
    intro address block hfound
    obtain ⟨mapping, _, rfl⟩ := Option.map_eq_some_iff.mp hfound
    exact Span.IsAligned.mem_around address (h.isPowerOfTwo_answerLength mapping address)
  aligned := by
    intro address block hfound
    obtain ⟨mapping, _, rfl⟩ := Option.map_eq_some_iff.mp hfound
    exact Span.isAligned_around address (h.isPowerOfTwo_answerLength mapping address)
  constant := by
    intro address other block hfound hother hlimit
    obtain ⟨mapping, hmapping, rfl⟩ := Option.map_eq_some_iff.mp hfound
    have hmem : address ∈ mapping.range := by simpa using List.find?_some hmapping
    have hlisted := List.mem_of_find?_eq_some hmapping
    have hinside := h.mem_range_of_mem_around (h.paged mapping hlisted) hmem hother
      (lt_limit_iff.mp hlimit)
    have haligned := Span.isAligned_around address (h.isPowerOfTwo_answerLength mapping address)
    rw [h.find?_eq_of_mem hlisted hlimit hinside, Option.map_some, h.answerLength_eq hother]
    exact congrArg some (haligned.around_eq hother)

variable (h : iommu.IsExact)

theorem grantedBy : h.tiling.GrantedBy iommu.Later where
  grants agent hagent address _ hblock := by
    obtain ⟨mapping, hfound, rfl⟩ := Option.map_eq_some_iff.mp hblock
    rw [hagent.answer_eq, hfound]
    exact ⟨_, _, rfl⟩
  declines agent hagent address hblock := by
    rw [hagent.answer_eq, Option.map_eq_none_iff.mp hblock]
    exact ⟨_, rfl⟩
  next _ hagent address := hagent.translate _

/-- There is no gap just if every address between is mapped. -/
theorem isDense_iff {first last : Address} : h.tiling.IsDense first last ↔
    ∀ address, first ≤ address → address ≤ last →
      ∃ mapping ∈ iommu.mappings, address ∈ mapping.range := by
  refine forall_congr' fun address => forall_congr' fun _ => forall_congr' fun _ => ?_
  change (iommu.find? address).map _ ≠ none ↔ _
  simp [find?]

/-- Granules no larger than a page have no gaps. -/
theorem isDense_of_le (hmapping : mapping ∈ iommu.mappings) (hmem : address ∈ mapping.range)
    {granule : UInt64} (hgranule : IsPowerOfTwo granule) (hle : granule ≤ iommu.pageSize) :
    h.tiling.IsDense (alignDown address granule) address := by
  have hpaged := h.paged mapping hmapping
  have hdvd := hgranule.dvd_of_le h.page hle
  have hfirst : alignDown address granule ∈ mapping.range :=
    (Span.alignDown_mem_iff_of_dvd hgranule (Nat.dvd_trans hdvd hpaged.dvd_start)
      (Nat.dvd_trans hdvd hpaged.dvd_length)).mpr hmem
  refine h.isDense_iff.mpr fun other hlow hhigh => ⟨mapping, hmapping, ?_⟩
  have hhigh := UInt64.le_iff_toNat_le.mp hhigh
  have hlast := (Span.mem_iff_toNat.mp hmem).2
  exact Span.mem_iff_toNat.mpr
    ⟨UInt64.le_iff_toNat_le.mp (UInt64.le_trans hfirst.1 hlow), by omega⟩

end IsExact

end Iommu

/-! ## What an access finds -/

section Resolve

variable {μ : Type v} {iommu : Iommu} {mapping : Mapping} {address : Address}

/-- A mapped address below the limit that is cached after the lookup is resolved
to its image. -/
theorem Worker.resolve_of_mem (h : iommu.IsExact) {worker : Worker Iommu μ}
    (hkeeps : worker.Keeps iommu.Later iommu.IsCut) (hmapping : mapping ∈ iommu.mappings)
    (hmem : address ∈ mapping.range) (hlimit : address.toNat < iommu.limit) {wanted : Permissions}
    (hwanted : wanted &&& .all = wanted) (hgrants : mapping.grants.intersects wanted) :
    let reached := worker.cache.contains address ∨
      h.tiling.IsDense (alignDown address worker.granule.bytes) address
    (reached → (worker.resolve address wanted).1 = .ok (mapping.image address)) ∧
      (¬ reached → (worker.resolve address wanted).1 = .error .notFound) := by
  intro reached
  have hensured := hkeeps.ensure iommu.yields ⟨address, worker.granule.bytes⟩
  have hreached : (worker.ensure ⟨address, worker.granule.bytes⟩).2.cache.contains address ↔
      reached := Worker.contains_ensure_of_grantedBy h.grantedBy hkeeps.agent hlimit
  rw [← hreached]
  simp only [Worker.resolve, Cache.resolve, Cache.contains]
  cases hfound : (worker.ensure ⟨address, worker.granule.bytes⟩).2.cache.find? address with
  | none => simp
  | some region =>
    have hheld : address ∈ region.span := by simpa using List.find?_some hfound
    obtain ⟨other, hother, hcut⟩ := hensured.cache region (List.mem_of_find?_eq_some hfound)
    have hpaged := h.paged other hother
    have hinside := hcut.mem_range h.toIsPaged hpaged hheld (Iommu.lt_limit_iff.mp hlimit)
    obtain rfl := h.unique _ hother _ hmapping address hlimit hinside hmem
    have hgranted : region.grants.intersects wanted := by
      rw [hcut.grants_eq, Permissions.intersects_all_and hwanted]
      exact hgrants
    simp [hgranted, hcut.translate_eq h.toIsPaged hpaged hheld]

/-- A word of memory can be accessed. -/
theorem Plain.fst_access_of_covers {plain : Plain} {physical : Address}
    (h : plain.memory.Covers physical 4) (access : WordAccess) :
    (plain.access physical access).1 = .ok .applied := by
  have hlocate := HostMemory.locate_of_covers h
  cases access with
  | read => simp only [access, fetch, Register.width, HostMemory.peek_of_covers h]
  | write word =>
    have hpoke : plain.memory.poke physical (Word.bytes word) = _ :=
      HostMemory.poke_of_locate hlocate
    simp only [access, store, hpoke]

/-- Work moves no bound of the memory. -/
theorem Worker.invariant_covers {α : Type u} [TranslationAgent α] (physical : Address)
    (count : Nat) :
    Worker.Invariant fun worker : Worker α HostMemory => worker.memory.Covers physical count where
  mark _ _ _ h := h
  registers _ _ h := h
  fill _ _ h := h
  readMemory _ other length h := (HostMemory.covers_read other length).mpr h
  writeMemory _ other bytes h := (HostMemory.covers_write other bytes).mpr h

end Resolve

namespace Endpoint

variable {endpoint : SoftwareEndpoint} {iommu : Iommu} {mapping : Mapping} {address : Address}

/-- A word access to a mapped address that is permitted, and whose word memory
has, is applied if the address is reached, and else finds nothing. -/
theorem result_access_of_mem (h : iommu.IsExact) (hkeeps : endpoint.Keeps iommu.Later iommu.IsCut)
    (hmapping : mapping ∈ iommu.mappings) (hmem : address ∈ mapping.range)
    (hlimit : address.toNat < iommu.limit) (access : WordAccess)
    (hgrants : mapping.grants.intersects access.wanted)
    (hcovers : endpoint.memory.Covers (mapping.image address) 4) :
    let reached := endpoint.cache.contains address ∨
      h.tiling.IsDense (alignDown address endpoint.config.granule) address
    (reached → (endpoint.execute (access.request address)).result = .ok .applied) ∧
      (¬ reached → (endpoint.execute (access.request address)).result =
        .ok (.denied .notFound)) := by
  intro reached
  let worker := endpoint.worker.note (.workStarted (access.request address))
  have hworker : worker.Keeps iommu.Later iommu.IsCut := ⟨hkeeps.agent, hkeeps.cache⟩
  obtain ⟨hfound, hmissed⟩ :=
    Worker.resolve_of_mem h hworker hmapping hmem hlimit access.wanted_and_all hgrants
  have hreport := congrArg Prod.fst (endpoint.report_access access address)
  refine ⟨fun hreached => eq_ok_of_report ?_ (by rintro _ ⟨⟩),
    fun hunreached => eq_ok_of_report ?_ (by rintro _ ⟨⟩)⟩
  · rw [hfound hreached] at hreport
    exact hreport.trans (Plain.fst_access_of_covers hcovers access)
  · rw [hmissed hunreached] at hreport
    exact hreport

/-- What a word access to a mapped address comes to in a run of the queue, after
any actions but unmapping and any requests before it, if the access is permitted
and memory has the word. It is applied if the address is cached when its turn
comes, or if its granule is mapped up to the address without a gap. Else nothing
is found for it. Granules no larger than a page have no gaps. -/
theorem access_applied_iff {pageSize granule : UInt64} {config : Config} {iommu : Iommu}
    {memory : HostMemory} {start current : SoftwareEndpoint} (hbuilt : iommu.Built pageSize granule)
    (hpage : IsPowerOfTwo pageSize) (hgranule : IsPowerOfTwo granule)
    (hboot : (bootLinked config iommu memory).1 = .ok start)
    (hreaches : Reaches (fun _ action => action.IsGrowing) start endpoint) (access : WordAccess)
    {done rest : List Work.Request} {trace : Trace}
    (hturns : endpoint.Turns done current (access.request address :: rest) trace)
    (hmapping : mapping ∈ endpoint.agent.mappings) (hmem : address ∈ mapping.range)
    (hgrants : mapping.grants.intersects access.wanted)
    (hcovers : endpoint.memory.Covers (mapping.image address) 4)
    (hinner : 2 ≤ pageSize ∨ address.toNat + 1 < 2 ^ 64) :
    let turn := current.atTurn rest
    let reached := turn.cache.contains address ∨
      ∀ other, alignDown address config.granule ≤ other → other ≤ address →
        ∃ mapping ∈ endpoint.agent.mappings, other ∈ mapping.range
    (reached → (turn.execute (access.request address)).result = .ok .applied) ∧
      (¬ reached → (turn.execute (access.request address)).result = .ok (.denied .notFound)) ∧
      (config.granule ≤ pageSize → reached) := by
  intro turn reached
  obtain ⟨_, hconfig, hcache⟩ := boot_eq hboot
  have hcurrent : endpoint.IsCurrent := hreaches.isCurrent ⟨.refl _, by simp [hcache]⟩
  obtain ⟨hstart, hlinked⟩ := built_boot hbuilt hboot
  obtain ⟨hbuilt, _⟩ := hreaches.built hstart hlinked
  have hexact := hbuilt.isExact hpage hgranule
  rw [← hbuilt.pageSize_eq] at hinner ⊢
  have hsettings : config = turn.config :=
    (hturns.progress.config.trans (hreaches.config_eq.trans hconfig)).symm
  have hreached : reached ↔ turn.cache.contains address ∨
      hexact.tiling.IsDense (alignDown address turn.config.granule) address := by
    rw [hexact.isDense_iff, ← hsettings]
  -- When the turn comes, what waited has been applied.
  have hworker : current.worker.Keeps endpoint.agent.Later endpoint.agent.IsCut :=
    hturns.invariant (P := fun datapath => datapath.Keeps endpoint.agent.Later endpoint.agent.IsCut)
      (Datapath.Keeps.invariant endpoint.agent.yields) (fun _ => Datapath.Keeps.suspend) hcurrent
  have hkeeps : turn.Keeps endpoint.agent.Later endpoint.agent.IsCut := hworker.suspend
  have hword : turn.memory.Covers (mapping.image address) 4 :=
    hturns.invariant (P := fun datapath => datapath.memory.Covers (mapping.image address) 4)
      (Worker.invariant_covers _ _) (fun _ => id) hcovers
  obtain ⟨happlied, hmissed⟩ := result_access_of_mem hexact hkeeps hmapping hmem
    (Iommu.lt_limit_iff.mpr hinner) access hgrants hword
  rw [hreached]
  refine ⟨happlied, hmissed, fun hle => .inr ?_⟩
  rw [hsettings] at hle
  exact hexact.isDense_of_le hmapping hmem turn.granule.isPowerOfTwo hle

/-- An endpoint that has just come up, with granules of two pages. -/
def coarse : SoftwareEndpoint :=
  { agent := { linked := true }
    memory := .zeroed 0x8000 0x4000
    config := { granule := 0x2000 }
    config_valid := ⟨13, rfl⟩ }

/-- The endpoint with a page mapped that is the second half of a granule, and
with a read of its first word in the queue. -/
def halfMapped : SoftwareEndpoint :=
  ((coarse.after (.map ⟨0x9000, 0x1000⟩ 0x9000 .all)).after
    (.writeRegister Register.addrLsb.offset 0x9000)).after
    (.writeRegister Register.ctrl.offset Control.read)

/-- The same with the other half mapped as well. -/
def wholeMapped : SoftwareEndpoint :=
  halfMapped.after (.map ⟨0x8000, 0x1000⟩ 0x8000 .all)

theorem boot_coarse :
    (bootLinked { granule := 0x2000 } {} (.zeroed 0x8000 0x4000)).1 = .ok coarse :=
  congrArg Prod.fst (dif_pos coarse.config_valid)

theorem reaches_halfMapped : Reaches (fun _ action => action.IsGrowing) coarse halfMapped :=
  .step (.step (.step .start (.map ⟨0x9000, 0x1000⟩ 0x9000 .all) trivial)
    (.writeRegister Register.addrLsb.offset 0x9000) trivial)
    (.writeRegister Register.ctrl.offset Control.read) trivial

theorem mappings_wholeMapped : wholeMapped.agent.mappings =
    [⟨⟨0x9000, 0x1000⟩, 0x9000, .all⟩, ⟨⟨0x8000, 0x1000⟩, 0x8000, .all⟩] := by
  decide +kernel

/-- A word behind a page that is mapped is read. -/
theorem read_applied_wholeMapped :
    ((wholeMapped.atTurn []).execute (WordAccess.request .read 0x9000)).result = .ok .applied := by
  have hreaches : Reaches (fun _ action => action.IsGrowing) coarse wholeMapped :=
    .step reaches_halfMapped (.map ⟨0x8000, 0x1000⟩ 0x8000 .all) trivial
  have hpending : wholeMapped.pending = [WordAccess.request .read 0x9000] := by decide +kernel
  have hturns : wholeMapped.Turns [] wholeMapped [WordAccess.request .read 0x9000] #[] :=
    hpending ▸ .start
  have hmapping : ⟨⟨0x9000, 0x1000⟩, 0x9000, .all⟩ ∈ wholeMapped.agent.mappings := by
    rw [mappings_wholeMapped]
    exact List.mem_cons_self
  have hcovers : wholeMapped.memory.Covers
      (Mapping.image ⟨⟨0x9000, 0x1000⟩, 0x9000, .all⟩ 0x9000) 4 := by
    unfold HostMemory.Covers
    decide +kernel
  refine (access_applied_iff (.empty false 0) ⟨12, rfl⟩ ⟨12, rfl⟩ boot_coarse hreaches .read
    hturns hmapping (by decide) (by decide) hcovers (.inl (by decide))).1 (.inr ?_)
  intro other hlow hhigh
  have hdown : alignDown 0x9000 0x2000 = 0x8000 := by decide
  rw [mappings_wholeMapped]
  rw [hdown, UInt64.le_iff_toNat_le] at hlow
  rw [UInt64.le_iff_toNat_le] at hhigh
  change 0x8000 ≤ other.toNat at hlow
  change other.toNat ≤ 0x9000 at hhigh
  by_cases hfirst : other.toNat < 0x9000
  · exact ⟨_, List.mem_cons_of_mem _ List.mem_cons_self, Span.mem_iff_toNat.mpr ⟨hlow, hfirst⟩⟩
  · exact ⟨_, List.mem_cons_self, Span.mem_iff_toNat.mpr
      ⟨Nat.not_lt.mp hfirst, Nat.lt_of_le_of_lt hhigh (by decide)⟩⟩

/-- A word behind a page that is not mapped is not found, although it is mapped
and memory has it. -/
theorem read_denied_halfMapped :
    (bootLinked { granule := 0x2000 } {} (.zeroed 0x8000 0x4000)).1 = .ok coarse ∧
      Reaches (fun _ action => action.IsGrowing) coarse halfMapped ∧
      halfMapped.Turns [] halfMapped [WordAccess.request .read 0x9000] #[] ∧
      (∃ mapping ∈ halfMapped.agent.mappings, 0x9000 ∈ mapping.range ∧
        mapping.grants.intersects .read ∧ mapping.IsBounded ∧
        halfMapped.memory.Covers (mapping.image 0x9000) 4) ∧
      ((halfMapped.atTurn []).execute (WordAccess.request .read 0x9000)).result =
        .ok (.denied .notFound) := by
  have hmappings : halfMapped.agent.mappings = [⟨⟨0x9000, 0x1000⟩, 0x9000, .all⟩] := by
    decide +kernel
  have hpending : halfMapped.pending = [WordAccess.request .read 0x9000] := by decide +kernel
  refine ⟨boot_coarse, reaches_halfMapped, hpending ▸ .start, ?_,
    eq_ok_of_toOption (by decide +kernel)⟩
  rw [hmappings]
  refine ⟨_, List.mem_cons_self, by decide, by decide, ?_, ?_⟩
  · unfold Mapping.IsBounded
    decide
  · unfold HostMemory.Covers
    decide +kernel

end Endpoint

end AtsEndpoint
