import AtsEndpoint.Proofs.Answers

/-!
# What a table accepts

A request to map looks at the ends of ranges, cut off at the end of the address
space. For whole pages of at least two bytes that comes to the addresses
themselves: a range is accepted if and only if none of its addresses is mapped.
So a table accepts some requests in any order or in none, and as no address is
mapped twice, the order in which they came is not seen in its answers.
-/

namespace AtsEndpoint

namespace Iommu

variable {iommu : Iommu} {range : Span} {target : Address} {grants : Permissions}

/-- Make mappings one after the other, as long as they are accepted. -/
def mapAll (iommu : Iommu) : List Mapping → Option Iommu
  | [] => some iommu
  | mapping :: rest =>
    let step := iommu.map mapping.range mapping.target mapping.grants
    match step.result with
    | .ok _ => step.state.mapAll rest
    | .error _ => none

/-- Mappings are accepted one after the other if and only if the table with all
of them is a layout. -/
theorem mapAll_eq_some_iff {calls : List Mapping} {final : Iommu}
    (hpage : IsPowerOfTwo iommu.pageSize) (htwo : 2 ≤ iommu.pageSize)
    (h : Layout iommu.pageSize iommu.mappings) :
    iommu.mapAll calls = some final ↔
      Layout iommu.pageSize (iommu.mappings ++ calls) ∧
        final = { iommu with mappings := iommu.mappings ++ calls } := by
  induction calls generalizing iommu with
  | nil =>
      rw [mapAll, List.append_nil]
      simp only [h, true_and, Option.some.injEq, eq_comm]
  | cons mapping rest ih =>
      have hok : (iommu.map mapping.range mapping.target mapping.grants).result = .ok () ↔
          Layout iommu.pageSize (iommu.mappings ++ [mapping]) :=
        map_ok_iff hpage htwo h
      rw [List.append_cons]
      obtain ⟨_, herror, _⟩ | ⟨_, _, haccepted, hadded⟩ :=
        iommu.map_cases mapping.range mapping.target mapping.grants
      · simp only [mapAll, herror, reduceCtorEq, false_iff]
        -- A layout with all of them would be one with the first of them.
        rintro ⟨hlayout, _⟩
        have hfirst := hok.mpr (hlayout.sublist (List.sublist_append_left _ _))
        cases herror.symm.trans hfirst
      · simp only [mapAll, haccepted, hadded]
        exact ih hpage htwo (hok.mp haccepted)

/-- In a layout the order of the mappings does not matter for what is found. -/
theorem find?_eq_of_perm {other : Iommu} {pageSize : UInt64}
    (h : Layout pageSize iommu.mappings) (hperm : iommu.mappings.Perm other.mappings)
    (address : Address) : other.find? address = iommu.find? address := by
  cases hfound : iommu.find? address with
  | none =>
      refine List.find?_eq_none.mpr fun mapping hmapping => ?_
      exact List.find?_eq_none.mp hfound mapping (hperm.mem_iff.mpr hmapping)
  | some mapping =>
      have hmapping := List.mem_of_find?_eq_some hfound
      have hmem : address ∈ mapping.range := by simpa using List.find?_some hfound
      have hapart := h.apart.imp fun happart => happart address
      apply find?_eq_of_unique (hperm.mem_iff.mp hmapping) hmem
      intro other hother hheld
      exact eq_of_mem_of_pairwise hapart (hperm.mem_iff.mpr hother) hmapping hheld hmem

/-- Mappings that are accepted in one order are accepted in any other one, and
the tables answer every request alike. -/
theorem mapAll_perm {first second : List Mapping} {final : Iommu}
    (hpage : IsPowerOfTwo iommu.pageSize) (htwo : 2 ≤ iommu.pageSize)
    (h : Layout iommu.pageSize iommu.mappings) (hperm : first.Perm second)
    (haccepted : iommu.mapAll first = some final) :
    ∃ other, iommu.mapAll second = some other ∧ ∀ request,
      (TranslationAgent.translate other request).answer =
        (TranslationAgent.translate final request).answer := by
  obtain ⟨hlayout, rfl⟩ := (mapAll_eq_some_iff hpage htwo h).mp haccepted
  have hmappings := hperm.append_left iommu.mappings
  refine ⟨_, (mapAll_eq_some_iff hpage htwo h).mpr ⟨hlayout.perm hmappings, rfl⟩, ?_⟩
  intro request
  have hfound : { iommu with mappings := iommu.mappings ++ second }.find? request.address =
      { iommu with mappings := iommu.mappings ++ first }.find? request.address :=
    find?_eq_of_perm hlayout hmappings request.address
  rw [(Later.refl _).answer_eq, (Later.refl _).answer_eq, hfound]
  rfl

/-- However a table of whole pages has been built, no address is held by two of
its mappings, and a further mapping is accepted if and only if it is not empty, is
made of whole pages and holds no address that is mapped; otherwise nothing
changes. So mappings that are accepted in one order are accepted in all of them,
and the order is not seen in any answer. -/
theorem Built.map_exact {pageSize granule : UInt64} (hbuilt : iommu.Built pageSize granule)
    (hpage : IsPowerOfTwo pageSize) (htwo : 2 ≤ pageSize) :
    (iommu.mappings.Pairwise fun a b => a.range.Apart b.range) ∧
      (∀ range target grants,
        let step := iommu.map range target grants
        (step.result = .ok () ↔ range.length ≠ 0 ∧ pageSize.toNat ∣ range.start.toNat ∧
          pageSize.toNat ∣ target.toNat ∧ pageSize.toNat ∣ range.length.toNat ∧
          ∀ address ∈ range, ∀ mapping ∈ iommu.mappings, address ∉ mapping.range) ∧
        ∀ fault, step.result = .error fault → step.state = iommu) ∧
      ∀ first second final, first.Perm second → iommu.mapAll first = some final →
        ∃ other, iommu.mapAll second = some other ∧ ∀ request,
          (TranslationAgent.translate other request).answer =
            (TranslationAgent.translate final request).answer := by
  have h := hbuilt.layout hpage htwo
  rw [← hbuilt.pageSize_eq] at hpage htwo h ⊢
  refine ⟨h.apart, ?_, fun _ _ _ => mapAll_perm hpage htwo h⟩
  intro range target grants step
  refine ⟨?_, ?_⟩
  · rw [map_ok_iff hpage htwo h, h.append_singleton_iff]
    constructor
    · rintro ⟨⟨hne, hstart, hlength, htarget⟩, happart⟩
      exact ⟨hne, hstart, htarget, hlength, fun address hmem mapping hmapping hheld =>
        happart mapping hmapping address hheld hmem⟩
    · rintro ⟨hne, hstart, htarget, hlength, hfree⟩
      exact ⟨⟨hne, hstart, hlength, htarget⟩, fun mapping hmapping address hheld hmem =>
        hfree address hmem mapping hmapping hheld⟩
  · intro fault herror
    obtain ⟨_, _, hsame⟩ | ⟨_, _, hok, _⟩ := iommu.map_cases range target grants
    · exact hsame
    · cases herror.symm.trans hok

/-- Around a mapping that passes the end of the address space, the page below it
is free and the last page of all is not; the two mappings come in either order. -/
theorem map_exact_pastEnd :
    let past : Mapping := ⟨⟨0xfffffffffffff000, 0x2000⟩, 0x8000, .all⟩
    let below : Mapping := ⟨⟨0xffffffffffffe000, 0x1000⟩, 0x4000, .read⟩
    let table : Iommu := (({} : Iommu).map past.range past.target past.grants).state
    (table.map below.range below.target below.grants).result = .ok () ∧
      (table.map ⟨0xfffffffffffff000, 0x1000⟩ 0x4000 .all).result ≠ .ok () ∧
      ∃ other, ({} : Iommu).mapAll [below, past] = some other ∧ ∀ request,
        (TranslationAgent.translate other request).answer =
          (TranslationAgent.translate { mappings := [past, below] : Iommu } request).answer := by
  intro past below table
  have hempty : ({} : Iommu).Built 4096 4096 := .empty false 0
  have hmappings : table.mappings = [past] := by decide +kernel
  have haccepted : ({} : Iommu).mapAll [past, below] = some { mappings := [past, below] } := by
    decide +kernel
  obtain ⟨_, _, horder⟩ := hempty.map_exact ⟨12, rfl⟩ (by decide)
  obtain ⟨_, hmap, _⟩ := (hempty.map past.range past.target past.grants).map_exact ⟨12, rfl⟩
    (by decide)
  rw [hmappings] at hmap
  refine ⟨?_, ?_, horder _ _ _ (.swap below past []) haccepted⟩
  · apply (hmap _ _ _).1.mpr
    refine ⟨by decide, by decide, by decide, by decide, ?_⟩
    intro address hmem mapping hmapping hheld
    obtain rfl := List.mem_singleton.mp hmapping
    have hbelow : address.toNat < 0xffffffffffffe000 + 0x1000 := (Span.mem_iff_toNat.mp hmem).2
    have hpast : 0xfffffffffffff000 ≤ address.toNat := (Span.mem_iff_toNat.mp hheld).1
    omega
  · intro hok
    obtain ⟨_, _, _, _, hfree⟩ := (hmap _ _ _).1.mp hok
    exact hfree 0xffffffffffffffff (by decide) past List.mem_cons_self (by decide)

end Iommu

end AtsEndpoint
