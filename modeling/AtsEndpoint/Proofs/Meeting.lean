import AtsEndpoint.Proofs.Alignment

/-!
# Ranges that meet

Two ranges meet when an address lies in both of them. On natural numbers, where
the end of a range never wraps, this means that the later one of the two starts
comes before the earlier one of the two ends; it is then an address of both.

The last address of a range is cut off at the end of the address space. So it
lies in the range wherever the range ends.

Mappings and regions that meet a range are taken off a list, and counted.
-/

namespace AtsEndpoint

/-- The items that are taken off a list and those that are left make up the list. -/
theorem countP_add_length_filter_not {α : Type} (items : List α) (taken : α → Prop)
    [DecidablePred taken] :
    (items.countP fun item => taken item) + (items.filter fun item => ¬ taken item).length =
      items.length := by
  have hsplit := List.length_eq_countP_add_countP (fun item => decide (taken item)) (l := items)
  simp only [decide_eq_true_eq] at hsplit
  rw [← List.countP_eq_length_filter, hsplit]

namespace Span

variable {a b : Span}

/-- Some address lies in both ranges. -/
def Meets (a b : Span) : Prop :=
  ∃ address, address ∈ a ∧ address ∈ b

theorem meets_iff_toNat : a.Meets b ↔
    max a.start.toNat b.start.toNat <
      min (a.start.toNat + a.length.toNat) (b.start.toNat + b.length.toNat) := by
  constructor
  · rintro ⟨address, hmema, hmemb⟩
    rw [mem_iff_toNat] at hmema hmemb
    omega
  · intro hlt
    rcases Nat.le_total a.start.toNat b.start.toNat with hle | hle
    · exact ⟨b.start, mem_iff_toNat.mpr (by omega), mem_iff_toNat.mpr (by omega)⟩
    · exact ⟨a.start, mem_iff_toNat.mpr (by omega), mem_iff_toNat.mpr (by omega)⟩

instance (a b : Span) : Decidable (a.Meets b) :=
  decidable_of_iff _ meets_iff_toNat.symm

theorem length_ne_zero_of_mem {address : Address} (h : address ∈ a) : a.length ≠ 0 := by
  intro hempty
  rw [mem_iff_toNat, hempty, UInt64.toNat_zero] at h
  omega

theorem start_mem (h : a.length ≠ 0) : a.start ∈ a := by
  have hpos := toNat_pos_of_ne_zero h
  rw [mem_iff_toNat]
  omega

theorem toNat_last_eq_min (h : a.length ≠ 0) :
    a.last.toNat = min (a.start.toNat + (a.length.toNat - 1)) (2 ^ 64 - 1) := by
  have hpos := toNat_pos_of_ne_zero h
  have hone : (1 : UInt64) ≤ a.length := UInt64.le_iff_toNat_le.mpr hpos
  rw [last, toNat_addSaturating, UInt64.toNat_sub_of_le _ _ hone, UInt64.toNat_one]

/-- The addresses of a range that is not empty are those from its start to its
last address. -/
theorem mem_iff_le_last (h : a.length ≠ 0) {address : Address} :
    address ∈ a ↔ a.start ≤ address ∧ address ≤ a.last := by
  have hpos := toNat_pos_of_ne_zero h
  have hlt := address.toNat_lt
  rw [mem_iff_toNat, UInt64.le_iff_toNat_le, UInt64.le_iff_toNat_le, toNat_last_eq_min h]
  omega

theorem last_mem_of_ne_zero (h : a.length ≠ 0) : a.last ∈ a :=
  (mem_iff_le_last h).mpr ⟨((mem_iff_le_last h).mp (start_mem h)).2, UInt64.le_refl _⟩

end Span

end AtsEndpoint
