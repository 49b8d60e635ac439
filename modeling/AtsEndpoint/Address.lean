/-!
# Addresses and spans

An address is a 64-bit word, used alike for the virtual side and the physical
side of a translation. Granules are powers of two; rounding to a granule is
masking, and the two parts of an address recombine to it.

A `Span` is a start and a length. Membership is decided by subtraction, so a
span may reach or pass the end of the address space without wrapping round.
-/

namespace AtsEndpoint

/-- A bus address. -/
abbrev Address := UInt64

/-- The start of the granule that holds `address`. -/
def alignDown (address granule : UInt64) : UInt64 :=
  address &&& ~~~(granule - 1)

/-- The position of `address` inside its granule. -/
def granuleOffset (address granule : UInt64) : UInt64 :=
  address &&& (granule - 1)

/-- The sum of two words, or the largest word when the sum does not fit. -/
def addSaturating (a b : UInt64) : UInt64 :=
  if a + b < a then ~~~0 else a + b

/-- The sum of two words, when it fits. -/
def addChecked? (a b : UInt64) : Option UInt64 :=
  if a + b < a then none else some (a + b)

/-- A word with exactly one bit set. -/
def IsPowerOfTwo (n : UInt64) : Prop :=
  ∃ k : Fin 64, n.toNat = 1 <<< k.val

instance (n : UInt64) : Decidable (IsPowerOfTwo n) := by
  unfold IsPowerOfTwo
  infer_instance

/-- A power of two, taken as the unit of translation. -/
structure Granule where
  /-- The size of the unit. -/
  bytes : UInt64
  /-- The size is a power of two. -/
  isPowerOfTwo : IsPowerOfTwo bytes
deriving DecidableEq

theorem granuleOffset_lt {address granule : UInt64} (h : granule ≠ 0) :
    granuleOffset address granule < granule := by
  have hpos : 0 < granule.toNat := Nat.pos_of_ne_zero fun h0 => h (UInt64.toNat_inj.mp h0)
  rw [UInt64.lt_iff_toNat_lt, granuleOffset, UInt64.toNat_and]
  have hone : (1 : UInt64) ≤ granule := UInt64.le_iff_toNat_le.mpr hpos
  have hle : address.toNat &&& (granule - 1).toNat ≤ (granule - 1).toNat := Nat.and_le_right
  rw [UInt64.toNat_sub_of_le _ _ hone, UInt64.toNat_one] at hle ⊢
  omega

/-- Taking off something, but not all, brings a word closer to zero. -/
theorem toNat_sub_lt {a b : UInt64} (hb : b ≠ 0) (h : ¬ a ≤ b) : (a - b).toNat < a.toNat := by
  have hlt := UInt64.not_le.mp h
  have hpos : 0 < b.toNat := Nat.pos_of_ne_zero fun h0 => hb (UInt64.toNat_inj.mp h0)
  rw [UInt64.toNat_sub_of_le _ _ (UInt64.le_of_lt hlt)]
  have := UInt64.lt_iff_toNat_lt.mp hlt
  omega

theorem IsPowerOfTwo.ne_zero {n : UInt64} (h : IsPowerOfTwo n) : n ≠ 0 := by
  obtain ⟨k, hk⟩ := h
  intro h0
  have hpos : 0 < 1 <<< k.val := Nat.one_shiftLeft k.val ▸ Nat.two_pow_pos k.val
  rw [← hk, h0] at hpos
  exact absurd hpos (by decide)

theorem Granule.bytes_ne_zero (granule : Granule) : granule.bytes ≠ 0 :=
  granule.isPowerOfTwo.ne_zero

theorem alignDown_or_granuleOffset (address granule : UInt64) :
    alignDown address granule ||| granuleOffset address granule = address := by
  unfold alignDown granuleOffset
  rw [← UInt64.toBitVec_inj]
  simp only [UInt64.toBitVec_or, UInt64.toBitVec_and, UInt64.toBitVec_not]
  ext i hi
  simp only [BitVec.getElem_or, BitVec.getElem_and, BitVec.getElem_not]
  cases address.toBitVec[i] <;> simp

/-- The two parts of an address add up to it. -/
theorem alignDown_add_granuleOffset (address granule : UInt64) :
    alignDown address granule + granuleOffset address granule = address := by
  have h : (alignDown address granule).toBitVec &&& (granuleOffset address granule).toBitVec =
      0#64 := by
    unfold alignDown granuleOffset
    simp only [UInt64.toBitVec_and, UInt64.toBitVec_not]
    ext i hi
    simp only [BitVec.getElem_and, BitVec.getElem_not, BitVec.getElem_zero]
    cases (granule - 1).toBitVec[i] <;> simp
  rw [← UInt64.toBitVec_inj, UInt64.toBitVec_add, BitVec.add_eq_or_of_and_eq_zero _ _ h,
    ← UInt64.toBitVec_or, alignDown_or_granuleOffset]

theorem toNat_granuleOffset {address granule : UInt64} (h : IsPowerOfTwo granule) :
    (granuleOffset address granule).toNat = address.toNat % granule.toNat := by
  have hne := h.ne_zero
  obtain ⟨k, hk⟩ := h
  have hone : (1 : UInt64) ≤ granule :=
    UInt64.le_iff_toNat_le.mpr (Nat.pos_of_ne_zero fun h0 => hne (UInt64.toNat_inj.mp h0))
  rw [granuleOffset, UInt64.toNat_and, UInt64.toNat_sub_of_le _ _ hone, UInt64.toNat_one, hk,
    Nat.one_shiftLeft, Nat.and_two_pow_sub_one_eq_mod]

theorem alignDown_le (address granule : UInt64) : alignDown address granule ≤ address := by
  rw [UInt64.le_iff_toNat_le, alignDown, UInt64.toNat_and]
  exact Nat.and_le_left

/-- Rounding down takes off what the address exceeds a multiple by. -/
theorem toNat_alignDown {address granule : UInt64} (h : IsPowerOfTwo granule) :
    (alignDown address granule).toNat = granule.toNat * (address.toNat / granule.toNat) := by
  have hsum := congrArg UInt64.toNat (alignDown_add_granuleOffset address granule)
  have hle := UInt64.le_iff_toNat_le.mp (alignDown_le address granule)
  have haddress := address.toNat_lt
  have hsplit := Nat.div_add_mod address.toNat granule.toNat
  have hoffset := (granuleOffset address granule).toNat_lt
  rw [UInt64.toNat_add] at hsum
  have hmod : (granuleOffset address granule).toNat = address.toNat % granule.toNat :=
    toNat_granuleOffset h
  have hmodle := Nat.mod_le address.toNat granule.toNat
  omega

/-- The addresses from `start` on, `length` of them. -/
structure Span where
  /-- The first address. -/
  start : Address
  /-- The number of addresses. -/
  length : UInt64
deriving DecidableEq, Repr, Inhabited

namespace Span

/-- An address lies in a span when its distance from the start is below the length. -/
instance : Membership Address Span where
  mem span address := span.start ≤ address ∧ address - span.start < span.length

theorem mem_iff {address : Address} {span : Span} :
    address ∈ span ↔ span.start ≤ address ∧ address - span.start < span.length :=
  Iff.rfl

instance (address : Address) (span : Span) : Decidable (address ∈ span) :=
  decidable_of_iff _ mem_iff.symm

/-- Membership compares natural numbers, so the end of a span never wraps. -/
theorem mem_iff_toNat {address : Address} {span : Span} :
    address ∈ span ↔ span.start.toNat ≤ address.toNat ∧
      address.toNat < span.start.toNat + span.length.toNat := by
  rw [mem_iff, UInt64.le_iff_toNat_le, UInt64.lt_iff_toNat_lt]
  constructor
  · rintro ⟨hle, hlt⟩
    rw [UInt64.toNat_sub_of_le _ _ (UInt64.le_iff_toNat_le.mpr hle)] at hlt
    omega
  · rintro ⟨hle, hlt⟩
    refine ⟨hle, ?_⟩
    rw [UInt64.toNat_sub_of_le _ _ (UInt64.le_iff_toNat_le.mpr hle)]
    omega

/-- The last address of a span that is not empty, cut off at the end of the
address space. -/
def last (span : Span) : Address :=
  addSaturating span.start (span.length - 1)

/-- The address after the last one, cut off at the end of the address space. -/
def stop (span : Span) : Address :=
  addSaturating span.start span.length

end Span

end AtsEndpoint
