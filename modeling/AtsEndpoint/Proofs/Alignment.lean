import Mathlib.Algebra.Group.Nat.Defs
import AtsEndpoint.Region

/-!
# Aligned spans

A span is aligned when its length is a power of two that divides its start.
Aligned spans behave like the digits of an address: membership compares
quotients, the span around an address is found by rounding down, and a finer
rounding never leaves the span. On the physical side, putting an offset into
the low bits of an aligned start is the same as adding it.

These facts are stated on natural numbers, where the end of the address space
is an ordinary bound and no sum wraps.
-/

namespace AtsEndpoint

theorem toNat_pos_of_ne_zero {n : UInt64} (h : n ≠ 0) : 0 < n.toNat :=
  Nat.pos_of_ne_zero fun hzero => h (UInt64.toNat_inj.mp hzero)

theorem add_lt_left_iff {a b : UInt64} : a + b < a ↔ 2 ^ 64 ≤ a.toNat + b.toNat := by
  have ha := a.toNat_lt
  have hb := b.toNat_lt
  rw [UInt64.lt_iff_toNat_lt, UInt64.toNat_add]
  omega

theorem toNat_addSaturating (a b : UInt64) :
    (addSaturating a b).toNat = min (a.toNat + b.toNat) (2 ^ 64 - 1) := by
  have ha := a.toNat_lt
  have hb := b.toNat_lt
  unfold addSaturating
  split
  case isTrue h =>
    have h' := add_lt_left_iff.mp h
    have hmax : (~~~0 : UInt64).toNat = 2 ^ 64 - 1 := by decide
    omega
  case isFalse h =>
    have h' := mt add_lt_left_iff.mpr h
    rw [UInt64.toNat_add]
    omega

theorem addSaturating_ne_zero {a : UInt64} (h : a ≠ 0) (b : UInt64) : addSaturating a b ≠ 0 := by
  have hpos := toNat_pos_of_ne_zero h
  rw [Ne, ← UInt64.toNat_inj, toNat_addSaturating]
  change min (a.toNat + b.toNat) (2 ^ 64 - 1) ≠ 0
  omega

theorem addChecked?_eq_none_iff {a b : UInt64} :
    addChecked? a b = none ↔ 2 ^ 64 ≤ a.toNat + b.toNat := by
  rw [← add_lt_left_iff, addChecked?]
  split <;> simp [*]

theorem toNat_of_addChecked?_eq_some {a b sum : UInt64} (h : addChecked? a b = some sum) :
    sum.toNat = a.toNat + b.toNat := by
  have hfits : ¬ 2 ^ 64 ≤ a.toNat + b.toNat := fun hover =>
    Option.some_ne_none sum (h.symm.trans (addChecked?_eq_none_iff.mpr hover))
  unfold addChecked? at h
  split at h
  · cases h
  · obtain rfl := Option.some.inj h
    rw [UInt64.toNat_add]
    exact Nat.mod_eq_of_lt (Nat.not_le.mp hfits)

theorem IsPowerOfTwo.exists_toNat_eq {n : UInt64} (h : IsPowerOfTwo n) :
    ∃ k : Fin 64, n.toNat = 2 ^ k.val := by
  obtain ⟨k, hk⟩ := h
  exact ⟨k, hk.trans (Nat.one_shiftLeft k.val)⟩

theorem IsPowerOfTwo.toNat_pos {n : UInt64} (h : IsPowerOfTwo n) : 0 < n.toNat := by
  obtain ⟨k, hk⟩ := h.exists_toNat_eq
  rw [hk]
  exact Nat.two_pow_pos k.val

theorem IsPowerOfTwo.toNat_le {n : UInt64} (h : IsPowerOfTwo n) : n.toNat ≤ 2 ^ 63 := by
  obtain ⟨k, hk⟩ := h.exists_toNat_eq
  rw [hk]
  exact Nat.pow_le_pow_right (by decide) (Nat.le_of_lt_succ k.isLt)

/-- Of two powers of two, the smaller one divides the larger one. -/
theorem IsPowerOfTwo.dvd_of_le {a b : UInt64} (ha : IsPowerOfTwo a) (hb : IsPowerOfTwo b)
    (hle : a ≤ b) : a.toNat ∣ b.toNat := by
  have hle := UInt64.le_iff_toNat_le.mp hle
  obtain ⟨j, hj⟩ := ha.exists_toNat_eq
  obtain ⟨k, hk⟩ := hb.exists_toNat_eq
  rw [hj, hk] at hle ⊢
  exact Nat.pow_dvd_pow 2 ((Nat.pow_le_pow_iff_right (by decide)).mp hle)

/-- The address space is made of whole blocks of any power of two. -/
theorem IsPowerOfTwo.dvd_size {n : UInt64} (h : IsPowerOfTwo n) : n.toNat ∣ 2 ^ 64 := by
  obtain ⟨k, hk⟩ := h.exists_toNat_eq
  rw [hk]
  exact Nat.pow_dvd_pow 2 (Nat.le_of_lt k.isLt)

theorem granuleOffset_eq_zero_iff {address granule : UInt64} (h : IsPowerOfTwo granule) :
    granuleOffset address granule = 0 ↔ granule.toNat ∣ address.toNat := by
  rw [← UInt64.toNat_inj, toNat_granuleOffset h]
  exact (Nat.dvd_iff_mod_eq_zero).symm

/-- Rounding down lands on a multiple of the granule. -/
theorem dvd_toNat_alignDown (address : UInt64) {granule : UInt64} (h : IsPowerOfTwo granule) :
    granule.toNat ∣ (alignDown address granule).toNat := by
  rw [toNat_alignDown h]
  exact Nat.dvd_mul_right _ _

theorem alignDown_eq_self {address granule : UInt64} (h : IsPowerOfTwo granule)
    (hdvd : granule.toNat ∣ address.toNat) : alignDown address granule = address := by
  apply UInt64.toNat_inj.mp
  rw [toNat_alignDown h]
  exact Nat.mul_div_cancel' hdvd

/-- An aligned start has clear low bits, so an offset put there is added. -/
theorem toNat_or_granuleOffset {target address granule : UInt64} (h : IsPowerOfTwo granule)
    (htarget : granule.toNat ∣ target.toNat) :
    (target ||| granuleOffset address granule).toNat =
      target.toNat + address.toNat % granule.toNat := by
  have hoffset : (granuleOffset address granule).toNat = _ := toNat_granuleOffset h
  obtain ⟨k, hk⟩ := h.exists_toNat_eq
  obtain ⟨c, hc⟩ := htarget
  have hlt : address.toNat % granule.toNat < 2 ^ k.val := by
    rw [hk]
    exact Nat.mod_lt _ (Nat.two_pow_pos k.val)
  rw [UInt64.toNat_or, hoffset, hc, hk] at *
  exact (Nat.two_pow_add_eq_or_of_lt hlt c).symm

namespace Span

/-- Rounding down to a granule neither leaves nor enters a span made of whole
granules. -/
theorem alignDown_mem_iff_of_dvd {span : Span} {address granule : UInt64}
    (hgranule : IsPowerOfTwo granule) (hstart : granule.toNat ∣ span.start.toNat)
    (hlength : granule.toNat ∣ span.length.toNat) :
    alignDown address granule ∈ span ↔ address ∈ span := by
  obtain ⟨c, hc⟩ := hstart
  obtain ⟨l, hl⟩ := hlength
  have hpos := hgranule.toNat_pos
  have hsplit := Nat.div_add_mod address.toNat granule.toNat
  have hmod := Nat.mod_lt address.toNat hpos
  rw [mem_iff_toNat, mem_iff_toNat, toNat_alignDown hgranule, hc, hl, ← Nat.mul_add]
  constructor
  · rintro ⟨hle, hlt⟩
    have hnext : address.toNat / granule.toNat + 1 ≤ c + l := Nat.lt_of_mul_lt_mul_left hlt
    have := Nat.mul_le_mul_left granule.toNat hnext
    rw [Nat.mul_succ] at this
    omega
  · rintro ⟨hle, hlt⟩
    refine ⟨Nat.mul_le_mul_left _ ?_, by omega⟩
    rwa [Nat.le_div_iff_mul_le hpos, Nat.mul_comm]

/-- The length is a power of two, and the start is a multiple of it. -/
structure IsAligned (span : Span) : Prop where
  isPowerOfTwo : IsPowerOfTwo span.length
  dvd_start : span.length.toNat ∣ span.start.toNat

/-- The aligned span of a length around an address. -/
def around (address : Address) (length : UInt64) : Span :=
  ⟨alignDown address length, length⟩

theorem isAligned_around (address : Address) {length : UInt64} (h : IsPowerOfTwo length) :
    (around address length).IsAligned :=
  ⟨h, dvd_toNat_alignDown address h⟩

namespace IsAligned

variable {span : Span} {address : Address}

/-- No aligned span passes the end of the address space. -/
theorem stop_le (h : span.IsAligned) : span.start.toNat + span.length.toNat ≤ 2 ^ 64 := by
  obtain ⟨c, hc⟩ := h.dvd_start
  obtain ⟨d, hd⟩ := h.isPowerOfTwo.dvd_size
  have hlt := span.start.toNat_lt
  have hcd : c < d := by
    rw [hc, hd] at hlt
    exact Nat.lt_of_mul_lt_mul_left hlt
  calc span.start.toNat + span.length.toNat
      = span.length.toNat * (c + 1) := by rw [hc, Nat.mul_succ]
    _ ≤ span.length.toNat * d := Nat.mul_le_mul_left _ hcd
    _ = 2 ^ 64 := hd.symm

/-- The addresses of an aligned span are those that round down to its start. -/
theorem mem_iff (h : span.IsAligned) :
    address ∈ span ↔ span.length.toNat * (address.toNat / span.length.toNat) =
      span.start.toNat := by
  have hpos := h.isPowerOfTwo.toNat_pos
  obtain ⟨c, hc⟩ := h.dvd_start
  have hsplit := Nat.div_add_mod address.toNat span.length.toNat
  have hmod := Nat.mod_lt address.toNat hpos
  rw [mem_iff_toNat, hc]
  constructor
  · rintro ⟨hle, hlt⟩
    congr 1
    apply Nat.div_eq_of_lt_le
    · rwa [Nat.mul_comm]
    · rwa [Nat.mul_comm, Nat.mul_succ]
  · intro heq
    omega

theorem alignDown_eq (h : span.IsAligned) (hmem : address ∈ span) :
    alignDown address span.length = span.start := by
  rw [← UInt64.toNat_inj, toNat_alignDown h.isPowerOfTwo]
  exact h.mem_iff.mp hmem

/-- The aligned span around one of its addresses is the span itself. -/
theorem around_eq (h : span.IsAligned) (hmem : address ∈ span) :
    around address span.length = span := by
  rw [around, h.alignDown_eq hmem]

theorem mem_around (address : Address) {length : UInt64} (h : IsPowerOfTwo length) :
    address ∈ around address length := by
  rw [(isAligned_around address h).mem_iff]
  exact (toNat_alignDown h).symm

theorem start_mem (h : span.IsAligned) : span.start ∈ span := by
  have hpos := h.isPowerOfTwo.toNat_pos
  rw [Span.mem_iff_toNat]
  omega

/-- Rounding down to a finer granule neither leaves nor enters an aligned span. -/
theorem alignDown_mem_iff (h : span.IsAligned) {granule : UInt64}
    (hgranule : IsPowerOfTwo granule) (hle : granule ≤ span.length) :
    alignDown address granule ∈ span ↔ address ∈ span := by
  have hdvd := hgranule.dvd_of_le h.isPowerOfTwo hle
  exact alignDown_mem_iff_of_dvd hgranule (Nat.dvd_trans hdvd h.dvd_start) hdvd

end IsAligned

end Span

/-- A region is natural when it is aligned on both sides to its length. -/
structure Region.IsNatural (region : Region) : Prop where
  span_aligned : region.span.IsAligned
  dvd_target : region.span.length.toNat ∣ region.target.toNat

namespace Region.IsNatural

variable {region : Region} {address : Address}

/-- A natural region moves its addresses without changing their distances. -/
theorem toNat_translate (h : region.IsNatural) (hmem : address ∈ region.span) :
    (region.translate address).toNat =
      region.target.toNat + (address.toNat - region.span.start.toNat) := by
  have hmod := Nat.div_add_mod address.toNat region.span.length.toNat
  have hdown := h.span_aligned.mem_iff.mp hmem
  rw [translate, toNat_or_granuleOffset h.span_aligned.isPowerOfTwo h.dvd_target]
  omega

/-- The physical side of a natural region ends inside the address space. -/
theorem target_stop_le (h : region.IsNatural) :
    region.target.toNat + region.span.length.toNat ≤ 2 ^ 64 := by
  have haligned : Span.IsAligned ⟨region.target, region.span.length⟩ :=
    ⟨h.span_aligned.isPowerOfTwo, h.dvd_target⟩
  exact haligned.stop_le

theorem translate_eq (h : region.IsNatural) (hmem : address ∈ region.span) :
    region.translate address = region.target + (address - region.span.start) := by
  obtain ⟨hle, hlt⟩ := Span.mem_iff_toNat.mp hmem
  have hstop := h.target_stop_le
  rw [← UInt64.toNat_inj, h.toNat_translate hmem, UInt64.toNat_add,
    UInt64.toNat_sub_of_le _ _ hmem.1]
  exact (Nat.mod_eq_of_lt (by omega)).symm

/-- Short of its end, a natural region takes the next address to the next one. -/
theorem translate_succ (h : region.IsNatural) (hmem : address ∈ region.span)
    (hnext : address.toNat + 1 < region.span.start.toNat + region.span.length.toNat) :
    address + 1 ∈ region.span ∧ region.translate (address + 1) = region.translate address + 1 := by
  have hstop := h.span_aligned.stop_le
  have hstart := UInt64.le_iff_toNat_le.mp hmem.1
  have hsum : (address + 1).toNat = address.toNat + 1 := by
    rw [UInt64.toNat_add]
    exact Nat.mod_eq_of_lt (by change _ + 1 < _; omega)
  have hmemNext : address + 1 ∈ region.span := Span.mem_iff_toNat.mpr ⟨by omega, by omega⟩
  refine ⟨hmemNext, ?_⟩
  rw [h.translate_eq hmem, h.translate_eq hmemNext]
  grind

/-- The room behind a translated address is the rest of the region. -/
theorem toNat_room_translate (h : region.IsNatural) (hmem : address ∈ region.span) :
    (region.room (region.translate address)).toNat =
      region.span.start.toNat + region.span.length.toNat - address.toNat := by
  obtain ⟨hle, hlt⟩ := Span.mem_iff_toNat.mp hmem
  obtain ⟨c, hc⟩ := h.dvd_target
  rw [toNat_room, toNat_granuleOffset h.span_aligned.isPowerOfTwo, h.toNat_translate hmem, hc,
    Nat.mul_add_mod, Nat.mod_eq_of_lt (by omega)]
  omega

/-- A piece of a natural region does not leave the region. -/
theorem chunk_stop_le (h : region.IsNatural) (hmem : address ∈ region.span) (remaining : UInt64) :
    address.toNat + (region.chunk (region.translate address) remaining).toNat ≤
      region.span.start.toNat + region.span.length.toNat := by
  have hroom := h.toNat_room_translate hmem
  have hlt := (Span.mem_iff_toNat.mp hmem).2
  unfold chunk
  split
  next hle =>
    have hle := UInt64.le_iff_toNat_le.mp hle
    omega
  next => omega

end Region.IsNatural

end AtsEndpoint
