import AtsEndpoint.Proofs.Mounting
import AtsEndpoint.Tool.Run

/-!
# Bringing up an endpoint on a buffer

A setup admits a buffer when its granule is a power of two, both bases are
multiples of the granule, and the buffer, filled up to whole granules, can be
had and ends inside the address space on either side. Then the buffer is mapped
and an endpoint comes up on it, whatever the failure policy is.
-/

namespace AtsEndpoint.Tool.Setup

variable {setup : Setup} {length : Nat}

/-! ## Whole granules -/

theorem dvd_paddedSize (setup : Setup) (length : Nat) :
    setup.granule.toNat ∣ setup.paddedSize length :=
  Nat.dvd_mul_left _ _

/-- The padded size is the first multiple of the granule that is large enough,
and at least one granule. -/
theorem paddedSize_bounds (hgranule : 0 < setup.granule.toNat) (length : Nat) :
    max length 1 ≤ setup.paddedSize length ∧
      setup.paddedSize length < max length 1 + setup.granule.toNat := by
  have hsplit := Nat.div_add_mod' (max length 1 + setup.granule.toNat - 1) setup.granule.toNat
  have hmod := Nat.mod_lt (max length 1 + setup.granule.toNat - 1) hgranule
  have hpos : 1 ≤ max length 1 := Nat.le_max_right _ _
  rw [paddedSize]
  omega

/-- A buffer of whole granules is not padded. -/
theorem paddedSize_eq_self (hgranule : 0 < setup.granule.toNat) (hpos : 0 < length)
    (hdvd : setup.granule.toNat ∣ length) : setup.paddedSize length = length := by
  obtain ⟨hle, hlt⟩ := paddedSize_bounds hgranule length
  rw [Nat.max_eq_left hpos] at hle hlt
  obtain ⟨more, hmore⟩ := Nat.dvd_sub (setup.dvd_paddedSize length) hdvd
  have hzero : more = 0 := by
    refine Nat.eq_zero_of_not_pos fun hmorePos => ?_
    have hgrows := Nat.le_mul_of_pos_right setup.granule.toNat hmorePos
    omega
  rw [hzero, Nat.mul_zero] at hmore
  omega

/-! ## Mapping the buffer -/

/-- A buffer of this many bytes can be mapped. -/
structure Admits (setup : Setup) (length : Nat) : Prop where
  granule : IsPowerOfTwo setup.granule
  dvd_iova : setup.granule.toNat ∣ setup.iova.toNat
  dvd_physBase : setup.granule.toNat ∣ setup.physBase.toNat
  iova_stop_le : setup.iova.toNat + setup.paddedSize length ≤ 2 ^ 64
  phys_stop_le : setup.physBase.toNat + setup.paddedSize length ≤ 2 ^ 64
  size_lt : setup.paddedSize length < sizeLimit

namespace Admits

variable (h : setup.Admits length)
include h

theorem toNat_size : (setup.paddedSize length).toUInt64.toNat = setup.paddedSize length :=
  Nat.mod_eq_of_lt (Nat.lt_trans h.size_lt (by decide))

theorem length_le : length ≤ setup.paddedSize length :=
  Nat.le_trans (Nat.le_max_left _ _) (paddedSize_bounds h.granule.toNat_pos length).1

theorem size_ne_zero : (setup.paddedSize length).toUInt64 ≠ 0 := by
  intro hzero
  have hsize := congrArg UInt64.toNat hzero
  have hpos : 1 ≤ setup.paddedSize length :=
    Nat.le_trans (Nat.le_max_right _ _) (paddedSize_bounds h.granule.toNat_pos length).1
  rw [h.toNat_size] at hsize
  exact Nat.ne_of_gt hpos hsize

/-- The buffer, as it is mapped. -/
def buffer (grants : Permissions) : Buffer where
  page := ⟨setup.granule, h.granule⟩
  mapping := ⟨⟨setup.iova, (setup.paddedSize length).toUInt64⟩, setup.physBase, grants⟩
  paged := by
    refine ⟨h.size_ne_zero, h.dvd_iova, ?_, h.dvd_physBase⟩
    change _ ∣ (setup.paddedSize length).toUInt64.toNat
    rw [h.toNat_size]
    exact setup.dvd_paddedSize length
  stop_le := by
    change setup.iova.toNat + (setup.paddedSize length).toUInt64.toNat ≤ _
    rw [h.toNat_size]
    exact h.iova_stop_le
  bounded := by
    change setup.physBase.toNat + (setup.paddedSize length).toUInt64.toNat ≤ _
    rw [h.toNat_size]
    exact h.phys_stop_le

theorem size_buffer (grants : Permissions) :
    (h.buffer grants).size = setup.paddedSize length :=
  h.toNat_size

theorem address_eq (grants : Permissions) (position : Nat) :
    (h.buffer grants).address position = setup.iova + position.toUInt64 := rfl

theorem address_zero (grants : Permissions) : (h.buffer grants).address 0 = setup.iova :=
  UInt64.add_zero _

/-- The mapping of the buffer is accepted. -/
theorem isAligned : Iommu.isAligned { pageSize := setup.granule }
    ⟨setup.iova, (setup.paddedSize length).toUInt64⟩ setup.physBase := by
  have hpaged := (h.buffer .none).paged
  have hclear {word : UInt64} (hdvd : setup.granule.toNat ∣ word.toNat) :
      granuleOffset word setup.granule = 0 := (granuleOffset_eq_zero_iff h.granule).mpr hdvd
  have hparts : granuleOffset (setup.iova ||| setup.physBase |||
      (setup.paddedSize length).toUInt64) setup.granule = 0 := by
    rw [granuleOffset_or_eq_zero_iff, granuleOffset_or_eq_zero_iff]
    exact ⟨⟨hclear h.dvd_iova, hclear h.dvd_physBase⟩, hclear hpaged.dvd_length⟩
  simp only [Iommu.isAligned, hparts, Bool.decide_and, decide_true, Bool.and_true,
    decide_eq_true_eq]
  exact h.size_ne_zero

theorem mapBuffer_eq (grants : Permissions) :
    setup.mapBuffer length grants = .ok (h.buffer grants).table := by
  have hcheck : setup.config.check = .ok () := Config.check_eq_ok_iff.mpr h.granule
  have hmapped : Iommu.map { pageSize := setup.granule }
      ⟨setup.iova, (setup.paddedSize length).toUInt64⟩ setup.physBase grants =
        { result := .ok ()
          state := (h.buffer grants).table
          trace := #[.remark (.mapped ⟨setup.iova, (setup.paddedSize length).toUInt64⟩
            setup.physBase grants)] } := by
    rw [Iommu.map, h.isAligned]
    rfl
  unfold mapBuffer
  simp only [hcheck, hmapped]
  exact if_neg (Nat.not_le.mpr h.size_lt)

end Admits

/-- An endpoint comes up that mounts the buffer, with nothing cached and no
request counted. -/
theorem Admits.bring_eq {contents : ByteArray} (h : setup.Admits contents.size)
    (grants : Permissions) :
    ∃ endpoint, setup.bring (h.buffer grants).table contents = .ok endpoint ∧
      endpoint.Mounts (h.buffer grants) contents ∧ endpoint.cache = {} ∧
        endpoint.completed = 0 := by
  have hvalid : setup.config.IsValid := h.granule
  have hboot : setup.bring (h.buffer grants).table contents =
      .ok { agent := (h.buffer grants).iommu
            memory := .ofBytes setup.physBase contents (setup.paddedSize contents.size)
            config := setup.config
            config_valid := hvalid } := by
    unfold bring
    simp only [Endpoint.bootLinked, Endpoint.boot, dif_pos hvalid]
    rfl
  refine ⟨_, hboot, ?_, rfl, rfl⟩
  constructor
  · exact ⟨rfl, rfl, rfl⟩
  · rfl
  · exact ⟨.refl _, by simp⟩
  · rw [h.size_buffer]
    exact h.length_le
  · rw [Buffer.memory, h.size_buffer]
    rfl

end AtsEndpoint.Tool.Setup
