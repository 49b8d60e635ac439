import AtsEndpoint.Proofs.Lockstep
import AtsEndpoint.Proofs.Operations
import AtsEndpoint.Proofs.Words

/-!
# A mapped buffer

A host lays out a buffer in whole pages, maps it, and gives the endpoint nothing
else to reach. The pages are the blocks that its IOMMU answers with, also when
they have a single byte. The buffer goes on from one page to the next on both
sides, so a walk over the pages reads the bytes of the buffer in a row, and a
word may lie across pages.

Every operation on such a buffer ends well, does to its bytes what it is asked
to, and leaves the endpoint ready for the next one.
-/

namespace AtsEndpoint

/-- A buffer in whole pages of one size, which does not wrap on either side. -/
structure Buffer where
  /-- The size of a page. -/
  page : Granule
  /-- Where the buffer lies on either side, and what is granted there. -/
  mapping : Mapping
  paged : mapping.IsPaged page.bytes
  stop_le : mapping.range.start.toNat + mapping.range.length.toNat ≤ 2 ^ 64
  bounded : mapping.IsBounded

namespace Buffer

variable (buffer : Buffer)

/-- The size in bytes. -/
def size : Nat := buffer.mapping.range.length.toNat

/-- The virtual address of a position. -/
def address (position : Nat) : Address :=
  buffer.mapping.range.start + position.toUInt64

/-- The physical address of a position. -/
def physical (position : Nat) : Address :=
  buffer.mapping.target + position.toUInt64

/-- The IOMMU that has the buffer mapped and nothing else. -/
def table : Iommu :=
  { pageSize := buffer.page.bytes, mappings := [buffer.mapping] }

/-- The same, linked to an endpoint. -/
def iommu : Iommu :=
  { buffer.table with linked := true }

theorem isPaged_iommu : buffer.iommu.IsPaged :=
  ⟨buffer.page.isPowerOfTwo, buffer.page.isPowerOfTwo, List.forall_mem_singleton.mpr buffer.paged⟩

/-- Every answer is one page. -/
theorem answerLength_iommu (address : Address) :
    buffer.iommu.answerLength buffer.mapping address = buffer.page.bytes := by
  obtain ⟨hlarge, _⟩ | ⟨_, hlength⟩ := buffer.iommu.answerLength_cases buffer.mapping address
  · exact absurd hlarge (UInt64.lt_irrefl _)
  · exact hlength

theorem find?_iommu (address : Address) : buffer.iommu.find? address =
    if address ∈ buffer.mapping.range then some buffer.mapping else none := by
  simp only [Iommu.find?, iommu, table, List.find?_cons, List.find?_nil]
  split <;> simp_all

/-! ## The pages -/

/-- The page that is answered for an address of the buffer. -/
def pageAt (address : Address) : Region :=
  .ofTranslation address (buffer.iommu.answer buffer.mapping ⟨address, .all⟩)
    (buffer.isPaged_iommu.answerLength_ne_zero buffer.mapping address)

variable {buffer} {address : Address}

theorem cuts_pageAt (h : address ∈ buffer.mapping.range) :
    buffer.iommu.Cuts buffer.mapping (buffer.pageAt address) :=
  ⟨address, h, _, rfl⟩

theorem mem_pageAt (buffer : Buffer) (address : Address) :
    address ∈ (buffer.pageAt address).span :=
  Span.IsAligned.mem_around address
    (buffer.isPaged_iommu.isPowerOfTwo_answerLength buffer.mapping address)

/-- A page translates as the buffer is laid out. -/
theorem translate_pageAt (h : address ∈ buffer.mapping.range) :
    (buffer.pageAt address).translate address = buffer.mapping.image address :=
  (cuts_pageAt h).translate_eq buffer.isPaged_iommu buffer.paged (buffer.mem_pageAt address)

/-- A page does not leave the buffer. -/
theorem mem_range_of_mem_pageAt {other : Address} (h : address ∈ buffer.mapping.range)
    (hmem : other ∈ (buffer.pageAt address).span) : other ∈ buffer.mapping.range := by
  have hwhole {x : Address} :
      alignDown x buffer.page.bytes ∈ buffer.mapping.range ↔ x ∈ buffer.mapping.range :=
    Span.alignDown_mem_iff_of_dvd buffer.page.isPowerOfTwo buffer.paged.dvd_start
      buffer.paged.dvd_length
  have haround : other ∈ Span.around address buffer.page.bytes := by
    rw [← buffer.answerLength_iommu address]
    exact hmem
  have hdown : alignDown other buffer.page.bytes = alignDown address buffer.page.bytes :=
    (Span.isAligned_around address buffer.page.isPowerOfTwo).alignDown_eq haround
  rw [← hwhole, hdown, hwhole]
  exact h

variable (buffer)

/-- The pages of the buffer. -/
def pages : BlockMap where
  find? address := if address ∈ buffer.mapping.range then some (buffer.pageAt address) else none
  mem := by
    intro address page hfound
    obtain ⟨_, heq⟩ := Option.ite_none_right_eq_some.mp hfound
    cases heq
    exact buffer.mem_pageAt address
  natural := by
    intro address page hfound
    obtain ⟨hmem, heq⟩ := Option.ite_none_right_eq_some.mp hfound
    cases heq
    exact (cuts_pageAt hmem).isNatural buffer.isPaged_iommu buffer.paged
  constant := by
    intro address other page hfound hother
    obtain ⟨hmem, heq⟩ := Option.ite_none_right_eq_some.mp hfound
    cases heq
    have hsame := (cuts_pageAt hmem).eq_of_mem buffer.isPaged_iommu hother
    rw [if_pos (mem_range_of_mem_pageAt hmem hother), hsame]
    rfl

theorem find?_pages (address : Address) : buffer.pages.find? address =
    if address ∈ buffer.mapping.range then some (buffer.pageAt address) else none := rfl

theorem serves_pages : buffer.pages.Serves buffer.iommu.Later where
  answer agent hagent address := by
    have hfound := buffer.find?_iommu address
    rw [hagent.answer_eq, buffer.find?_pages]
    by_cases hmem : address ∈ buffer.mapping.range
    · rw [if_pos hmem] at hfound ⊢
      rw [hfound]
      rfl
    · rw [if_neg hmem] at hfound ⊢
      rw [hfound]
      rfl
  next _ hagent _ := hagent.translate _

theorem coversGranule_pages : buffer.pages.CoversGranule buffer.page := by
  intro address page hfound
  obtain ⟨_, heq⟩ := Option.ite_none_right_eq_some.mp hfound
  cases heq
  exact buffer.iommu.pageSize_le_answerLength buffer.mapping address

/-! ## Positions -/

section Positions

variable {buffer} {position : Nat} (h : position < buffer.size)
include h

theorem toNat_address : (buffer.address position).toNat =
    buffer.mapping.range.start.toNat + position := by
  have hstop := buffer.stop_le
  rw [address, toNat_add_toUInt64]
  exact Nat.mod_eq_of_lt (Nat.lt_of_lt_of_le (Nat.add_lt_add_left h _) hstop)

theorem toNat_physical : (buffer.physical position).toNat =
    buffer.mapping.target.toNat + position := by
  have hbounded := buffer.bounded
  rw [physical, toNat_add_toUInt64]
  exact Nat.mod_eq_of_lt (Nat.lt_of_lt_of_le (Nat.add_lt_add_left h _) hbounded)

theorem address_mem : buffer.address position ∈ buffer.mapping.range := by
  rw [Span.mem_iff_toNat, toNat_address h]
  exact ⟨Nat.le_add_right _ _, Nat.add_lt_add_left h _⟩

omit h in
theorem image_address (buffer : Buffer) (position : Nat) :
    buffer.mapping.image (buffer.address position) = buffer.physical position := by
  simp only [Mapping.image, address, physical]
  grind

/-- The address of a position finds the page around it. -/
theorem find?_address :
    buffer.pages.find? (buffer.address position) = some (buffer.pageAt (buffer.address position)) :=
  if_pos (address_mem h)

theorem translate_address : (buffer.pageAt (buffer.address position)).translate
    (buffer.address position) = buffer.physical position := by
  rw [translate_pageAt (address_mem h), image_address]

end Positions

theorem address_add (position : Nat) (count : UInt64) :
    buffer.address position + count = buffer.address (position + count.toNat) := by
  have hsum : (position + count.toNat).toUInt64 = position.toUInt64 + count.toNat.toUInt64 :=
    UInt64.ofNat_add _ _
  have hcount : count.toNat.toUInt64 = count := UInt64.ofNat_toNat
  rw [address, address, hsum, hcount, UInt64.add_assoc]

/-- A page grants what the buffer grants. -/
theorem intersects_pageAt {wanted : Permissions} (hwanted : wanted &&& .all = wanted)
    (address : Address) : (buffer.pageAt address).grants.intersects wanted =
      buffer.mapping.grants.intersects wanted :=
  Permissions.intersects_all_and hwanted buffer.mapping.grants

/-! ## Bytes in a row -/

/-- The memory behind the buffer, which begins with some contents and is filled
up with zeros. -/
def memory (contents : ByteArray) : HostMemory :=
  .ofBytes buffer.mapping.target contents buffer.size

variable {buffer} {contents : ByteArray}

/-- An access inside the buffer is found at its position in memory. -/
theorem locate_physical (contents : ByteArray) {position count : Nat}
    (hposition : position < buffer.size) (hroom : position + count ≤ buffer.size) :
    (buffer.memory contents).locate (buffer.physical position) count = .ok position := by
  have hphysical := toNat_physical hposition
  have hoffset : (buffer.physical position).toNat - (buffer.memory contents).base.toNat =
      position := by
    rw [hphysical]
    exact Nat.add_sub_cancel_left _ _
  have hcovers : (buffer.memory contents).Covers (buffer.physical position) count := by
    refine ⟨?_, ?_⟩
    · rw [UInt64.le_iff_toNat_le, hphysical]
      exact Nat.le_add_right _ _
    · rw [hoffset]
      exact Nat.le_trans hroom (Nat.le_max_left _ _)
  rw [HostMemory.locate_of_covers hcovers, hoffset]

theorem peek_physical (contents : ByteArray) {position count : Nat}
    (hposition : position < buffer.size) (hroom : position + count ≤ buffer.size) :
    (buffer.memory contents).peek (buffer.physical position) count =
      .ok ((buffer.memory contents).slice position count) := by
  rw [HostMemory.peek, locate_physical contents hposition hroom]

/-- Storing bytes among the contents replaces them there. -/
theorem poke_physical (hfits : contents.size ≤ buffer.size) {position : Nat} {bytes : List UInt8}
    (hposition : position < buffer.size) (hroom : position + bytes.length ≤ contents.size) :
    (buffer.memory contents).poke (buffer.physical position) bytes =
      .ok (buffer.memory (spliceBytes contents position bytes)) := by
  have hlocate := locate_physical contents hposition (Nat.le_trans hroom hfits)
  rw [HostMemory.poke_of_locate hlocate]
  exact congrArg Except.ok (HostMemory.store_ofBytes _ hroom)

/-- A walk over the pages reads the bytes of the buffer in a row. -/
theorem gather_pages (contents : ByteArray) (hreadable : buffer.mapping.grants.intersects .read)
    (position : Nat) (remaining : UInt64) (bytes : ByteArray)
    (hroom : position + remaining.toNat ≤ buffer.size) :
    buffer.pages.gather (buffer.memory contents) (buffer.address position) remaining bytes =
      .ok ⟨bytes ++ ((buffer.memory contents).slice position remaining.toNat).val, 0⟩ := by
  -- On the number of bytes that remain, since a page may hold any number of them.
  induction hcount : remaining.toNat using Nat.strongRecOn
    generalizing position remaining bytes with
  | ind count ih =>
      subst hcount
      rw [BlockMap.gather]
      by_cases hzero : remaining = 0
      · have hnone : ((buffer.memory contents).slice position (0 : UInt64).toNat).val = .empty :=
          ByteArray.size_eq_zero_iff.mp ((buffer.memory contents).slice position 0).property
        rw [if_pos hzero, hzero, hnone, ByteArray.append_empty]
      · let page := buffer.pageAt (buffer.address position)
        let chunk := page.chunk (buffer.physical position) remaining
        have hpos : 0 < chunk.toNat := page.toNat_chunk_pos _ hzero
        have hle : chunk.toNat ≤ remaining.toNat :=
          UInt64.le_iff_toNat_le.mp (page.chunk_le _ remaining)
        have hposition : position < buffer.size := by omega
        have hpage : (buffer.pages.find? (buffer.address position)).filter
            (fun block => block.grants.intersects .read) = some page := by
          rw [find?_address hposition, Option.filter_some, if_pos]
          rw [buffer.intersects_pageAt rfl]
          exact hreadable
        have hpeek : (buffer.memory contents).peek (buffer.physical position) chunk.toNat =
            .ok ((buffer.memory contents).slice position chunk.toNat) :=
          peek_physical contents hposition (Nat.le_trans (Nat.add_le_add_left hle position) hroom)
        have hrest : (remaining - chunk).toNat = remaining.toNat - chunk.toNat :=
          UInt64.toNat_sub_of_le _ _ (page.chunk_le _ remaining)
        have hsplit :=
          (buffer.memory contents).slice_add position chunk.toNat (remaining - chunk).toNat
        rw [hrest, Nat.add_sub_cancel' hle, ← hrest] at hsplit
        rw [if_neg hzero, hpage]
        dsimp only
        rw [translate_address hposition, hpeek]
        change buffer.pages.gather _ (buffer.address position + chunk) (remaining - chunk)
          (bytes ++ ((buffer.memory contents).slice position chunk.toNat).val) = _
        rw [buffer.address_add, ih _ (by omega) _ _ _ (by omega) rfl, ByteArray.append_assoc,
          hsplit]

end Buffer

end AtsEndpoint
