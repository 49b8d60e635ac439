import AtsEndpoint.Address
import AtsEndpoint.Permissions

/-!
# Translations and regions

A translation agent answers a request for an address with a granule: where it
begins on the physical side, how long it is, and what it grants. A region is
such an answer kept in the cache. It begins at the requested address rounded
down to the answered length and never has length zero.
-/

namespace AtsEndpoint

/-- What the endpoint asks a translation agent. -/
structure TranslationRequest where
  /-- The virtual address to translate. -/
  address : Address
  /-- The permissions asked for. -/
  wanted : Permissions
deriving DecidableEq, Repr

/-- What a translation agent grants. -/
structure Translation where
  /-- The physical start of the granule. -/
  target : Address
  /-- The length of the granule in bytes. -/
  length : UInt64
  /-- The permissions granted. -/
  grants : Permissions
deriving DecidableEq, Repr

/-- A granule kept in the cache. -/
structure Region where
  /-- The virtual addresses of the granule. -/
  span : Span
  /-- The physical start of the granule. -/
  target : Address
  /-- The permissions granted. -/
  grants : Permissions
  /-- A region holds at least one address. -/
  length_ne_zero : span.length ≠ 0
deriving DecidableEq, Repr

namespace Region

/-- The region of an answer to a request for `address`. -/
def ofTranslation (address : Address) (answer : Translation) (h : answer.length ≠ 0) : Region :=
  ⟨⟨alignDown address answer.length, answer.length⟩, answer.target, answer.grants, h⟩

/-- The physical address for a virtual one: the position inside the granule is
put into the low bits of the physical start. This is the image of the address
when both sides of the granule are aligned to a power-of-two length. -/
def translate (region : Region) (address : Address) : Address :=
  region.target ||| granuleOffset address region.span.length

/-- The last address of the region. -/
def last (region : Region) : Address :=
  region.span.last

/-- The first or the last address of the region lies in the range. -/
def hasBoundaryIn (region : Region) (range : Span) : Bool :=
  region.span.start ∈ range ∨ region.last ∈ range

/-- The region and the range, if it is not empty, have an address in common. -/
def meets (region : Region) (range : Span) : Bool :=
  range.length ≠ 0 ∧ region.span.start ≤ range.last ∧ range.start ≤ region.last

theorem hasBoundaryIn_iff {region : Region} {range : Span} :
    region.hasBoundaryIn range ↔ region.span.start ∈ range ∨ region.last ∈ range := by
  simp [hasBoundaryIn]

theorem meets_iff {region : Region} {range : Span} :
    region.meets range ↔
      range.length ≠ 0 ∧ region.span.start ≤ range.last ∧ range.start ≤ region.last := by
  simp [meets]

/-- The number of bytes from a physical address to the end of its granule, the
granule being as long as the region. -/
def room (region : Region) (physical : Address) : UInt64 :=
  region.span.length - granuleOffset physical region.span.length

/-- The bytes taken in one piece from a physical address on, when so many
remain: none of them lies beyond the granule. -/
def chunk (region : Region) (physical : Address) (remaining : UInt64) : UInt64 :=
  if remaining ≤ region.room physical then remaining else region.room physical

theorem toNat_room (region : Region) (physical : Address) :
    (region.room physical).toNat =
      region.span.length.toNat - (granuleOffset physical region.span.length).toNat :=
  UInt64.toNat_sub_of_le _ _ (UInt64.le_of_lt (granuleOffset_lt region.length_ne_zero))

theorem room_ne_zero (region : Region) (physical : Address) : region.room physical ≠ 0 := by
  intro h0
  have h1 := congrArg UInt64.toNat h0
  have hoffset : granuleOffset physical region.span.length < region.span.length :=
    granuleOffset_lt region.length_ne_zero
  have h2 := UInt64.lt_iff_toNat_lt.mp hoffset
  rw [toNat_room] at h1
  change _ = 0 at h1
  omega

theorem chunk_le (region : Region) (physical : Address) (remaining : UInt64) :
    region.chunk physical remaining ≤ remaining := by
  unfold chunk
  split
  · exact UInt64.le_refl _
  · exact UInt64.le_of_lt (UInt64.not_le.mp ‹_›)

theorem chunk_ne_zero (region : Region) (physical : Address) {remaining : UInt64}
    (h : remaining ≠ 0) : region.chunk physical remaining ≠ 0 := by
  unfold chunk
  split
  · exact h
  · exact region.room_ne_zero physical

theorem toNat_chunk_pos (region : Region) (physical : Address) {remaining : UInt64}
    (h : remaining ≠ 0) : 0 < (region.chunk physical remaining).toNat :=
  Nat.pos_of_ne_zero fun h0 => region.chunk_ne_zero physical h (UInt64.toNat_inj.mp h0)

/-- Each piece brings a walk closer to its end. -/
theorem toNat_sub_chunk_lt (region : Region) (physical : Address) {remaining : UInt64}
    (h : remaining ≠ 0) :
    (remaining - region.chunk physical remaining).toNat < remaining.toNat := by
  have hle := region.chunk_le physical remaining
  have hpos := region.toNat_chunk_pos physical h
  rw [UInt64.toNat_sub_of_le _ _ hle]
  have := UInt64.le_iff_toNat_le.mp hle
  omega

end Region

end AtsEndpoint
