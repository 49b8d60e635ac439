import AtsEndpoint.Agent
import AtsEndpoint.Notice

/-!
# The software IOMMU

An IOMMU keeps a table of mappings, each a range of whole pages with a physical
start and permissions. A new mapping must not meet one that is there. A request
is answered from the mapping that holds its address: with the large granule
where the whole aligned block around the address is mapped and its physical
side is aligned too, and otherwise with one page.

Unmapping a range takes away every mapping that meets it. An IOMMU that is
linked to an endpoint then announces the range with one notice.
-/

namespace AtsEndpoint

/-- Two ranges meet. Their ends are cut off at the end of the address space. -/
def Span.overlaps (a b : Span) : Bool :=
  b.start < a.stop ∧ a.start < b.stop

theorem Span.overlaps_iff {a b : Span} : a.overlaps b ↔ b.start < a.stop ∧ a.start < b.stop := by
  simp [overlaps]

/-- A mapped range. -/
structure Mapping where
  /-- The virtual addresses. -/
  range : Span
  /-- The physical start. -/
  target : Address
  /-- The permissions granted. -/
  grants : Permissions
deriving DecidableEq, Repr

/-- The physical address for a virtual one inside the mapping. -/
def Mapping.image (mapping : Mapping) (address : Address) : Address :=
  mapping.target + (address - mapping.range.start)

/-- A translation agent with a table of mappings. -/
structure Iommu where
  /-- The unit of mapping. -/
  pageSize : UInt64 := 4096
  /-- The granule to answer with where the mapping allows it. -/
  granule : UInt64 := pageSize
  /-- The mappings, the oldest first. -/
  mappings : List Mapping := []
  /-- Unmapped ranges are announced to an endpoint. -/
  linked : Bool := false
  /-- The number of requests answered. -/
  served : Nat := 0
deriving DecidableEq, Repr

namespace Iommu

/-- The first mapping that holds an address. -/
def find? (iommu : Iommu) (address : Address) : Option Mapping :=
  iommu.mappings.find? fun mapping => address ∈ mapping.range

/-- The ranges and the start are made of whole pages, and the range is not empty. -/
def isAligned (iommu : Iommu) (range : Span) (target : Address) : Bool :=
  range.length ≠ 0 ∧
    granuleOffset (range.start ||| target ||| range.length) iommu.pageSize = 0

/-- Map a range, unless it is not made of whole pages or meets a mapping. -/
def map (iommu : Iommu) (range : Span) (target : Address) (grants : Permissions) :
    Step Iommu (Except Fault Unit) :=
  if !iommu.isAligned range target then
    { result := .error (.config (.unaligned range target)), state := iommu }
  else if iommu.mappings.any fun mapping => mapping.range.overlaps range then
    { result := .error (.config (.overlapping range)), state := iommu }
  else
    { result := .ok ()
      state := { iommu with mappings := iommu.mappings ++ [⟨range, target, grants⟩] }
      trace := #[.remark (.mapped range target grants)] }

/-- Take away every mapping that meets a range, and count them. -/
def unmap (iommu : Iommu) (range : Span) : Step Iommu Nat :=
  let kept := iommu.mappings.filter fun mapping => !mapping.range.overlaps range
  let removed := iommu.mappings.length - kept.length
  { result := removed
    state := { iommu with mappings := kept }
    trace := #[.remark (.unmapped range removed)] }

/-- Announce an unmapped range to the queue of the endpoint, which may be gone. -/
def announce (iommu : Iommu) (range : Span) (queue : Option NoticeQueue) :
    Step (Option NoticeQueue) Unit :=
  if iommu.linked then
    match queue with
    | some queue =>
      { result := (), state := some (queue.post [range]), trace := #[.posted range] }
    | none => { result := (), state := none, trace := #[.remark (.undelivered range)] }
  else { result := (), state := queue }

/-- The large granule around an address lies inside the mapping, and its
physical side is aligned. -/
def granuleFits (iommu : Iommu) (mapping : Mapping) (address : Address) : Bool :=
  let block : Span := ⟨alignDown address iommu.granule, iommu.granule⟩
  mapping.range.start ≤ block.start ∧ block.stop ≤ mapping.range.stop ∧
    granuleOffset (mapping.image block.start) iommu.granule = 0

/-- The length of the answer for an address of a mapping. -/
def answerLength (iommu : Iommu) (mapping : Mapping) (address : Address) : UInt64 :=
  if iommu.pageSize < iommu.granule ∧ iommu.granuleFits mapping address then iommu.granule
  else iommu.pageSize

/-- The answer for an address of a mapping. -/
def answer (iommu : Iommu) (mapping : Mapping) (request : TranslationRequest) : Translation :=
  let length := iommu.answerLength mapping request.address
  { target := mapping.image (alignDown request.address length)
    length
    grants := request.wanted &&& mapping.grants }

/-- The table decides every request, and each one is counted. -/
instance : TranslationAgent Iommu where
  translate iommu request :=
    let agent := { iommu with served := iommu.served + 1 }
    match iommu.find? request.address with
    | some mapping => { answer := .ok (iommu.answer mapping request), agent }
    | none =>
      { answer := .error (.declined request.address)
        agent
        remarks := [.noMapping request.address] }

end Iommu

end AtsEndpoint
