import AtsEndpoint.Step

/-!
# The translation cache

The cache is the list of the regions that fills have kept, the oldest first.
It is not bounded, and regions may overlap: a lookup takes the first region
that holds the address. A region leaves the cache only when a range that it
has a boundary in is invalidated, or when the cache is emptied.
-/

namespace AtsEndpoint

/-- The regions kept, the oldest first. -/
structure Cache where
  /-- The regions in the order in which they were kept. -/
  regions : List Region := []
deriving DecidableEq, Repr

namespace Cache

/-- The number of regions. -/
def size (cache : Cache) : Nat := cache.regions.length

/-- Nothing is cached. -/
def isEmpty (cache : Cache) : Bool := cache.regions.isEmpty

/-- The first region that holds an address. -/
def find? (cache : Cache) (address : Address) : Option Region :=
  cache.regions.find? fun region => address ∈ region.span

/-- Some region holds the address. -/
def contains (cache : Cache) (address : Address) : Bool :=
  (cache.find? address).isSome

theorem contains_iff {cache : Cache} {address : Address} :
    cache.contains address ↔ ∃ region ∈ cache.regions, address ∈ region.span := by
  simp [contains, find?]

/-- The physical address for a virtual one, by the first region that holds it. -/
def translate? (cache : Cache) (address : Address) : Option Address :=
  (cache.find? address).map fun region => region.translate address

/-- The first region that holds the address grants one of the permissions. -/
def permits (cache : Cache) (address : Address) (wanted : Permissions) : Bool :=
  (cache.find? address).any fun region => region.grants.intersects wanted

/-- The physical address for a virtual one, if the first region that holds it
grants one of the permissions, or why there is none. -/
def resolve (cache : Cache) (address : Address) (wanted : Permissions) :
    Except Work.Denial Address :=
  match cache.find? address with
  | none => .error .notFound
  | some region =>
    if region.grants.intersects wanted then .ok (region.translate address)
    else .error .permissionDenied

/-- Keep more regions behind those already there. -/
def append (cache : Cache) (regions : List Region) : Cache :=
  ⟨cache.regions ++ regions⟩

/-- The regions that have no boundary in a range. A region that encloses the
range stays. -/
def without (cache : Cache) (range : Span) : Cache :=
  ⟨cache.regions.filter fun region => !region.hasBoundaryIn range⟩

/-- The regions that have no address in common with a range. -/
def withoutOverlap (cache : Cache) (range : Span) : Cache :=
  ⟨cache.regions.filter fun region => !region.meets range⟩

@[simp] theorem regions_append (cache : Cache) (regions : List Region) :
    (cache.append regions).regions = cache.regions ++ regions := rfl

@[simp] theorem append_nil (cache : Cache) : cache.append [] = cache := by
  simp [append]

@[simp] theorem size_append (cache : Cache) (regions : List Region) :
    (cache.append regions).size = cache.size + regions.length := by
  simp [size]

theorem size_without_le (cache : Cache) (range : Span) : (cache.without range).size ≤ cache.size :=
  List.length_filter_le _ _

theorem size_withoutOverlap_le (cache : Cache) (range : Span) :
    (cache.withoutOverlap range).size ≤ cache.size :=
  List.length_filter_le _ _

theorem mem_without {cache : Cache} {range : Span} {region : Region} :
    region ∈ (cache.without range).regions ↔
      region ∈ cache.regions ∧ region.hasBoundaryIn range = false := by
  simp [without]

/-- Drop the regions that have a boundary in a range, and count them. -/
def invalidate (cache : Cache) (range : Span) : Step Cache Nat :=
  let kept := cache.without range
  let removed := cache.size - kept.size
  { result := removed, state := kept, trace := #[.invalidated range removed] }

/-- Drop the regions that have an address in common with a range, and count
them. -/
def invalidateOverlapping (cache : Cache) (range : Span) : Step Cache Nat :=
  let kept := cache.withoutOverlap range
  { result := cache.size - kept.size, state := kept }

/-- Drop every region. -/
def flush (cache : Cache) : Step Cache Unit :=
  { result := (), state := {}, trace := #[.flushed cache.size] }

end Cache

end AtsEndpoint
