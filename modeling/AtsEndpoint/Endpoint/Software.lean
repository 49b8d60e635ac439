import AtsEndpoint.Endpoint.Schedule
import AtsEndpoint.Iommu
import AtsEndpoint.Memory.Host

/-!
# Software endpoints

An endpoint over a software IOMMU can have ranges mapped and unmapped while it
runs. A linked IOMMU announces what it unmaps in the notice queue of the
endpoint, and the cache learns of it when the queue is next drained.
-/

namespace AtsEndpoint

/-- An endpoint over a software IOMMU and host memory. -/
abbrev SoftwareEndpoint := Endpoint Iommu HostMemory

namespace Endpoint

variable {μ : Type v}

/-- Bring up an endpoint whose IOMMU is linked to it. -/
def bootLinked (config : Config) (iommu : Iommu) (memory : μ) :
    Except Fault (Endpoint Iommu μ) × Trace :=
  boot config { iommu with linked := true } memory

/-- Map a range. -/
def mapRange (endpoint : Endpoint Iommu μ) (range : Span) (target : Address)
    (grants : Permissions) : Step (Endpoint Iommu μ) (Except Fault Unit) :=
  let mapped := endpoint.agent.map range target grants
  { result := mapped.result
    state := { endpoint with agent := mapped.state }
    trace := mapped.trace }

/-- Unmap a range, announce it, and count the mappings taken away. -/
def unmapRange (endpoint : Endpoint Iommu μ) (range : Span) : Step (Endpoint Iommu μ) Nat :=
  let unmapped := endpoint.agent.unmap range
  let announced := unmapped.state.announce range (some endpoint.notices)
  { result := unmapped.result
    state := { endpoint with
      agent := unmapped.state
      notices := announced.state.getD endpoint.notices }
    trace := unmapped.trace ++ announced.trace }

end Endpoint

end AtsEndpoint
