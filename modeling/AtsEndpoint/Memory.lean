import AtsEndpoint.Event

/-!
# Physical memories

A physical memory is the remote party that carries translated reads and
writes. An access may fail, and the memory may post notices while it works. A
read that succeeds gives exactly as many bytes as it was asked for.
-/

namespace AtsEndpoint

/-- Exactly `count` bytes. -/
abbrev Payload (count : Nat) : Type :=
  { bytes : ByteArray // bytes.size = count }

/-- What comes back from a physical memory. -/
structure MemoryReply (μ : Type u) (ρ : Type v) where
  /-- The result of the access, or why it failed. -/
  answer : Except Fault ρ
  /-- The memory after the access. -/
  memory : μ
  /-- The notices posted during the access, in order. -/
  posted : List Notice := []

/-- A party that carries physical reads and writes. -/
class PhysicalMemory (μ : Type u) where
  /-- Read `count` bytes from an address on. -/
  read : μ → Address → (count : Nat) → MemoryReply μ (Payload count)
  /-- Write bytes from an address on. -/
  write : μ → Address → List UInt8 → MemoryReply μ Unit

end AtsEndpoint
