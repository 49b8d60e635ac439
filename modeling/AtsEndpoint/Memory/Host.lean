import AtsEndpoint.Memory

/-!
# Host memory

A flat memory of fixed size at a base address. An access succeeds when all of
it lies inside the memory; otherwise nothing changes. Reads and writes by the
endpoint are counted, the host's own `peek` and `poke` are not.

Only the bytes up to the last one ever stored are kept; the bytes behind them
are zero. So a large memory that is hardly used takes little room. `byteAt` is
the view of all bytes alike.
-/

namespace AtsEndpoint

/-- A run of zero bytes, made by doubling. -/
def zeroBytes (count : Nat) : ByteArray :=
  if count = 0 then ByteArray.empty
  else
    let half := zeroBytes (count / 2)
    if count % 2 = 0 then half ++ half else (half ++ half).push 0
termination_by count

theorem data_zeroBytes (count : Nat) : (zeroBytes count).data = Array.replicate count 0 := by
  induction count using Nat.strongRecOn with
  | ind count ih =>
    unfold zeroBytes
    split
    · rename_i h
      subst h
      rfl
    · rename_i h
      have hhalf := ih (count / 2) (by omega)
      dsimp only
      split
      · rw [ByteArray.data_append, hhalf, Array.replicate_append_replicate]
        congr 1
        omega
      · rw [ByteArray.data_push, ByteArray.data_append, hhalf, Array.replicate_append_replicate,
          ← Array.replicate_succ]
        congr 1
        omega

@[simp] theorem size_zeroBytes (count : Nat) : (zeroBytes count).size = count := by
  rw [ByteArray.size, data_zeroBytes, Array.size_replicate]

/-- Bytes filled up with zeros to a size, if they are fewer. -/
def padBytes (bytes : ByteArray) (size : Nat) : ByteArray :=
  bytes ++ zeroBytes (size - bytes.size)

@[simp] theorem size_padBytes (bytes : ByteArray) (size : Nat) :
    (padBytes bytes size).size = max bytes.size size := by
  rw [padBytes, ByteArray.size_append, size_zeroBytes]
  omega

/-- Replace the bytes from a position on. -/
def spliceBytes (contents : ByteArray) (start : Nat) : List UInt8 → ByteArray
  | [] => contents
  | byte :: rest => spliceBytes (contents.set! start byte) (start + 1) rest

@[simp] theorem size_spliceBytes (contents : ByteArray) (start : Nat) (bytes : List UInt8) :
    (spliceBytes contents start bytes).size = contents.size := by
  induction bytes generalizing contents start with
  | nil => rfl
  | cons byte rest ih =>
    rw [spliceBytes, ih]
    exact Array.size_setIfInBounds

/-- Flat memory. -/
structure HostMemory where
  /-- The physical address of the first byte. -/
  base : Address
  /-- The size in bytes. -/
  size : Nat
  /-- The first bytes; those behind them are zero. -/
  stored : ByteArray := ByteArray.empty
  /-- No byte is stored outside the memory. -/
  size_stored_le : stored.size ≤ size := by simp
  /-- The number of reads served. -/
  reads : Nat := 0
  /-- The number of writes served. -/
  writes : Nat := 0

namespace HostMemory

/-- Memory filled with zeros. -/
def zeroed (base : Address) (size : Nat) : HostMemory :=
  { base, size }

/-- Memory that begins with some bytes and is filled up with zeros to a size,
or is just as long as the bytes when there are more of them. -/
def ofBytes (base : Address) (bytes : ByteArray) (size : Nat) : HostMemory :=
  { base, size := max size bytes.size, stored := bytes, size_stored_le := Nat.le_max_right _ _ }

/-- The byte at a position. -/
def byteAt (memory : HostMemory) (position : Nat) : UInt8 :=
  if h : position < memory.stored.size then memory.stored[position] else 0

/-- All bytes of the memory. -/
def contents (memory : HostMemory) : ByteArray :=
  padBytes memory.stored memory.size

/-- The position of the first byte of an access inside the memory, or why the
access fails. -/
def locate (memory : HostMemory) (physical : Address) (count : Nat) : Except Fault Nat :=
  if physical < memory.base then .error (.transport physical .belowMemory)
  else
    let start := (physical - memory.base).toNat
    if start + count ≤ memory.size then .ok start
    else .error (.transport physical (.pastEnd count))

theorem le_size_of_locate {memory : HostMemory} {physical : Address} {count start : Nat}
    (h : memory.locate physical count = .ok start) : start + count ≤ memory.size := by
  unfold locate at h
  split at h
  · cases h
  · dsimp only at h
    split at h
    · cases h
      assumption
    · cases h

/-- The bytes of an access at a position. -/
def slice (memory : HostMemory) (start count : Nat) : Payload count :=
  ⟨padBytes (memory.stored.extract start (start + count)) count, by
    rw [size_padBytes, ByteArray.size_extract]
    omega⟩

/-- The memory with bytes stored at a position inside it. -/
def store (memory : HostMemory) (start : Nat) (bytes : List UInt8)
    (h : start + bytes.length ≤ memory.size) : HostMemory :=
  { memory with
    stored := spliceBytes (padBytes memory.stored (start + bytes.length)) start bytes
    size_stored_le := by
      have := memory.size_stored_le
      rw [size_spliceBytes, size_padBytes]
      omega }

/-- The bytes of an access, uncounted. -/
def peek (memory : HostMemory) (physical : Address) (count : Nat) :
    Except Fault (Payload count) :=
  match memory.locate physical count with
  | .error fault => .error fault
  | .ok start => .ok (memory.slice start count)

/-- Store bytes, uncounted. -/
def poke (memory : HostMemory) (physical : Address) (bytes : List UInt8) :
    Except Fault HostMemory :=
  match h : memory.locate physical bytes.length with
  | .error fault => .error fault
  | .ok start => .ok (memory.store start bytes (le_size_of_locate h))

/-- Host memory never posts a notice. An access that fails is not counted. -/
instance : PhysicalMemory HostMemory where
  read memory physical count :=
    match memory.peek physical count with
    | .error fault => { answer := .error fault, memory }
    | .ok bytes =>
      { answer := .ok bytes, memory := { memory with reads := memory.reads + 1 } }
  write memory physical bytes :=
    match memory.poke physical bytes with
    | .error fault => { answer := .error fault, memory }
    | .ok memory =>
      { answer := .ok (), memory := { memory with writes := memory.writes + 1 } }

@[simp] theorem size_contents (memory : HostMemory) : memory.contents.size = memory.size := by
  have := memory.size_stored_le
  rw [contents, size_padBytes]
  omega

end HostMemory

end AtsEndpoint
