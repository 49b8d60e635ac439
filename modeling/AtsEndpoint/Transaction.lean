import AtsEndpoint.Step

/-!
# Register transactions

A transaction carries a command, an offset into a window and a data buffer.
The register window takes plain reads and writes of up to four bytes; a byte
mask, a wider buffer, a streaming width below the buffer or any other command
is refused, and nothing changes then.
-/

namespace AtsEndpoint

/-- What a transaction asks for. -/
inductive BusCommand
  /-- Fill the buffer. -/
  | read
  /-- Take the buffer. -/
  | write
  /-- Neither. -/
  | ignore
deriving DecidableEq, Repr

/-- One transaction on a window. -/
structure Transaction where
  /-- What is asked for. -/
  command : BusCommand
  /-- The offset into the window. -/
  offset : Address
  /-- The data buffer. -/
  data : List UInt8
  /-- The byte mask, if one is attached. -/
  byteEnable : Option (List UInt8) := none
  /-- The streaming width in bytes. -/
  streamingWidth : Nat := data.length
deriving DecidableEq, Repr

/-- The way the data of an accepted transaction moves. -/
inductive Direction
  /-- From the register to the buffer. -/
  | toBuffer
  /-- From the buffer to the register. -/
  | toRegister
deriving DecidableEq, Repr

namespace Transaction

/-- The direction of a transaction that the register window can serve, or why
it cannot. -/
def direction (transaction : Transaction) : Except BusProblem Direction :=
  if transaction.byteEnable.isSome then .error .byteEnables
  else if Register.width < transaction.data.length then .error .tooWide
  else if transaction.streamingWidth < transaction.data.length then .error .narrowStream
  else
    match transaction.command with
    | .read => .ok .toBuffer
    | .write => .ok .toRegister
    | .ignore => .error .noDirection

/-- The register window takes transactions of this shape. -/
structure IsPlain (transaction : Transaction) : Prop where
  /-- No byte mask is attached. -/
  unmasked : transaction.byteEnable = none
  /-- The data fits into a register. -/
  fits : transaction.data.length ≤ Register.width
  /-- The stream is as wide as the data at least. -/
  streams : transaction.data.length ≤ transaction.streamingWidth
  /-- The data moves one way. -/
  moves : transaction.command = .read ∨ transaction.command = .write

instance (transaction : Transaction) : Decidable transaction.IsPlain :=
  decidable_of_iff (transaction.byteEnable = none ∧ transaction.data.length ≤ Register.width ∧
      transaction.data.length ≤ transaction.streamingWidth ∧
      (transaction.command = .read ∨ transaction.command = .write))
    ⟨fun ⟨unmasked, fits, streams, moves⟩ => ⟨unmasked, fits, streams, moves⟩,
      fun h => ⟨h.unmasked, h.fits, h.streams, h.moves⟩⟩

/-- The direction is known exactly of plain transactions. -/
theorem direction_cases (transaction : Transaction) :
    (¬ transaction.IsPlain ∧ ∃ problem, transaction.direction = .error problem) ∨
      (transaction.IsPlain ∧ transaction.command = .read ∧
        transaction.direction = .ok .toBuffer) ∨
      (transaction.IsPlain ∧ transaction.command = .write ∧
        transaction.direction = .ok .toRegister) := by
  unfold direction
  split
  next hmask =>
    refine .inl ⟨?_, _, rfl⟩
    intro h
    simp [h.unmasked] at hmask
  next hmask =>
    split
    next hwide => exact .inl ⟨fun h => Nat.not_le.mpr hwide h.fits, _, rfl⟩
    next hfits =>
      split
      next hnarrow => exact .inl ⟨fun h => Nat.not_le.mpr hnarrow h.streams, _, rfl⟩
      next hstreams =>
        have hplain (hmoves : transaction.command = .read ∨ transaction.command = .write) :
            transaction.IsPlain :=
          ⟨by simpa using hmask, Nat.not_lt.mp hfits, Nat.not_lt.mp hstreams, hmoves⟩
        cases hcommand : transaction.command with
        | read => exact .inr (.inl ⟨hplain (.inl hcommand), rfl, rfl⟩)
        | write => exact .inr (.inr ⟨hplain (.inr hcommand), rfl, rfl⟩)
        | ignore =>
            refine .inl ⟨?_, _, rfl⟩
            intro h
            rcases h.moves with hmoves | hmoves <;> simp [hcommand] at hmoves

end Transaction

/-- What an accepted transaction did. -/
inductive Served
  /-- A read filled the buffer with these bytes. -/
  | fetched (data : List UInt8)
  /-- A write had this effect. -/
  | wrote (effect : WriteEffect)
deriving DecidableEq, Repr

/-- The buffer of a transaction after it was served. -/
def Served.buffer (transaction : Transaction) : Served → List UInt8
  | .fetched data => data
  | .wrote _ => transaction.data

/-- The buffer of a transaction after its answer. A refusal brings no bytes. -/
def Transaction.bufferAfter (transaction : Transaction) : Except Fault (List UInt8) → List UInt8
  | .ok data => data
  | .error _ => transaction.data

namespace RegisterFile

/-- Serve a transaction. A read takes the low bytes of the register word; a
write extends its bytes by zeros to a word. -/
def serve (registers : RegisterFile) (transaction : Transaction) :
    Step RegisterFile (Except Fault Served) :=
  match transaction.direction with
  | .error problem =>
    { result := .error (.bus transaction.offset problem)
      state := registers
      trace := #[.rejected transaction.offset transaction.data.length problem] }
  | .ok .toBuffer =>
    let word := registers.read transaction.offset
    { result := .ok (.fetched ((Word.bytes word).take transaction.data.length))
      state := registers
      trace := #[.registerRead transaction.offset word] }
  | .ok .toRegister =>
    let word := Word.ofBytes transaction.data
    let (registers, effect) := registers.write transaction.offset word
    { result := .ok (.wrote effect)
      state := registers
      trace := #[.registerWritten transaction.offset word] }

end RegisterFile

end AtsEndpoint
