import AtsEndpoint.Digest
import AtsEndpoint.Register

/-!
# The register file

One word is kept for each register. `get` and `set` are the endpoint's own
view. From the bus, CTRL and every offset without a register read as zero, and
only CTRL and the five data registers take a write.
-/

namespace AtsEndpoint

/-- The words kept in the registers, all zero at first. -/
structure RegisterFile where
  /-- The word last written to CTRL. -/
  ctrl : UInt32 := 0
  /-- The low word of the address. -/
  addrLsb : UInt32 := 0
  /-- The byte count. -/
  length : UInt32 := 0
  /-- The data word. -/
  value : UInt32 := 0
  /-- The status bits. -/
  status : UInt32 := 0
  /-- The high word of the address. -/
  addrMsb : UInt32 := 0
  /-- The words of the last digest. -/
  digest : Vector UInt32 4 := Vector.replicate 4 0
deriving DecidableEq, Repr, Inhabited

/-- What a write from the bus did. -/
inductive WriteEffect
  /-- A data register took the word. -/
  | stored
  /-- No register takes a write at this offset. -/
  | ignored
  /-- CTRL was written with this word. -/
  | control (value : UInt32)
deriving DecidableEq, Repr

namespace RegisterFile

/-- The word kept in a register. -/
def get (registers : RegisterFile) : Register → UInt32
  | .ctrl => registers.ctrl
  | .addrLsb => registers.addrLsb
  | .length => registers.length
  | .value => registers.value
  | .status => registers.status
  | .addrMsb => registers.addrMsb
  | .digest index => registers.digest.get index

/-- Keep a word in a register. -/
def set (registers : RegisterFile) (register : Register) (word : UInt32) : RegisterFile :=
  match register with
  | .ctrl => { registers with ctrl := word }
  | .addrLsb => { registers with addrLsb := word }
  | .length => { registers with length := word }
  | .value => { registers with value := word }
  | .status => { registers with status := word }
  | .addrMsb => { registers with addrMsb := word }
  | .digest index => { registers with digest := registers.digest.set index word index.isLt }

theorem get_set (registers : RegisterFile) (r s : Register) (word : UInt32) :
    (registers.set r word).get s = if r = s then word else registers.get s := by
  have hdigest (i j : Fin 4) : (registers.digest.set i word i.isLt).get j =
      if i = j then word else registers.digest.get j := by
    simp only [Fin.ext_iff]
    exact Vector.getElem_set i.isLt j.isLt
  cases r <;> cases s <;> simp [get, set, hdigest]

/-- The 64-bit address held in the two address registers. -/
def address (registers : RegisterFile) : Address :=
  registers.addrMsb.toUInt64 <<< 32 ||| registers.addrLsb.toUInt64

/-- Keep the words of a digest. -/
def setDigest (registers : RegisterFile) (digest : Digest) : RegisterFile :=
  { registers with digest := digest.words }

/-- Note that an operation has ended well. -/
def complete (registers : RegisterFile) : RegisterFile :=
  { registers with status := Status.done }

/-- Note that an operation has failed. -/
def fail (registers : RegisterFile) : RegisterFile :=
  { registers with status := Status.done ||| Status.failed }

/-- The word that the bus sees at an offset. -/
def read (registers : RegisterFile) (offset : Address) : UInt32 :=
  match Register.ofOffset? offset with
  | none => 0
  | some .ctrl => 0
  | some register => registers.get register

/-- What the bus reads from a register other than CTRL is what it holds. -/
theorem read_offset (registers : RegisterFile) (register : Register) (h : register ≠ .ctrl) :
    registers.read register.offset = registers.get register := by
  rw [read, Register.ofOffset?_offset]
  cases register <;> first | rfl | exact absurd rfl h

/-- Write a word from the bus. -/
def write (registers : RegisterFile) (offset : Address) (word : UInt32) :
    RegisterFile × WriteEffect :=
  match Register.ofOffset? offset with
  | none => (registers, .ignored)
  | some (.digest _) => (registers, .ignored)
  | some .ctrl => (registers.set .ctrl word, .control word)
  | some register => (registers.set register word, .stored)

end RegisterFile

end AtsEndpoint
