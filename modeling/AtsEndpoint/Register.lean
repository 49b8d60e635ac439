import AtsEndpoint.Address

/-!
# The register map

The endpoint shows one window of registers. Every register is one word wide
and stands at a multiple of four; the ten registers fill the start of the
window without a gap.

The host starts an operation by writing a trigger bit to CTRL and learns that
it has ended from the bits of STATUS.
-/

namespace AtsEndpoint

/-- The registers of the window. -/
inductive Register
  /-- Writing it starts an operation; it reads as zero. -/
  | ctrl
  /-- The low word of the virtual address to work on. -/
  | addrLsb
  /-- The number of bytes to work on. -/
  | length
  /-- The data word of a read or a write. -/
  | value
  /-- How the last operation ended. -/
  | status
  /-- The high word of the virtual address to work on. -/
  | addrMsb
  /-- One of the four words of the last digest. -/
  | digest (index : Fin 4)
deriving DecidableEq, Repr

namespace Register

/-- The width of every register in bytes. -/
def width : Nat := 4

/-- The registers in the order of their offsets. -/
def all : List Register :=
  [ctrl, addrLsb, length, value, status, addrMsb, digest 0, digest 1, digest 2, digest 3]

/-- The place of a digest word in the window. -/
def digestOffset (index : Nat) : Address :=
  0x18 + 4 * index.toUInt64

/-- The place of a register in the window. -/
def offset : Register → Address
  | ctrl => 0x00
  | addrLsb => 0x04
  | length => 0x08
  | value => 0x0c
  | status => 0x10
  | addrMsb => 0x14
  | digest index => digestOffset index

/-- The register at an offset. -/
def ofOffset? (offset : Address) : Option Register :=
  all.find? fun register => register.offset = offset

/-- The name of a register. -/
def name : Register → String
  | ctrl => "CTRL"
  | addrLsb => "ADDR_LSB"
  | length => "LENGTH"
  | value => "VALUE"
  | status => "STATUS"
  | addrMsb => "ADDR_MSB"
  | digest index => "MD5_RESULT_" ++ toString index.val

/-- The name of the register at an offset. -/
def nameAt? (offset : Address) : Option String :=
  (ofOffset? offset).map name

/-- The offset of a digest word, if there is a word with this index. -/
def digestOffset? (index : Nat) : Option Address :=
  if index < 4 then some (digestOffset index) else none

/-- The offset behind the last register. -/
def windowEnd : Address := (digest 3).offset + 4

theorem mem_all (register : Register) : register ∈ all := by
  cases register with
  | digest index =>
    match index with
    | 0 | 1 | 2 | 3 => decide
  | _ => decide

/-- Distinct registers have distinct offsets, so an offset names at most one. -/
@[simp] theorem ofOffset?_offset (register : Register) :
    ofOffset? register.offset = some register := by
  cases register with
  | digest index =>
    match index with
    | 0 | 1 | 2 | 3 => decide
  | _ => decide

theorem offset_of_ofOffset? {place : Address} {register : Register}
    (h : ofOffset? place = some register) : register.offset = place := by
  simpa using List.find?_some h

theorem ofOffset?_eq_some_iff {place : Address} {register : Register} :
    ofOffset? place = some register ↔ register.offset = place :=
  ⟨offset_of_ofOffset?, fun h => h ▸ ofOffset?_offset register⟩

end Register

/-! ## The trigger bits of CTRL -/

namespace Control

/-- Fill the cache for the programmed range. -/
def translate : UInt32 := 1

/-- Read the word at the programmed address. -/
def read : UInt32 := 2

/-- Write a word to the programmed address. -/
def write : UInt32 := 4

/-- Digest the programmed range. -/
def checksum : UInt32 := 8

end Control

/-! ## The bits of STATUS -/

namespace Status

/-- The last operation has ended. -/
def done : UInt32 := 1

/-- The last operation failed. -/
def failed : UInt32 := 2

end Status

/-! ## The window -/

/-- A window that the endpoint shows on the bus. -/
structure Bar where
  /-- The number of the window. -/
  index : UInt32
  /-- The size of the window in bytes. -/
  size : UInt64
  /-- The window may lie above the first 4 GiB. -/
  is64Bit : Bool
  /-- Reads of the window have no side effects. -/
  prefetchable : Bool
deriving DecidableEq, Repr

/-- The window of the registers. -/
def Bar.registers : Bar := ⟨0, 4096, false, false⟩

/-- The number of windows. -/
def barCount : Nat := 1

/-- The number of interrupt vectors; the host polls STATUS instead. -/
def interruptCount : Nat := 0

end AtsEndpoint
