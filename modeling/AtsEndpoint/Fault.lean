import AtsEndpoint.Address
import AtsEndpoint.Text.Hex

/-!
# Faults

A fault says what went wrong and where. Each kind that has several reasons
carries the reason as a value; a reason given in a collaborator's own words is
kept as text. `Fault.message` is the one place where faults are worded.
-/

namespace AtsEndpoint

/-- Why a register transaction is refused. -/
inductive BusProblem
  /-- A byte-enable mask is attached. -/
  | byteEnables
  /-- More than one register is addressed. -/
  | tooWide
  /-- The streaming width is below the data length. -/
  | narrowStream
  /-- The command moves no data. -/
  | noDirection
  /-- No window has this number. -/
  | noWindow (number : UInt32)
  /-- A reason in other words. -/
  | other (text : String)
deriving DecidableEq, Repr

/-- The wording of a bus problem. -/
def BusProblem.message : BusProblem → String
  | .byteEnables => "byte enables not supported"
  | .tooWide => "access wider than 4 bytes"
  | .narrowStream => "streaming width below data length"
  | .noDirection => "command is neither read nor write"
  | .noWindow number => "no BAR" ++ toString number.toNat
  | .other text => text

/-- Why a translation answer is unusable. -/
inductive TranslationProblem
  /-- The answer covers no byte. -/
  | emptyGranule
  /-- A reason in other words. -/
  | other (text : String)
deriving DecidableEq, Repr

/-- The wording of a translation problem. -/
def TranslationProblem.message : TranslationProblem → String
  | .emptyGranule => "zero-length granule"
  | .other text => text

/-- Why a physical access fails. -/
inductive TransportProblem
  /-- The access starts below the memory. -/
  | belowMemory
  /-- The access, of `count` bytes, runs past the end of the memory. -/
  | pastEnd (count : Nat)
  /-- A reason in other words. -/
  | other (text : String)
deriving DecidableEq, Repr

/-- The wording of a transport problem. -/
def TransportProblem.message : TransportProblem → String
  | .belowMemory => "below host memory base"
  | .pastEnd count => toString count ++ " bytes past end of host memory"
  | .other text => text

/-- Why a configuration or a mapping is refused. -/
inductive ConfigProblem
  /-- The granule is not a power of two. -/
  | granule (bytes : UInt64)
  /-- A mapping is empty, or not made of whole pages. -/
  | unaligned (mapped : Span) (target : Address)
  /-- A mapping meets one that is already there. -/
  | overlapping (mapped : Span)
  /-- A reason in other words. -/
  | other (text : String)
deriving DecidableEq, Repr

/-- The wording of a configuration problem. -/
def ConfigProblem.message : ConfigProblem → String
  | .granule bytes =>
    "granule " ++ Text.hex bytes.toNat ++ " is not a non-zero power of two"
  | .unaligned mapped target =>
    "map " ++ Text.hex mapped.start.toNat ++ "->" ++ Text.hex target.toNat
      ++ " size " ++ Text.hex mapped.length.toNat ++ " is not page aligned"
  | .overlapping mapped =>
    "map " ++ Text.hex mapped.start.toNat ++ " size " ++ Text.hex mapped.length.toNat
      ++ " overlaps an existing mapping"
  | .other text => text

/-- Why an operation does not fit the state of the endpoint. -/
inductive StateProblem
  /-- Completion is awaited, and nothing is left to run. -/
  | nothingPending
  /-- A reason in other words. -/
  | other (text : String)
deriving DecidableEq, Repr

/-- The wording of a state problem. -/
def StateProblem.message : StateProblem → String
  | .nothingPending => "STATUS is zero and no operation is pending"
  | .other text => text

/-- What can go wrong. -/
inductive Fault
  /-- A register transaction at `offset` is refused. -/
  | bus (offset : Address) (problem : BusProblem)
  /-- The translation agent grants nothing for `address`. -/
  | declined (address : Address)
  /-- The translation answer for `address` is unusable. -/
  | translation (address : Address) (problem : TranslationProblem)
  /-- The physical access at `address` failed. -/
  | transport (address : Address) (problem : TransportProblem)
  /-- The endpoint stopped at a transport failure and waits for a reset. -/
  | halted
  /-- A configuration is refused. -/
  | config (problem : ConfigProblem)
  /-- An operation does not fit the state. -/
  | state (problem : StateProblem)
deriving DecidableEq, Repr

namespace Fault

/-- The wording of a fault. -/
def message : Fault → String
  | bus offset problem =>
    "Bus error at BAR offset " ++ Text.hex offset.toNat ++ ": " ++ problem.message
  | declined address => "Translation declined for " ++ Text.hex address.toNat
  | translation address problem =>
    "Invalid translation for " ++ Text.hex address.toNat ++ ": " ++ problem.message
  | transport address problem =>
    "Physical access at " ++ Text.hex address.toNat ++ " failed: " ++ problem.message
  | halted => "Device halted after a transport failure"
  | config problem => "Invalid configuration: " ++ problem.message
  | state problem => "Device in invalid state: " ++ problem.message

/-- The kinds of fault, without their details. -/
inductive Kind
  | bus
  | declined
  | translation
  | transport
  | halted
  | config
  | state
deriving DecidableEq, Repr

/-- The kind of a fault. -/
def kind : Fault → Kind
  | bus .. => .bus
  | declined .. => .declined
  | translation .. => .translation
  | transport .. => .transport
  | halted => .halted
  | config .. => .config
  | state .. => .state

/-- The fault of a kind whose reason is given in words; a kind without address
or reason leaves it out. -/
def ofKind (kind : Kind) (address : Address) (text : String) : Fault :=
  match kind with
  | .bus => bus address (.other text)
  | .declined => declined address
  | .translation => translation address (.other text)
  | .transport => transport address (.other text)
  | .halted => halted
  | .config => config (.other text)
  | .state => state (.other text)

@[simp] theorem kind_ofKind (k : Kind) (address : Address) (text : String) :
    (ofKind k address text).kind = k := by
  cases k <;> rfl

end Fault

end AtsEndpoint
