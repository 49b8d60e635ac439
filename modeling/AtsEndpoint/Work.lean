import AtsEndpoint.Digest
import AtsEndpoint.RegisterFile

/-!
# Work

A CTRL write fires at most one trigger: the bits are tested in the order
translate, read, write, checksum, and the first one set wins. The trigger and
the registers at that moment make a work request; what later happens to the
registers does not change it.
-/

namespace AtsEndpoint.Work

/-- The operations of the endpoint. -/
inductive Trigger
  /-- Fill the cache ahead of use. -/
  | translate
  /-- Read one word. -/
  | read
  /-- Write one word. -/
  | write
  /-- Digest a range. -/
  | checksum
deriving DecidableEq, Repr

/-- The name of a trigger. -/
def Trigger.text : Trigger → String
  | .translate => "Translate"
  | .read => "Read"
  | .write => "Write"
  | .checksum => "Checksum"

/-- The trigger bit of an operation. -/
def Trigger.bit : Trigger → UInt32
  | .translate => Control.translate
  | .read => Control.read
  | .write => Control.write
  | .checksum => Control.checksum

/-- The triggers, the most urgent first. -/
def Trigger.byPriority : List Trigger :=
  [.translate, .read, .write, .checksum]

/-- The most urgent trigger whose bit is set. -/
def Trigger.decode? (control : UInt32) : Option Trigger :=
  byPriority.find? fun trigger => control &&& trigger.bit ≠ 0

/-- One operation with its operands. -/
inductive Request
  /-- Fill the cache for a range. -/
  | translate (range : Span)
  /-- Read the word at an address. -/
  | read (address : Address)
  /-- Write a word to an address. -/
  | write (address : Address) (word : UInt32)
  /-- Digest a range. -/
  | checksum (range : Span)
deriving DecidableEq, Repr

namespace Request

/-- The operation of a request. -/
def trigger : Request → Trigger
  | translate _ => .translate
  | read _ => .read
  | write _ _ => .write
  | checksum _ => .checksum

/-- The request that a trigger makes of the current registers. -/
def ofTrigger (trigger : Trigger) (registers : RegisterFile) : Request :=
  let range : Span := ⟨registers.address, registers.length.toUInt64⟩
  match trigger with
  | .translate => translate range
  | .read => read registers.address
  | .write => write registers.address registers.value
  | .checksum => checksum range

/-- The request made by a CTRL write, if a trigger bit is set. -/
def decode? (control : UInt32) (registers : RegisterFile) : Option Request :=
  (Trigger.decode? control).map fun trigger => ofTrigger trigger registers

/-- A request as text, with its operands in decimal. -/
def text (request : Request) : String :=
  let fields :=
    match request with
    | translate range | checksum range =>
      "addr: " ++ toString range.start.toNat ++ ", len: " ++ toString range.length.toNat
    | read address => "addr: " ++ toString address.toNat
    | write address word =>
      "addr: " ++ toString address.toNat ++ ", value: " ++ toString word.toNat
  request.trigger.text ++ " \x7b " ++ fields ++ " \x7d"

@[simp] theorem trigger_ofTrigger (trigger : Trigger) (registers : RegisterFile) :
    (ofTrigger trigger registers).trigger = trigger := by
  cases trigger <;> rfl

end Request

/-- Why a word access is not performed. -/
inductive Denial
  /-- A translation exists, and it does not grant the permission. -/
  | permissionDenied
  /-- No translation could be had. -/
  | notFound
deriving DecidableEq, Repr

/-- The name of a denial. -/
def Denial.text : Denial → String
  | .permissionDenied => "PermissionDenied"
  | .notFound => "NotFound"

/-- How an operation ended. -/
inductive Outcome
  /-- A translate-ahead ended, having added this many regions to the cache. -/
  | translated (filled : Nat)
  /-- A word access was performed. -/
  | applied
  /-- A word access was not performed. -/
  | denied (reason : Denial)
  /-- The whole range was digested. -/
  | digested (digest : Digest)
  /-- A checksum stopped after this many bytes. -/
  | aborted (consumed : UInt64)
deriving DecidableEq, Repr

/-- An outcome as text. -/
def Outcome.text : Outcome → String
  | .translated filled => "Translated \x7b filled: " ++ toString filled ++ " \x7d"
  | .applied => "Access(Applied)"
  | .denied reason => "Access(" ++ reason.text ++ ")"
  | .digested digest => "Digest(" ++ digest.listing ++ ")"
  | .aborted consumed =>
    "ChecksumAborted \x7b consumed: " ++ toString consumed.toNat ++ " \x7d"

end AtsEndpoint.Work
