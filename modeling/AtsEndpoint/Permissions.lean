import AtsEndpoint.Text.Hex

/-!
# Permissions

A permission set is a 64-bit mask. Three bits have a meaning: read, write and
execute. Other bits travel along unchanged, so that what an agent granted can
be shown as it was answered.
-/

namespace AtsEndpoint

/-- A set of permission bits; bits without a name are kept. -/
structure Permissions where
  /-- The mask. -/
  bits : UInt64
deriving DecidableEq, Repr, Inhabited

namespace Permissions

/-- Permission to read. -/
def read : Permissions := ⟨1⟩

/-- Permission to write. -/
def write : Permissions := ⟨2⟩

/-- Permission to execute. -/
def execute : Permissions := ⟨4⟩

/-- Every permission that has a name. -/
def all : Permissions := ⟨7⟩

/-- No permission. -/
def none : Permissions := ⟨0⟩

/-- The bits of either set. -/
instance : OrOp Permissions := ⟨fun a b => ⟨a.bits ||| b.bits⟩⟩

/-- The bits of both sets. -/
instance : AndOp Permissions := ⟨fun a b => ⟨a.bits &&& b.bits⟩⟩

/-- The bits of exactly one of the sets. -/
instance : XorOp Permissions := ⟨fun a b => ⟨a.bits ^^^ b.bits⟩⟩

/-- The bits of the first set that are not in the second. -/
instance : SDiff Permissions := ⟨fun a b => ⟨a.bits &&& ~~~b.bits⟩⟩

@[simp] theorem bits_or (a b : Permissions) : (a ||| b).bits = a.bits ||| b.bits := rfl
@[simp] theorem bits_and (a b : Permissions) : (a &&& b).bits = a.bits &&& b.bits := rfl
@[simp] theorem bits_xor (a b : Permissions) : (a ^^^ b).bits = a.bits ^^^ b.bits := rfl
@[simp] theorem bits_sdiff (a b : Permissions) : (a \ b).bits = a.bits &&& ~~~b.bits := rfl

/-- The bits that have a name. -/
def named (p : Permissions) : Permissions := p &&& all

/-- The named permissions that the set lacks. -/
def complement (p : Permissions) : Permissions := all \ p

/-- The set of a mask whose bits all have a name. -/
def ofNamedBits? (bits : UInt64) : Option Permissions :=
  if bits &&& ~~~all.bits = 0 then some ⟨bits⟩ else Option.none

/-- No bit is set. -/
def isEmpty (p : Permissions) : Bool := p.bits = 0

/-- Every bit of `q` is set in `p`. -/
def contains (p q : Permissions) : Bool := p.bits &&& q.bits = q.bits

/-- Some bit is set in both. -/
def intersects (p q : Permissions) : Bool := p.bits &&& q.bits ≠ 0

theorem contains_iff {p q : Permissions} : p.contains q ↔ p &&& q = q := by
  cases p; cases q
  simp [contains, HAnd.hAnd, AndOp.and]

theorem intersects_iff {p q : Permissions} : p.intersects q ↔ p &&& q ≠ none := by
  cases p; cases q
  simp [intersects, none, HAnd.hAnd, AndOp.and]

/-- Every named permission is present. -/
def isAll (p : Permissions) : Bool := p.contains all

/-- The named permissions in the order of their bits. -/
def names : List (Permissions × String) :=
  [(read, "READ"), (write, "WRITE"), (execute, "EXEC")]

/-- The bits without a name, in hexadecimal, where there are any. -/
def rest (p : Permissions) : List String :=
  if (p \ all).isEmpty then [] else [Text.hex (p \ all).bits.toNat]

/-- The set as text: names joined by bars, then the bits without a name; the
empty set is written as a zero mask. -/
def text (p : Permissions) : String :=
  let parts := (names.filter fun n => p.contains n.1).map (·.2) ++ p.rest
  let inside := if parts.isEmpty then Text.hex 0 else " | ".intercalate parts
  "Attrs(" ++ inside ++ ")"

end Permissions

end AtsEndpoint
