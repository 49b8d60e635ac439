/-!
# Numerals

A numeral is a run of decimal digits, or of hexadecimal digits behind `0x` or
`0X`, with an optional `+` in front of the digits. Underscores may stand
anywhere, even inside the mark, and carry no meaning. The value must fit 64
bits; a larger numeral is refused, never wrapped.
-/

namespace AtsEndpoint.Text

namespace Numeral

/-- Why a text is not a numeral. -/
inductive Problem
  /-- There is nothing to read. -/
  | empty
  /-- Some character is not a digit of the base. -/
  | badDigit
  /-- The value needs more than 64 bits. -/
  | tooLarge
deriving DecidableEq, Repr

/-- The wording of a problem. -/
def Problem.message : Problem → String
  | .empty => "cannot parse integer from empty string"
  | .badDigit => "invalid digit found in string"
  | .tooLarge => "number too large to fit in target type"

/-- The two bases a numeral may be written in. -/
inductive Base
  | decimal
  | hexadecimal
deriving DecidableEq, Repr

/-- The number of digits of a base. -/
def Base.radix : Base → Nat
  | .decimal => 10
  | .hexadecimal => 16

/-- The value of an ASCII digit or letter: `0`–`9`, then `a`–`f` in either case. -/
def digitValue? (c : Char) : Option Nat :=
  if '0' ≤ c ∧ c ≤ '9' then some (c.toNat - '0'.toNat)
  else if 'a' ≤ c ∧ c ≤ 'f' then some (c.toNat - 'a'.toNat + 10)
  else if 'A' ≤ c ∧ c ≤ 'F' then some (c.toNat - 'A'.toNat + 10)
  else none

/-- The value of a character that is a digit of the base. -/
def Base.digit? (base : Base) (c : Char) : Option Nat :=
  (digitValue? c).filter (· < base.radix)

/-- Read digits from the left onto the value so far. The first character that
is no digit, or that takes the value past 64 bits, decides the problem. -/
def readDigits (base : Base) : List Char → Nat → Except Problem UInt64
  | [], value => .ok (UInt64.ofNat value)
  | c :: rest, value =>
    match base.digit? c with
    | none => .error .badDigit
    | some d =>
      let next := value * base.radix + d
      if next < 2 ^ 64 then readDigits base rest next else .error .tooLarge

/-- Read an optional `+` and then at least one digit. A sign alone is taken as
a bad digit. -/
def readUnsigned (base : Base) : List Char → Except Problem UInt64
  | [] => .error .empty
  | ['+'] => .error .badDigit
  | '+' :: c :: rest => readDigits base (c :: rest) 0
  | c :: rest => readDigits base (c :: rest) 0

/-- The base named by the mark in front, and what follows the mark. -/
def splitMark : List Char → Base × List Char
  | '0' :: 'x' :: rest => (.hexadecimal, rest)
  | '0' :: 'X' :: rest => (.hexadecimal, rest)
  | digits => (.decimal, digits)

/-- The characters that carry meaning. -/
def significant (text : String) : List Char :=
  text.toList.filter (· ≠ '_')

/-- The value of a numeral, or what is wrong with it. -/
def parse (text : String) : Except Problem UInt64 :=
  let (base, digits) := splitMark (significant text)
  readUnsigned base digits

end Numeral

end AtsEndpoint.Text
