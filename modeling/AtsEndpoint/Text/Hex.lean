/-!
# Hexadecimal text

Numbers are written with a `0x` mark and lowercase digits, without leading
zeros unless a width is asked for. Bytes are written as two digits each,
without a mark.
-/

namespace AtsEndpoint.Text

/-- The lowercase hexadecimal digits of a number, most significant first. -/
def hexDigits (n : Nat) : List Char :=
  Nat.toDigits 16 n

/-- A number behind the `0x` mark. -/
def hex (n : Nat) : String :=
  String.ofList ('0' :: 'x' :: hexDigits n)

/-- A number behind the `0x` mark, filled with zeros to at least `width` digits. -/
def hexPadded (width n : Nat) : String :=
  let digits := hexDigits n
  String.ofList ('0' :: 'x' :: (List.replicate (width - digits.length) '0' ++ digits))

/-- The two digits of a byte. -/
def byteDigits (byte : UInt8) : List Char :=
  [Nat.digitChar (byte.toNat / 16), Nat.digitChar (byte.toNat % 16)]

/-- Bytes in order, two digits each. -/
def hexBytes (bytes : List UInt8) : String :=
  String.ofList (bytes.flatMap byteDigits)

@[simp] theorem hexBytes_nil : hexBytes [] = "" := rfl

theorem length_hexBytes (bytes : List UInt8) : (hexBytes bytes).length = 2 * bytes.length := by
  have h : ∀ bytes : List UInt8, (bytes.flatMap byteDigits).length = 2 * bytes.length := by
    intro bytes
    induction bytes with
    | nil => rfl
    | cons byte rest ih =>
      rw [List.flatMap_cons, List.length_append, ih, List.length_cons]
      simp only [byteDigits, List.length_cons, List.length_nil]
      omega
  rw [hexBytes, String.length_ofList, h]

end AtsEndpoint.Text
