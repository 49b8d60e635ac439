/-!
# Words

A register holds a 32-bit word. On the bus and in memory a word is four bytes,
the least significant first. Fewer bytes stand for a word whose missing bytes
are zero, and bytes after the fourth carry no weight.
-/

namespace AtsEndpoint.Word

/-- The four bytes of a word, the least significant first. -/
def bytes (word : UInt32) : List UInt8 :=
  [word.toUInt8, (word >>> 8).toUInt8, (word >>> 16).toUInt8, (word >>> 24).toUInt8]

/-- The word whose bytes, the least significant first, are those of the list. -/
def ofBytes (bytes : List UInt8) : UInt32 :=
  bytes.foldr (fun byte word => 256 * word + byte.toUInt32) 0

@[simp] theorem length_bytes (word : UInt32) : (bytes word).length = 4 := rfl

@[simp] theorem ofBytes_nil : ofBytes [] = 0 := rfl

@[simp] theorem ofBytes_cons (byte : UInt8) (rest : List UInt8) :
    ofBytes (byte :: rest) = 256 * ofBytes rest + byte.toUInt32 := rfl

/-- The bytes of a word make the word. -/
@[simp] theorem ofBytes_bytes (word : UInt32) : ofBytes (bytes word) = word := by
  apply UInt32.toNat_inj.mp
  have hword := word.toNat_lt
  simp only [bytes, ofBytes_cons, ofBytes_nil, UInt32.toNat_add, UInt32.toNat_mul,
    UInt8.toNat_toUInt32, UInt32.toNat_toUInt8, UInt32.toNat_shiftRight, UInt32.reduceToNat,
    Nat.shiftRight_eq_div_pow]
  simp only [Nat.reduceMod, Nat.reducePow] at *
  omega

/-- Four bytes are the bytes of the word that they make. -/
theorem bytes_ofBytes (a b c d : UInt8) : bytes (ofBytes [a, b, c, d]) = [a, b, c, d] := by
  have ha := a.toNat_lt
  have hb := b.toNat_lt
  have hc := c.toNat_lt
  have hd := d.toNat_lt
  simp only [bytes, List.cons.injEq, and_true]
  refine ⟨?_, ?_, ?_, ?_⟩ <;>
  · apply UInt8.toNat_inj.mp
    simp only [ofBytes_cons, ofBytes_nil, UInt32.toNat_add, UInt32.toNat_mul,
      UInt8.toNat_toUInt32, UInt32.toNat_toUInt8, UInt32.toNat_shiftRight, UInt32.reduceToNat,
      Nat.shiftRight_eq_div_pow]
    simp only [Nat.reduceMod, Nat.reducePow] at *
    omega

end AtsEndpoint.Word
