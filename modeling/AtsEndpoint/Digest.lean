import AtsEndpoint.Text.Hex
import AtsEndpoint.Word

/-!
# Digests

A digest is sixteen bytes. The endpoint shows it in four registers, four bytes
to a register, the least significant first; `words` and `ofWords` go back and
forth between the two forms.
-/

namespace AtsEndpoint

/-- A message digest of sixteen bytes. -/
structure Digest where
  /-- The bytes in order. -/
  bytes : Vector UInt8 16
deriving DecidableEq, Repr

namespace Digest

/-- The four words of a digest; word `i` holds the bytes from `4 * i` on. -/
def words (digest : Digest) : Vector UInt32 4 :=
  Vector.ofFn fun i => Word.ofBytes
    [digest.bytes[4 * i.val], digest.bytes[4 * i.val + 1],
      digest.bytes[4 * i.val + 2], digest.bytes[4 * i.val + 3]]

/-- The digest made of the bytes of four words. -/
def ofWords (words : Vector UInt32 4) : Digest :=
  ⟨Vector.ofFn fun i =>
    have h : i.val % 4 < (Word.bytes words[i.val / 4]).length := Nat.mod_lt i.val (by decide)
    (Word.bytes words[i.val / 4])[i.val % 4]⟩

/-- The words of a digest make the digest. -/
@[simp] theorem ofWords_words (digest : Digest) : ofWords digest.words = digest := by
  obtain ⟨bytes⟩ := digest
  rw [ofWords, mk.injEq]
  apply Vector.ext
  intro i hi
  simp only [words, Vector.getElem_ofFn, Word.bytes_ofBytes]
  have hsplit : 4 * (i / 4) + i % 4 = i := Nat.div_add_mod i 4
  have hlast : i % 4 = 0 ∨ i % 4 = 1 ∨ i % 4 = 2 ∨ i % 4 = 3 := by omega
  rcases hlast with h | h | h | h <;>
  · simp only [h, List.getElem_cons_zero, List.getElem_cons_succ]
    congr 1
    omega

/-- Four words are the words of the digest that they make. -/
@[simp] theorem words_ofWords (words : Vector UInt32 4) : (ofWords words).words = words := by
  have h : ∀ i : Fin 4, (ofWords words).words[i] = words[i] := by
    intro i
    match i with
    | 0 | 1 | 2 | 3 =>
      simp only [Digest.words, ofWords, Vector.getElem_ofFn, Fin.getElem_fin]
      exact Word.ofBytes_bytes _
  apply Vector.ext
  intro i hi
  exact h ⟨i, hi⟩

/-- The digest in lowercase hexadecimal. -/
def hex (digest : Digest) : String :=
  Text.hexBytes digest.bytes.toList

/-- The digest as a list of decimal numbers in brackets. -/
def listing (digest : Digest) : String :=
  "[" ++ ", ".intercalate (digest.bytes.toList.map fun byte => toString byte.toNat) ++ "]"

end Digest

end AtsEndpoint
