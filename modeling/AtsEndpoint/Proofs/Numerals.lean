import Mathlib.Data.List.Forall2
import Mathlib.Data.Nat.Digits.Defs
import Mathlib.Tactic.IntervalCases
import Mathlib.Tactic.Ring
import AtsEndpoint.Text.Hex
import AtsEndpoint.Text.Numeral

/-!
# What a numeral denotes

A numeral denotes the value that its digits have by their places. `Denotes` says so
without reading from the left and without a bound on the value. The reader takes a text
exactly when the characters that carry meaning denote a value of 64 bits, and gives this
value; a numeral of a larger value is too large, however many zeros it begins with. So
the reader takes back what is written for a number, in decimal and in hexadecimal,
wherever underscores are put into it.
-/

namespace AtsEndpoint.Text.Numeral

/-- The character is the digit with this value in the base, a letter in either case. -/
def Base.IsDigit (base : Base) (c : Char) (value : Nat) : Prop :=
  value < base.radix ∧ (c = value.digitChar ∨ c = value.digitChar.toUpper)

instance (base : Base) (c : Char) (value : Nat) : Decidable (base.IsDigit c value) :=
  inferInstanceAs (Decidable (_ ∧ _))

/-- The characters are digits of the base, and this is their value by their places. -/
def Base.Spells (base : Base) (digits : List Char) (value : Nat) : Prop :=
  ∃ values, List.Forall₂ base.IsDigit digits values ∧
    Nat.ofDigits base.radix values.reverse = value

/-- Digits, at least one, behind an optional sign. -/
inductive Base.Unsigned (base : Base) : List Char → Nat → Prop
  | plain {digits : List Char} {value : Nat} (hdigits : digits ≠ [])
      (h : base.Spells digits value) : Unsigned base digits value
  | signed {digits : List Char} {value : Nat} (hdigits : digits ≠ [])
      (h : base.Spells digits value) : Unsigned base ('+' :: digits) value

/-- The characters are a numeral of this value. -/
inductive Denotes : List Char → Nat → Prop
  | decimal {digits : List Char} {value : Nat} (h : Base.decimal.Unsigned digits value) :
      Denotes digits value
  | hexadecimal {mark : Char} {digits : List Char} {value : Nat} (hmark : mark = 'x' ∨ mark = 'X')
      (h : Base.hexadecimal.Unsigned digits value) : Denotes ('0' :: mark :: digits) value

/-- A value that fits is given, and a larger one is refused. -/
def narrow (value : Nat) : Except Problem UInt64 :=
  if value < 2 ^ 64 then .ok (UInt64.ofNat value) else .error .tooLarge

theorem narrow_toNat (n : UInt64) : narrow n.toNat = .ok n := by
  rw [narrow, if_pos n.toNat_lt, UInt64.ofNat_toNat]

theorem toNat_of_narrow {value : Nat} {n : UInt64} (h : narrow value = .ok n) :
    n.toNat = value := by
  unfold narrow at h
  split at h
  next hfits =>
    rw [← Except.ok.inj h, UInt64.toNat_ofNat', Nat.mod_eq_of_lt hfits]
  next => cases h

theorem narrow_of_le {value : Nat} (h : 2 ^ 64 ≤ value) : narrow value = .error .tooLarge :=
  if_neg (Nat.not_lt.mpr h)

variable {base : Base} {c : Char} {digits text : List Char} {value : Nat} {n : UInt64}

/-! ## Digits -/

theorem Base.radix_pos (base : Base) : 0 < base.radix := by
  cases base <;> decide

/-- What holds at every place of a row of characters holds of each character in it. -/
theorem of_between {P : Char → Nat → Prop} {first last : Char}
    (hrow : ∀ place < last.toNat - first.toNat + 1, P (Char.ofNat (first.toNat + place)) place)
    (h : first ≤ c ∧ c ≤ last) : P c (c.toNat - first.toNat) := by
  have hfirst : first.toNat ≤ c.toNat := h.1
  have hlast : c.toNat ≤ last.toNat := h.2
  have hplace := hrow (c.toNat - first.toNat) (by omega)
  rwa [Nat.add_sub_of_le hfirst, Char.ofNat_toNat] at hplace

/-- The characters that have a value are the hexadecimal digits. -/
theorem digitValue?_eq_some_iff :
    digitValue? c = some value ↔ Base.hexadecimal.IsDigit c value := by
  refine ⟨?_, ?_⟩
  · intro h
    unfold digitValue? at h
    split at h
    next hdigit =>
      obtain rfl := Option.some.inj h
      exact of_between (P := Base.hexadecimal.IsDigit) (by decide) hdigit
    next =>
      split at h
      next hlower =>
        obtain rfl := Option.some.inj h
        exact of_between (P := fun c place => Base.hexadecimal.IsDigit c (place + 10))
          (by decide) hlower
      next =>
        split at h
        next hupper =>
          obtain rfl := Option.some.inj h
          exact of_between (P := fun c place => Base.hexadecimal.IsDigit c (place + 10))
            (by decide) hupper
        next => cases h
  · rintro ⟨hvalue, hwritten⟩
    change value < 16 at hvalue
    interval_cases value <;> rcases hwritten with rfl | rfl <;> rfl

theorem Base.digit?_eq_some_iff : base.digit? c = some value ↔ base.IsDigit c value := by
  have hradix : base.radix ≤ Base.hexadecimal.radix := by
    cases base <;> decide
  rw [Base.digit?, Option.filter_eq_some_iff, digitValue?_eq_some_iff, decide_eq_true_iff]
  exact ⟨fun h => ⟨h.2, h.1.2⟩, fun h => ⟨⟨Nat.lt_of_lt_of_le h.1 hradix, h.2⟩, h.1⟩⟩

/-- One digit is read onto the value so far. -/
theorem readDigits_cons (base : Base) (c : Char) (rest : List Char) (value : Nat) :
    readDigits base (c :: rest) value =
      match base.digit? c with
      | none => .error .badDigit
      | some digit =>
        if value * base.radix + digit < 2 ^ 64 then
          readDigits base rest (value * base.radix + digit)
        else .error .tooLarge := rfl

/-- Reading digits onto a value moves it up by their places. -/
theorem readDigits_of_forall₂ {values : List Nat} (h : List.Forall₂ base.IsDigit digits values)
    (hvalue : value < 2 ^ 64) : readDigits base digits value =
      narrow (value * base.radix ^ values.length + Nat.ofDigits base.radix values.reverse) := by
  induction h generalizing value with
  | nil =>
      rw [List.length_nil, Nat.pow_zero, Nat.mul_one]
      exact (if_pos hvalue).symm
  | @cons c digit rest values hdigit _ ih =>
      have hplaces : value * base.radix ^ (digit :: values).length +
            Nat.ofDigits base.radix (digit :: values).reverse =
          (value * base.radix + digit) * base.radix ^ values.length +
            Nat.ofDigits base.radix values.reverse := by
        rw [List.reverse_cons, Nat.ofDigits_append, Nat.ofDigits_singleton, List.length_reverse,
          List.length_cons]
        ring
      rw [readDigits_cons, Base.digit?_eq_some_iff.mpr hdigit, hplaces]
      dsimp only
      split
      next hnext => exact ih hnext
      -- The digits behind only make the value larger.
      next hnext =>
        have hlarge : value * base.radix + digit ≤
            (value * base.radix + digit) * base.radix ^ values.length :=
          Nat.le_mul_of_pos_right _ (Nat.pow_pos base.radix_pos)
        exact (narrow_of_le (by omega)).symm

theorem readDigits_of_spells (h : base.Spells digits value) :
    readDigits base digits 0 = narrow value := by
  obtain ⟨values, hdigits, rfl⟩ := h
  rw [readDigits_of_forall₂ hdigits (by decide), Nat.zero_mul, Nat.zero_add]

/-- What is read consists of digits. -/
theorem exists_forall₂_of_readDigits (h : readDigits base digits value = .ok n) :
    ∃ values, List.Forall₂ base.IsDigit digits values := by
  induction digits generalizing value with
  | nil => exact ⟨[], .nil⟩
  | cons c rest ih =>
      rw [readDigits_cons] at h
      split at h
      next => cases h
      next digit hdigit =>
        split at h
        next hnext =>
          obtain ⟨values, hrest⟩ := ih h
          exact ⟨digit :: values, .cons (Base.digit?_eq_some_iff.mp hdigit) hrest⟩
        next => cases h

theorem exists_spells_of_readDigits (h : readDigits base digits value = .ok n) :
    ∃ spelled, base.Spells digits spelled := by
  obtain ⟨values, hdigits⟩ := exists_forall₂_of_readDigits h
  exact ⟨_, values, hdigits, rfl⟩

/-! ## The sign and the mark -/

/-- A character without a value in the base is no digit of it. -/
theorem Base.not_isDigit (h : base.digit? c = none) (digit : Nat) : ¬ base.IsDigit c digit := by
  intro hdigit
  rw [Base.digit?_eq_some_iff.mpr hdigit] at h
  cases h

theorem readUnsigned_plus (base : Base) (h : digits ≠ []) :
    readUnsigned base ('+' :: digits) = readDigits base digits 0 := by
  cases digits with
  | nil => contradiction
  | cons c rest => rfl

theorem readUnsigned_of_ne_plus (base : Base) (h : c ≠ '+') (rest : List Char) :
    readUnsigned base (c :: rest) = readDigits base (c :: rest) 0 := by
  unfold readUnsigned
  split <;> simp_all

theorem readUnsigned_of_unsigned (h : base.Unsigned text value) :
    readUnsigned base text = narrow value := by
  cases h with
  | plain hdigits h =>
      rw [← readDigits_of_spells h]
      obtain ⟨values, hvalues, _⟩ := h
      cases hvalues with
      | nil => contradiction
      | @cons c digit rest _ hdigit _ =>
          refine readUnsigned_of_ne_plus base ?_ rest
          rintro rfl
          exact base.not_isDigit rfl digit hdigit
  | signed hdigits h => rw [readUnsigned_plus base hdigits, readDigits_of_spells h]

theorem exists_unsigned_of_readUnsigned (h : readUnsigned base text = .ok n) :
    ∃ value, base.Unsigned text value := by
  cases text with
  | nil => cases h
  | cons c rest =>
      by_cases hplus : c = '+'
      · subst hplus
        by_cases hrest : rest = []
        · subst hrest
          cases h
        · rw [readUnsigned_plus base hrest] at h
          obtain ⟨value, hspells⟩ := exists_spells_of_readDigits h
          exact ⟨value, .signed hrest hspells⟩
      · rw [readUnsigned_of_ne_plus base hplus] at h
        obtain ⟨value, hspells⟩ := exists_spells_of_readDigits h
        exact ⟨value, .plain (List.cons_ne_nil c rest) hspells⟩

theorem splitMark_cases (text : List Char) :
    (∃ mark rest, (mark = 'x' ∨ mark = 'X') ∧ text = '0' :: mark :: rest ∧
      splitMark text = (.hexadecimal, rest)) ∨ splitMark text = (.decimal, text) := by
  unfold splitMark
  split
  next rest => exact .inl ⟨'x', rest, .inl rfl, rfl, rfl⟩
  next rest => exact .inl ⟨'X', rest, .inr rfl, rfl, rfl⟩
  next => exact .inr rfl

/-- A decimal numeral has no mark, because a letter is no decimal digit. -/
theorem splitMark_of_decimal (h : Base.decimal.Unsigned text value) :
    splitMark text = (.decimal, text) := by
  obtain ⟨mark, rest, hmark, rfl, _⟩ | hsplit := splitMark_cases text
  · cases h with
    | plain _ h =>
        obtain ⟨values, hvalues, _⟩ := h
        obtain _ | ⟨_, _ | ⟨hdigit, _⟩⟩ := hvalues
        have hnone : Base.decimal.digit? mark = none := by
          rcases hmark with rfl | rfl <;> rfl
        exact absurd hdigit (Base.not_isDigit hnone _)
  · exact hsplit

/-- A numeral is read in its base. -/
theorem parse_of_denotes {text : String} (h : Denotes (significant text) value) :
    parse text = narrow value := by
  unfold parse
  generalize significant text = meaning at h
  cases h with
  | decimal h =>
      rw [splitMark_of_decimal h]
      exact readUnsigned_of_unsigned h
  | hexadecimal hmark h => rcases hmark with rfl | rfl <;> exact readUnsigned_of_unsigned h

/-- What is read is a numeral. -/
theorem exists_denotes_of_parse {text : String} (h : parse text = .ok n) :
    ∃ value, Denotes (significant text) value := by
  unfold parse at h
  generalize significant text = meaning at h ⊢
  obtain ⟨mark, rest, hmark, rfl, hsplit⟩ | hsplit := splitMark_cases meaning
  · rw [hsplit] at h
    obtain ⟨value, hunsigned⟩ := exists_unsigned_of_readUnsigned h
    exact ⟨value, .hexadecimal hmark hunsigned⟩
  · rw [hsplit] at h
    obtain ⟨value, hunsigned⟩ := exists_unsigned_of_readUnsigned h
    exact ⟨value, .decimal hunsigned⟩

/-! ## Written numbers -/

/-- One more digit moves the others up by a place. -/
theorem Base.Spells.append (h : base.Spells digits value) {digit : Nat}
    (hdigit : base.IsDigit c digit) :
    base.Spells (digits ++ [c]) (value * base.radix + digit) := by
  obtain ⟨values, hvalues, rfl⟩ := h
  refine ⟨values ++ [digit], List.rel_append hvalues (.cons hdigit .nil), ?_⟩
  rw [List.reverse_append, List.reverse_singleton, List.singleton_append, Nat.ofDigits_cons,
    Nat.mul_comm, Nat.add_comm]

theorem spells_toDigits (base : Base) (value : Nat) :
    base.Spells (Nat.toDigits base.radix value) value := by
  have hradix : 1 < base.radix := by
    cases base <;> decide
  induction value using Nat.strong_induction_on with
  | _ value ih =>
      rw [Nat.toDigits_eq_if hradix]
      split
      next hlast =>
        exact ⟨[value], .cons ⟨hlast, .inl rfl⟩ .nil, Nat.ofDigits_singleton⟩
      next hmore =>
        have hsmaller : value / base.radix < value := Nat.div_lt_self (by omega) hradix
        have happend := (ih _ hsmaller).append ⟨Nat.mod_lt value base.radix_pos, .inl rfl⟩
        rwa [Nat.div_add_mod'] at happend

theorem denotes_toString (value : Nat) : Denotes (toString value).toList value := by
  rw [Nat.toString_eq_ofList_toDigits, String.toList_ofList]
  exact .decimal (.plain Nat.toDigits_ne_nil (spells_toDigits .decimal value))

theorem denotes_hex (value : Nat) : Denotes (hex value).toList value := by
  rw [hex, String.toList_ofList]
  exact .hexadecimal (.inl rfl) (.plain Nat.toDigits_ne_nil (spells_toDigits .hexadecimal value))

/-! ## What the reader takes -/

/-- A text is read as a number of 64 bits exactly when its characters without the
underscores denote this number. A numeral of a larger value is refused as too large. A
number that is written in decimal, or in hexadecimal behind a mark, is read back wherever
underscores are put into it. -/
theorem parse_exact (text : String) :
    (∀ n : UInt64, parse text = .ok n ↔ Denotes (text.toList.filter (· ≠ '_')) n.toNat) ∧
      (∀ value, Denotes (text.toList.filter (· ≠ '_')) value → 2 ^ 64 ≤ value →
        parse text = .error .tooLarge) ∧
      ∀ n : UInt64, text.toList.filter (· ≠ '_') = (toString n.toNat).toList ∨
          text.toList.filter (· ≠ '_') = (hex n.toNat).toList → parse text = .ok n := by
  have hread (n : UInt64) (h : Denotes (significant text) n.toNat) : parse text = .ok n :=
    (parse_of_denotes h).trans (narrow_toNat n)
  refine ⟨?_, ?_, ?_⟩
  · intro n
    refine ⟨?_, hread n⟩
    intro h
    obtain ⟨value, hdenotes⟩ := exists_denotes_of_parse h
    rw [toNat_of_narrow ((parse_of_denotes hdenotes).symm.trans h)]
    exact hdenotes
  · intro value hdenotes hlarge
    exact (parse_of_denotes hdenotes).trans (narrow_of_le hlarge)
  · intro n hwritten
    refine hread n ?_
    change Denotes (text.toList.filter (· ≠ '_')) n.toNat
    rcases hwritten with hwritten | hwritten
    · exact hwritten ▸ denotes_toString n.toNat
    · exact hwritten ▸ denotes_hex n.toNat

/-- Underscores inside the mark, a sign, both cases and a leading zero; the least value
that does not fit; and a number with underscores at both of its ends. -/
theorem parse_exact_topmost :
    Denotes "0X+0FFFFffffFFFFffff".toList 0xffffffffffffffff ∧
      parse "18_446_744_073_709_551_616" = .error .tooLarge ∧
      parse "_0_xffffffffffffffff_" = .ok 0xffffffffffffffff := by
  obtain ⟨hexact, _⟩ := parse_exact "0_X+0_FFFF_ffff_FFFF_ffff"
  obtain ⟨_, hlarge, _⟩ := parse_exact "18_446_744_073_709_551_616"
  obtain ⟨_, _, hwritten⟩ := parse_exact "_0_xffffffffffffffff_"
  refine ⟨(hexact 0xffffffffffffffff).mp rfl, hlarge (2 ^ 64) ?_ (Nat.le_refl _),
    hwritten 0xffffffffffffffff (.inr ?_)⟩
  · exact denotes_toString (2 ^ 64)
  · rfl

end AtsEndpoint.Text.Numeral
