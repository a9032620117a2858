/-
  LineLisp.Text.Digit

  Decimal digits of every script. They count where a word of the command line
  is checked for being a negative number, and in numerals; numbers in source
  text have ASCII digits only.
-/

namespace LineLisp.Text

/-- The code points of the digits zero. The other nine digits of a script follow
    its zero. -/
def zeroDigits : List Nat :=
  [
    0x30, 0x660, 0x6F0, 0x7C0, 0x966, 0x9E6, 0xA66, 0xAE6,
    0xB66, 0xBE6, 0xC66, 0xCE6, 0xD66, 0xDE6, 0xE50, 0xED0,
    0xF20, 0x1040, 0x1090, 0x17E0, 0x1810, 0x1946, 0x19D0, 0x1A80,
    0x1A90, 0x1B50, 0x1BB0, 0x1C40, 0x1C50, 0xA620, 0xA8D0, 0xA900,
    0xA9D0, 0xA9F0, 0xAA50, 0xABF0, 0xFF10, 0x104A0, 0x10D30, 0x11066,
    0x110F0, 0x11136, 0x111D0, 0x112F0, 0x11450, 0x114D0, 0x11650, 0x116C0,
    0x11730, 0x118E0, 0x11950, 0x11C50, 0x11D50, 0x11DA0, 0x16A60, 0x16AC0,
    0x16B50, 0x1D7CE, 0x1D7D8, 0x1D7E2, 0x1D7EC, 0x1D7F6, 0x1E140, 0x1E2F0,
    0x1E950, 0x1FBF0
  ]

/-- Whether a character is a decimal digit of some script. -/
def isDecimalDigit (c : Char) : Bool :=
  zeroDigits.any fun first => first ≤ c.toNat && c.toNat ≤ first + 9

/-- The ASCII digit of the same value as a decimal digit. -/
def asciiDigit? (c : Char) : Option Char :=
  (zeroDigits.find? fun first => first ≤ c.toNat && c.toNat ≤ first + 9).map fun first =>
    Nat.digitChar (c.toNat - first)

/-- The digits of the core character class are decimal digits. -/
theorem isDecimalDigit_of_isDigit {c : Char} (h : c.isDigit = true) :
    isDecimalDigit c = true := by
  have h9 := Char.isDigit_iff_toNat.1 h
  simp only [isDecimalDigit, List.any_eq_true, Bool.and_eq_true, decide_eq_true_eq]
  exact ⟨0x30, by decide, h9.1, h9.2⟩

theorem isDigit_of_asciiDigit?_eq_some {c d : Char} (h : asciiDigit? c = some d) :
    d.isDigit = true := by
  obtain ⟨first, hfind, rfl⟩ := Option.map_eq_some_iff.1 h
  have hrange := List.find?_some hfind
  simp only [Bool.and_eq_true, decide_eq_true_eq] at hrange
  rw [Nat.isDigit_digitChar, decide_eq_true_eq]
  omega

/-- An ASCII digit stands for itself. -/
theorem asciiDigit?_of_isDigit {c : Char} (h : c.isDigit = true) : asciiDigit? c = some c := by
  have h9 := Char.isDigit_iff_toNat.1 h
  have h0 : '0'.toNat = 48 := rfl
  have h57 : '9'.toNat = 57 := rfl
  have hchar : Nat.digitChar (c.toNat - 0x30) = c := by
    apply Char.toNat_inj.1
    rw [Nat.toNat_digitChar_of_lt_ten (by omega)]
    omega
  have hfind : (zeroDigits.find? fun first => first ≤ c.toNat && c.toNat ≤ first + 9) =
      some 0x30 := by
    refine List.find?_cons_of_pos ?_
    simp only [Bool.and_eq_true, decide_eq_true_eq]
    omega
  rw [asciiDigit?, hfind, Option.map_some, hchar]

end LineLisp.Text
