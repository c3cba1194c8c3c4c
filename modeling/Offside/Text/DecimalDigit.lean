/-!
# Decimal digits

A decimal digit is a character of the Unicode category Nd. The model: such digits come in runs of
ten, from zero to nine in order, so the list of the zeros (`zeros`, as of Unicode 14) determines
both which characters are digits and what each is worth. Superscripts, fractions and Roman numerals
are not decimal digits.
-/

namespace Offside.Text

/-- The code point of every decimal zero, in ascending order. -/
def zeros : List Nat := [
  0x30, 0x660, 0x6F0, 0x7C0, 0x966, 0x9E6, 0xA66, 0xAE6, 0xB66, 0xBE6, 0xC66, 0xCE6, 0xD66,
  0xDE6, 0xE50, 0xED0, 0xF20, 0x1040, 0x1090, 0x17E0, 0x1810, 0x1946, 0x19D0, 0x1A80, 0x1A90,
  0x1B50, 0x1BB0, 0x1C40, 0x1C50, 0xA620, 0xA8D0, 0xA900, 0xA9D0, 0xA9F0, 0xAA50, 0xABF0,
  0xFF10, 0x104A0, 0x10D30, 0x11066, 0x110F0, 0x11136, 0x111D0, 0x112F0, 0x11450, 0x114D0,
  0x11650, 0x116C0, 0x11730, 0x118E0, 0x11950, 0x11C50, 0x11D50, 0x11DA0, 0x16A60, 0x16AC0,
  0x16B50, 0x1D7CE, 0x1D7D8, 0x1D7E2, 0x1D7EC, 0x1D7F6, 0x1E140, 0x1E2F0, 0x1E950, 0x1FBF0]

/-- What a decimal digit is worth, and nothing for any other character. -/
def digitValue? (c : Char) : Option Nat :=
  (zeros.find? fun z => z ≤ c.toNat && c.toNat < z + 10).map (c.toNat - ·)

/-- The character is a decimal digit of some script. -/
def isDecimalDigit (c : Char) : Bool :=
  zeros.any fun z => z ≤ c.toNat && c.toNat < z + 10

/-! ### Laws -/

theorem isDecimalDigit_iff {c : Char} :
    isDecimalDigit c = true ↔ ∃ z ∈ zeros, z ≤ c.toNat ∧ c.toNat < z + 10 := by
  simp [isDecimalDigit, List.any_eq_true]

/-- Every zero but the first lies beyond the ASCII characters. -/
theorem zeros_ascii : ∀ z ∈ zeros, z = 0x30 ∨ 0x80 ≤ z := by decide

theorem isDecimalDigit_ascii {c : Char} (h : isDecimalDigit c = true) (ascii : c.toNat < 0x80) :
    0x30 ≤ c.toNat ∧ c.toNat < 0x3A := by
  obtain ⟨z, hz, lo, hi⟩ := isDecimalDigit_iff.1 h
  rcases zeros_ascii z hz with rfl | far <;> omega

end Offside.Text
