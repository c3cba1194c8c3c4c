import Offside.Text.Quoted

/-!
# UTF-8

The bytes of a file are read as UTF-8. The model: a character is one byte below 80, or a first byte
that announces one to three continuation bytes; the range of the first of these depends on the first
byte, so that no character has two forms and none is a surrogate or beyond 10FFFF. `decode` reads a
whole text or names the first fault: the bytes that could still start a character but do not, where
they stand, and why. What `encode` writes, `decode` reads back (`decode_encode`).
-/

namespace Offside.Text.Utf8

/-- Why some bytes are no character. -/
inductive Reason where
  /-- The byte starts no character. -/
  | invalidStart
  /-- The next byte does not continue the character. -/
  | invalidContinuation
  /-- The text ends within the character. -/
  | unexpectedEnd
  deriving DecidableEq, Repr

/-- The wording of a reason. -/
def Reason.text : Reason → String
  | .invalidStart => "invalid start byte"
  | .invalidContinuation => "invalid continuation byte"
  | .unexpectedEnd => "unexpected end of data"

/-- The first place where bytes are not UTF-8. -/
structure Fault where
  /-- Position of the first bad byte. -/
  start : Nat
  /-- The bad bytes, one to three of them. -/
  bytes : List UInt8
  reason : Reason
  deriving DecidableEq, Repr

/-- A single bad byte is shown; of several only the positions are given. -/
def Fault.message (fault : Fault) : String :=
  let place :=
    match fault.bytes with
    | [b] => "byte 0x" ++ String.ofList (hexadecimal 2 b.toNat) ++ " in position "
        ++ toString fault.start
    | bytes => "bytes in position " ++ toString fault.start ++ "-"
        ++ toString (fault.start + bytes.length - 1)
  "'utf-8' codec can't decode " ++ place ++ ": " ++ fault.reason.text

/-- A character some of whose bytes have been read. -/
structure Unfinished where
  /-- The bytes read, in order. -/
  bytes : List UInt8
  /-- The number that their bits make. -/
  value : Nat
  /-- How many bytes are still to come. -/
  owed : Nat
  /-- The least value of the next byte. -/
  low : Nat
  /-- The greatest value of the next byte. -/
  high : Nat

/-- What a first byte from 80 on announces, if it starts a character. -/
def first? (b : UInt8) : Option Unfinished :=
  let n := b.toNat
  if n < 0xC2 then none
  else if n < 0xE0 then some ⟨[b], n - 0xC0, 1, 0x80, 0xBF⟩
  else if n < 0xF0 then
    some ⟨[b], n - 0xE0, 2, if n = 0xE0 then 0xA0 else 0x80, if n = 0xED then 0x9F else 0xBF⟩
  else if n < 0xF5 then
    some ⟨[b], n - 0xF0, 3, if n = 0xF0 then 0x90 else 0x80, if n = 0xF4 then 0x8F else 0xBF⟩
  else none

/-- The text of bytes that stand from a position on, possibly within a character. -/
def decodeFrom : Nat → Option Unfinished → List UInt8 → Except Fault (List Char)
  | _, none, [] => .ok []
  | position, some u, [] => .error ⟨position - u.bytes.length, u.bytes, .unexpectedEnd⟩
  | position, none, b :: rest =>
    if b.toNat < 0x80 then
      (Char.ofNat b.toNat :: ·) <$> decodeFrom (position + 1) none rest
    else
      match first? b with
      | none => .error ⟨position, [b], .invalidStart⟩
      | some u => decodeFrom (position + 1) (some u) rest
  | position, some u, b :: rest =>
    if u.low ≤ b.toNat ∧ b.toNat ≤ u.high then
      let value := u.value * 0x40 + (b.toNat - 0x80)
      if u.owed = 1 then
        (Char.ofNat value :: ·) <$> decodeFrom (position + 1) none rest
      else
        decodeFrom (position + 1) (some ⟨u.bytes ++ [b], value, u.owed - 1, 0x80, 0xBF⟩) rest
    else .error ⟨position - u.bytes.length, u.bytes, .invalidContinuation⟩

/-- The text that bytes spell, or the first fault in them. -/
def decode (bytes : List UInt8) : Except Fault (List Char) := decodeFrom 0 none bytes

/-- The bytes of a character. -/
def encodeChar (c : Char) : List UInt8 :=
  let n := c.toNat
  let tail (unit : Nat) : UInt8 := UInt8.ofNat (0x80 + n / unit % 0x40)
  if n < 0x80 then [UInt8.ofNat n]
  else if n < 0x800 then [UInt8.ofNat (0xC0 + n / 0x40), tail 1]
  else if n < 0x10000 then [UInt8.ofNat (0xE0 + n / 0x1000), tail 0x40, tail 1]
  else [UInt8.ofNat (0xF0 + n / 0x40000), tail 0x1000, tail 0x40, tail 1]

/-- The bytes of a text. -/
def encode (text : List Char) : List UInt8 := text.flatMap encodeChar

/-! ### Laws -/

theorem toNat_ofNat {n : Nat} (h : n < 0x100) : (UInt8.ofNat n).toNat = n := by
  rw [UInt8.toNat_ofNat']
  exact Nat.mod_eq_of_lt h

theorem toNat_range (c : Char) : c.toNat < 0xD800 ∨ 0xDFFF < c.toNat ∧ c.toNat < 0x110000 := c.valid

/-- The bytes of a character read back as that character, whatever follows. -/
theorem decodeFrom_encodeChar (c : Char) (rest : List UInt8) (position : Nat) :
    decodeFrom position none (encodeChar c ++ rest) =
      (c :: ·) <$> decodeFrom (position + (encodeChar c).length) none rest := by
  have range := toNat_range c
  have self := Char.ofNat_toNat c
  generalize hn : c.toNat = n at range self
  unfold encodeChar
  rw [hn]
  by_cases h1 : n < 0x80
  · simp [h1, decodeFrom, toNat_ofNat (show n < 0x100 by omega), self]
  have tail (unit : Nat) := toNat_ofNat (show 0x80 + n / unit % 0x40 < 0x100 by omega)
  by_cases h2 : n < 0x800
  · have head := toNat_ofNat (show 0xC0 + n / 0x40 < 0x100 by omega)
    simp only [h1, h2, if_true, if_false, List.cons_append, List.nil_append, decodeFrom, first?,
      head, tail, show ¬ 0xC0 + n / 0x40 < 0x80 by omega, show ¬ 0xC0 + n / 0x40 < 0xC2 by omega,
      show 0xC0 + n / 0x40 < 0xE0 by omega,
      show 0x80 ≤ 0x80 + n / 1 % 0x40 ∧ 0x80 + n / 1 % 0x40 ≤ 0xBF by omega]
    rw [show (0xC0 + n / 0x40 - 0xC0) * 0x40 + (0x80 + n / 1 % 0x40 - 0x80) = n by omega, self]
    rfl
  by_cases h3 : n < 0x10000
  · have head := toNat_ofNat (show 0xE0 + n / 0x1000 < 0x100 by omega)
    have low : (if 0xE0 + n / 0x1000 = 0xE0 then 0xA0 else 0x80) ≤ 0x80 + n / 0x40 % 0x40 := by
      split <;> omega
    have high : 0x80 + n / 0x40 % 0x40 ≤ if 0xE0 + n / 0x1000 = 0xED then 0x9F else 0xBF := by
      split <;> omega
    simp only [h1, h2, h3, if_true, if_false, List.cons_append, List.nil_append, decodeFrom, first?,
      head, tail, low, high, and_self, show ¬ 0xE0 + n / 0x1000 < 0x80 by omega,
      show ¬ 0xE0 + n / 0x1000 < 0xC2 by omega, show ¬ 0xE0 + n / 0x1000 < 0xE0 by omega,
      show 0xE0 + n / 0x1000 < 0xF0 by omega, show ¬ 2 = 1 by omega,
      show 0x80 ≤ 0x80 + n / 1 % 0x40 ∧ 0x80 + n / 1 % 0x40 ≤ 0xBF by omega]
    rw [show ((0xE0 + n / 0x1000 - 0xE0) * 0x40 + (0x80 + n / 0x40 % 0x40 - 0x80)) * 0x40
      + (0x80 + n / 1 % 0x40 - 0x80) = n by omega, self]
    rfl
  · have head := toNat_ofNat (show 0xF0 + n / 0x40000 < 0x100 by omega)
    have low : (if 0xF0 + n / 0x40000 = 0xF0 then 0x90 else 0x80) ≤ 0x80 + n / 0x1000 % 0x40 := by
      split <;> omega
    have high : 0x80 + n / 0x1000 % 0x40 ≤ if 0xF0 + n / 0x40000 = 0xF4 then 0x8F else 0xBF := by
      split <;> omega
    simp only [h1, h2, h3, if_true, if_false, List.cons_append, List.nil_append, decodeFrom, first?,
      head, tail, low, high, and_self, show ¬ 0xF0 + n / 0x40000 < 0x80 by omega,
      show ¬ 0xF0 + n / 0x40000 < 0xC2 by omega, show ¬ 0xF0 + n / 0x40000 < 0xE0 by omega,
      show ¬ 0xF0 + n / 0x40000 < 0xF0 by omega, show 0xF0 + n / 0x40000 < 0xF5 by omega,
      show ¬ 3 = 1 by omega, show ¬ 3 - 1 = 1 by omega, show 3 - 1 - 1 = 1 by omega,
      show 0x80 ≤ 0x80 + n / 0x40 % 0x40 ∧ 0x80 + n / 0x40 % 0x40 ≤ 0xBF by omega,
      show 0x80 ≤ 0x80 + n / 1 % 0x40 ∧ 0x80 + n / 1 % 0x40 ≤ 0xBF by omega]
    rw [show (((0xF0 + n / 0x40000 - 0xF0) * 0x40 + (0x80 + n / 0x1000 % 0x40 - 0x80)) * 0x40
      + (0x80 + n / 0x40 % 0x40 - 0x80)) * 0x40 + (0x80 + n / 1 % 0x40 - 0x80) = n by omega,
      self]
    rfl

theorem decodeFrom_encode (text : List Char) (position : Nat) :
    decodeFrom position none (encode text) = .ok text := by
  induction text generalizing position with
  | nil => rfl
  | cons c text ih =>
    rw [encode, List.flatMap_cons, decodeFrom_encodeChar]
    rw [show text.flatMap encodeChar = encode text from rfl, ih]
    rfl

/-- What is written as UTF-8 reads back. -/
theorem decode_encode (text : List Char) : decode (encode text) = .ok text :=
  decodeFrom_encode text 0

end Offside.Text.Utf8
