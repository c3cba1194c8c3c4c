import Offside.Text.Quoted

/-!
# Widths as they are given

Two settings count columns: the width of a tab and the width of one step of indentation. Both must
be whole numbers above zero. What is given for the first may be anything, and is refused if it is no
integer; for the second it is an integer or a truth value, which counts as one or no column. The model:
`Setting` is what can be given; `TabWidth` and `IndentWidth` are what is accepted, and carry the proof
that they are above zero.
-/

namespace Offside

/-- A decimal number, `± mantissa * 10 ^ exponent`. -/
structure Decimal where
  negative : Bool := false
  mantissa : Nat
  exponent : Int := 0
  deriving DecidableEq, Repr

/-- Digits without the zeros at their end. -/
def trimZeros (digits : List Char) : List Char := (digits.reverse.dropWhile (· = '0')).reverse

/-- A decimal number is written by its digits without zeros at the end, and zero by one digit. Let the
point stand after the first `point` of them. From -3 to 16 places it is written there, with zeros for the
places that have no digit and with at least one digit on both sides; elsewhere it is written after the
first digit, if there is another, and a power of ten of at least two digits follows. -/
def Decimal.text (d : Decimal) : String :=
  let written := Nat.toDigits 10 d.mantissa
  let digits := if d.mantissa = 0 then ['0'] else trimZeros written
  let point : Int := if d.mantissa = 0 then 1 else written.length + d.exponent
  let zeros (n : Int) : List Char := List.replicate n.toNat '0'
  let number :=
    if -4 < point ∧ point ≤ 16 then
      let whole := digits.take point.toNat ++ zeros (point - digits.length)
      let part := zeros (-point) ++ digits.drop point.toNat
      (if whole = [] then ['0'] else whole) ++ '.' :: if part = [] then ['0'] else part
    else
      let power := point - 1
      digits.take 1 ++ (if digits.length = 1 then [] else '.' :: digits.drop 1)
        ++ 'e' :: (if power < 0 then '-' else '+') :: (Nat.toDigits 10 power.natAbs).leftpad 2 '0'
  (if d.negative then "-" else "") ++ String.ofList number

/-- What is given where a number of columns is asked for. -/
inductive Setting where
  | integer (n : Int)
  | decimal (d : Decimal)
  /-- A number beyond all others. -/
  | infinite (negative : Bool)
  /-- What a meaningless calculation gives. -/
  | noNumber
  | flag (b : Bool)
  | text (t : List Char)
  /-- Nothing, said explicitly. -/
  | absent
  /-- A place for values with none in it. -/
  | vacant
  deriving DecidableEq, Repr

/-- A setting as it is shown in a message. -/
def Setting.display : Setting → String
  | .integer n => toString n
  | .decimal d => d.text
  | .infinite false => "inf"
  | .infinite true => "-inf"
  | .noNumber => "nan"
  | .flag true => "True"
  | .flag false => "False"
  | .text t => Text.quote t
  | .absent => "None"
  | .vacant => "[]"

/-- The width of a tab, in columns. -/
structure TabWidth where
  columns : Nat
  columns_pos : 0 < columns := by omega
  deriving DecidableEq, Repr

/-- The width of one step of indentation, in columns. -/
structure IndentWidth where
  columns : Nat
  columns_pos : 0 < columns := by omega
  deriving DecidableEq, Repr

/-- A tab is four columns wide unless something else is asked for. -/
def TabWidth.standard : TabWidth := { columns := 4 }

/-- A step of indentation is four columns wide unless something else is asked for. -/
def IndentWidth.standard : IndentWidth := { columns := 4 }

/-- A setting that is refused. -/
inductive InvalidSetting where
  | tabWidth (given : Setting)
  | indentWidth (given : Setting)
  deriving DecidableEq, Repr

/-- The wording of a refusal. -/
def InvalidSetting.message : InvalidSetting → String
  | .tabWidth given => "tab_width must be a positive integer, got " ++ given.display
  | .indentWidth given => "indent_width must be positive, got " ++ given.display

/-- Any integer above zero is a tab width. -/
def TabWidth.ofSetting : Setting → Except InvalidSetting TabWidth
  | .integer n =>
    if h : 0 < n then .ok { columns := n.toNat } else .error (.tabWidth (.integer n))
  | given => .error (.tabWidth given)

/-- Any integer above zero is a step of indentation. -/
def IndentWidth.ofInteger (n : Int) : Except InvalidSetting IndentWidth :=
  if h : 0 < n then .ok { columns := n.toNat } else .error (.indentWidth (.integer n))

/-- So is the truth value that counts as one. -/
def IndentWidth.ofFlag : Bool → Except InvalidSetting IndentWidth
  | true => .ok { columns := 1 }
  | false => .error (.indentWidth (.flag false))

/-! ### Laws -/

/-- The accepted tab widths are the integers above zero. -/
theorem TabWidth.ofSetting_eq_ok_iff {given : Setting} {width : TabWidth} :
    TabWidth.ofSetting given = .ok width ↔ given = .integer width.columns := by
  obtain ⟨columns, pos⟩ := width
  constructor
  · intro h
    cases given with
    | integer n =>
      simp only [ofSetting] at h
      split at h
      · simp only [Except.ok.injEq, TabWidth.mk.injEq] at h
        simp only [Setting.integer.injEq]
        omega
      · simp at h
    | _ => simp [ofSetting] at h
  · rintro rfl
    simp [ofSetting, pos]

end Offside
