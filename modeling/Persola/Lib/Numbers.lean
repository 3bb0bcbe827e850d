import Persola.Lib.Binary64
import Persola.Lib.Json

/-!
# `Numbers` — the integers and the floats of a JSON text

What `json.loads` makes of a number: an integer of any size, as long as it has no more digits than Python converts,
or a float. A float is a rational here, rounded as in `Binary64`, beside the infinities and `NaN`. `float` takes a value
of any type, and refuses it in one of three ways: for its type, for its text, or as an integer that is too large for a
float.
-/

/-- A float. -/
inductive FloatValue
  | finite (x : ℚ)
  | inf
  | negInf
  | nan
deriving DecidableEq, Repr

/-- An `int` or a `float`. -/
inductive Number
  | int (n : ℤ)
  | float (x : FloatValue)
deriving DecidableEq, Repr

namespace Number

/-- What is this large or larger is rounded to an infinity. -/
@[irreducible] def floatLimit : ℕ := 2 ^ 1024 - 2 ^ 970

/-- `sys.get_int_max_str_digits()`. -/
def maxStrDigits : ℕ := 4300

/-- The float of a decimal. -/
def ofDecimal (x : ℚ) : FloatValue :=
  if (floatLimit : ℚ) ≤ x then .inf else if x ≤ -(floatLimit : ℚ) then .negInf else .finite (Binary64.fl x)

/-- A fault of `json.loads`: a `JSONDecodeError`, or the `ValueError` of an integer with too many digits. -/
inductive Fault
  | decodeError
  | valueError
deriving DecidableEq, Repr

/-- The digits of a number, the zero alone, and what follows. -/
def digitRun (s : List Char) : Option (List Char × List Char) :=
  match s with
  | '0' :: s => some (['0'], s)
  | s =>
      match s.span Char.isDigit with
      | ([], _) => none
      | (digits, r) => some (digits, r)

/-- `\.\d+` -/
def fraction (s : List Char) : Option (List Char × List Char) :=
  match s with
  | '.' :: s =>
      match s.span Char.isDigit with
      | ([], _) => none
      | (digits, r) => some (digits, r)
  | _ => none

/-- `[-+]?\d+` -/
def signedRun (s : List Char) : Option (ℤ × List Char) :=
  let (sign, s) := match s with
    | '-' :: s => ((-1 : ℤ), s)
    | '+' :: s => (1, s)
    | s => (1, s)
  match s.span Char.isDigit with
  | ([], _) => none
  | (digits, r) => some (sign * Nat.ofDigitChars 10 digits 0, r)

/-- `[eE][-+]?\d+` -/
def exponent (s : List Char) : Option (ℤ × List Char) :=
  match s with
  | 'e' :: s | 'E' :: s => signedRun s
  | _ => none

/-- A number behind its sign. -/
def scanUnsigned (sign : ℤ) (s : List Char) : Except Fault (Number × List Char) :=
  match digitRun s with
  | none => .error .decodeError
  | some (digits, s) =>
      let part := fraction s
      let afterPart := (part.map Prod.snd).getD s
      let power := exponent afterPart
      if part.isNone ∧ power.isNone then
        if digits.length ≤ maxStrDigits then .ok (.int (sign * Nat.ofDigitChars 10 digits 0), s)
        else .error .valueError
      else
        let places := (part.map Prod.fst).getD []
        let mantissa : ℤ := sign * Nat.ofDigitChars 10 (digits ++ places) 0
        let shift : ℤ := (power.map Prod.fst).getD 0 - places.length
        .ok (.float (ofDecimal (mantissa * 10 ^ shift)), (power.map Prod.snd).getD afterPart)

/-- `_match_number`, with the constants. -/
def scan (s : List Char) : Except Fault (Number × List Char) :=
  match s with
  | 'N' :: 'a' :: 'N' :: r => .ok (.float .nan, r)
  | 'I' :: 'n' :: 'f' :: 'i' :: 'n' :: 'i' :: 't' :: 'y' :: r => .ok (.float .inf, r)
  | '-' :: 'I' :: 'n' :: 'f' :: 'i' :: 'n' :: 'i' :: 't' :: 'y' :: r => .ok (.float .negInf, r)
  | '-' :: s => scanUnsigned (-1) s
  | s => scanUnsigned 1 s

/-- `not number`. -/
def isZero : Number → Bool
  | .int n => n = 0
  | .float x => x = .finite 0

end Number

namespace FloatValue

/-- `round(x, digits)`. -/
def round (digits : ℕ) : FloatValue → FloatValue
  | .finite x => .finite (Rounding.binary64.round digits x)
  | x => x

/-- `max(0.0, min(1.0, x))`; `min(1.0, nan)` is `1.0`. -/
def clamp : FloatValue → ℚ
  | .finite x => max 0 (min 1 x)
  | .inf => 1
  | .negInf => 0
  | .nan => 1

theorem clamp_range (x : FloatValue) : 0 ≤ x.clamp ∧ x.clamp ≤ 1 := by
  cases x with
  | finite x => exact ⟨le_max_left _ _, max_le zero_le_one (min_le_left _ _)⟩
  | inf => exact ⟨zero_le_one, le_rfl⟩
  | negInf => exact ⟨le_rfl, zero_le_one⟩
  | nan => exact ⟨zero_le_one, le_rfl⟩

end FloatValue

/-! ## `float` -/

/-- What is raised. -/
inductive PyError
  | attributeError
  | typeError
  | valueError
  | overflowError
deriving DecidableEq, Repr

namespace Json

variable {value : Json Number} {ofText : String → Option FloatValue}

/-- `float(value)`; `ofText` reads a text. -/
def toFloat (ofText : String → Option FloatValue) : Json Number → Except PyError FloatValue
  | .number (.float x) => .ok x
  | .number (.int n) =>
      if n.natAbs < Number.floatLimit then .ok (.finite (Binary64.fl n)) else .error .overflowError
  | .bool b => .ok (.finite (if b then 1 else 0))
  | .str s =>
      match ofText s with
      | some x => .ok x
      | none => .error .valueError
  | .null | .arr _ | .obj _ => .error .typeError

/-- `float` refuses the value for its type or its text. -/
def refused (ofText : String → Option FloatValue) : Json Number → Bool
  | .str s => (ofText s).isNone
  | .null | .arr _ | .obj _ => true
  | _ => false

/-- The value is an integer that is too large for a float. -/
def overflows : Json Number → Bool
  | .number (.int n) => Number.floatLimit ≤ n.natAbs
  | _ => false

theorem overflows_int {n : ℤ} : overflows (.number (.int n)) ↔ Number.floatLimit ≤ n.natAbs := by
  unfold overflows
  exact decide_eq_true_iff

theorem toFloat_refused (h : refused ofText value) :
    toFloat ofText value = .error .typeError ∨ toFloat ofText value = .error .valueError := by
  cases value with
  | null | arr | obj => exact .inl rfl
  | bool b => cases h
  | number n => cases h
  | str s =>
      have hnone : ofText s = none := Option.isNone_iff_eq_none.mp h
      rw [toFloat, hnone]
      exact .inr rfl

theorem toFloat_overflows (h : overflows value) : toFloat ofText value = .error .overflowError := by
  cases value with
  | number n =>
      cases n with
      | int n =>
          rw [overflows_int] at h
          rw [toFloat, if_neg (Nat.not_lt.mpr h)]
      | float x => cases h
  | _ => cases h

/-- Everything else is read. -/
theorem toFloat_read (hrefused : refused ofText value = false) (hlarge : overflows value = false) :
    ∃ x, toFloat ofText value = .ok x := by
  cases value with
  | bool b => exact ⟨_, rfl⟩
  | number n =>
      cases n with
      | int n =>
          rw [← Bool.not_eq_true, overflows_int] at hlarge
          exact ⟨.finite (Binary64.fl n), by rw [toFloat, if_pos (Nat.not_le.mp hlarge)]⟩
      | float x => exact ⟨x, rfl⟩
  | str s =>
      obtain ⟨x, hx⟩ := Option.isSome_iff_exists.mp (Option.isNone_eq_false_iff.mp hrefused)
      exact ⟨x, by rw [toFloat, hx]⟩
  | null | arr | obj => cases hrefused

end Json
