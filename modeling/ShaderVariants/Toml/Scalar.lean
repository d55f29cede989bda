import ShaderVariants.Decimal.Overflow
import ShaderVariants.Toml.Digit

/-!
# Numbers and moments in TOML

A value without quotes is a number or a moment: a date, a time of day, or both with or
without an offset.  Numbers have to be small enough: whole ones for 128 bits, others for
a float.

## Main definitions

* `isNumber`, `isMoment` — whether a word is one.
-/

namespace ShaderVariants

namespace Toml

/-- One digit or more, with single underscores between digits. -/
def isGrouped (base : Nat) : List Char → Bool
  | [] => false
  | [c] => isDigit base c
  | c :: '_' :: s => isDigit base c && isGrouped base s
  | c :: s => isDigit base c && isGrouped base s

/-! ### Numbers -/

/-- The word without a sign. -/
def unsigned : List Char → List Char
  | '+' :: s => s
  | '-' :: s => s
  | s => s

/-- A whole number in base ten, without unnecessary zeros. -/
def isWhole : List Char → Bool
  | ['0'] => true
  | '0' :: _ => false
  | s => isGrouped 10 s

/-- The word before the first character of a kind, and the word after that character. -/
def splitAt? (p : Char → Bool) (s : List Char) : Option (List Char × List Char) :=
  match s.span (fun c => !p c) with
  | (_, []) => none
  | (before, _ :: after) => some (before, after)

/-- A whole number, possibly with a fraction. -/
def isFixed (s : List Char) : Bool :=
  match splitAt? (· = '.') s with
  | none => isWhole s
  | some (whole, fraction) => isWhole whole && isGrouped 10 fraction

/-- Whether a whole number is not too large.  It may take 128 bits, one of which is for
the sign if it is negative. -/
def isBounded (base : Nat) (negative : Bool) (digits : List Char) : Bool :=
  let n := valueOf base digits
  if negative then n ≤ 1 <<< 127 else n < 1 <<< 128

/-- The value of an exponent. -/
def exponentOf : List Char → Int
  | '-' :: s => -valueOf 10 s
  | s => valueOf 10 s

/-- The value of a number with a fraction or without, to which an exponent belongs. -/
def decimalOf (fixed exponent : List Char) : Decimal where
  coefficient := valueOf 10 fixed
  exponent :=
    match splitAt? (· = '.') fixed with
    | none => exponentOf exponent
    | some (_, fraction) => exponentOf exponent - (fraction.countP (isDigit 10) : Int)

/-- A number in base ten without a sign, with a fraction or an exponent or none. -/
def isDecimal (negative : Bool) (s : List Char) : Bool :=
  match splitAt? (fun c => c = 'e' || c = 'E') s with
  | none =>
    isFixed s && (if s.contains '.' then !(decimalOf s []).overflows else isBounded 10 negative s)
  | some (fixed, exponent) =>
    isFixed fixed && isGrouped 10 (unsigned exponent) && !(decimalOf fixed exponent).overflows

/-- A number: in base 16, 8 or 2, with a sign in base ten, infinite, or none at all. -/
def isNumber (s : List Char) : Bool :=
  match s with
  | '0' :: 'x' :: digits => isGrouped 16 digits && isBounded 16 false digits
  | '0' :: 'o' :: digits => isGrouped 8 digits && isBounded 8 false digits
  | '0' :: 'b' :: digits => isGrouped 2 digits && isBounded 2 false digits
  | s =>
    unsigned s = ['i', 'n', 'f'] || unsigned s = ['n', 'a', 'n'] ||
      isDecimal (s.head? = some '-') (unsigned s)

/-! ### Moments -/

/-- The number with exactly these digits. -/
def digits? (s : List Char) : Option Nat :=
  if s.all (isDigit 10) then some (valueOf 10 s) else none

/-- The number of days in a month of a year, and 0 for a month that there is not. -/
def daysIn (year month : Nat) : Nat :=
  if month = 2 then
    if year % 4 = 0 ∧ (year % 100 ≠ 0 ∨ year % 400 = 0) then 29 else 28
  else if month ∈ [4, 6, 9, 11] then 30
  else if 1 ≤ month ∧ month ≤ 12 then 31
  else 0

/-- The word after a date, if it begins with one. -/
def afterDate? : List Char → Option (List Char)
  | a :: b :: c :: d :: '-' :: e :: f :: '-' :: g :: h :: s => do
    let year ← digits? [a, b, c, d]
    let month ← digits? [e, f]
    let day ← digits? [g, h]
    if 1 ≤ day ∧ day ≤ daysIn year month then some s else none
  | _ => none

/-- The word after an hour and a minute, if it begins with them. -/
def afterMinute? : List Char → Option (List Char)
  | a :: b :: ':' :: c :: d :: s => do
    let hour ← digits? [a, b]
    let minute ← digits? [c, d]
    if hour < 24 ∧ minute < 60 then some s else none
  | _ => none

/-- The word after a time of day, if it begins with one.  Seconds may be missing, and may
have a fraction. -/
def afterTime? (s : List Char) : Option (List Char) := do
  match ← afterMinute? s with
  | ':' :: a :: b :: s =>
    let second ← digits? [a, b]
    if second ≤ 60 then
      match s with
      | '.' :: c :: s => if c.isDigit then some (s.dropWhile (·.isDigit)) else none
      | s => some s
    else none
  | s => some s

/-- Nothing, or an offset from universal time. -/
def isOffset : List Char → Bool
  | [] => true
  | '+' :: s => afterMinute? s = some []
  | '-' :: s => afterMinute? s = some []
  | s => s = ['Z'] || s = ['z']

/-- A date, a time of day, or both. -/
def isMoment (s : List Char) : Bool :=
  match afterDate? s with
  | none => afterTime? s = some []
  | some [] => true
  | some (c :: time) =>
    (c = 'T' || c = 't' || c = ' ') && ((afterTime? time).map isOffset).getD false

end Toml

end ShaderVariants
