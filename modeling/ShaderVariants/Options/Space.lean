import ShaderVariants.Options.Declared

/-!
# Spaces of variants

The values of some options vary while those of the others stay fixed.  The words of
such a space are shown by a counter whose digits are the fields of the varying options:
in every step the lowest field that is not at its last value grows, and everything below
it begins again at zero.  They are numbered in the order in which the counter shows them.

A word that ends within the last field cannot tell all values of that option apart.  The
counter then never gets past them: it begins again at zero and has no end.

## Main definitions

* `OptionFilter` — which options vary.
* `VariantSpace` — a space of option words; `VariantSpace.ofOptions` builds it.
* `VariantSpace.advance`, `VariantSpace.firstWords` — a step of the counter, and the words
  that it shows first.
* `VariantSpace.size`, `VariantSpace.word`, `VariantSpace.words` — how many words there
  are, the one of a number, and all of them.
-/

namespace ShaderVariants

/-- Which options vary. -/
inductive OptionFilter where
  | all
  /-- Those that change a program. -/
  | program
  /-- Those that never change a program. -/
  | invariant
  deriving DecidableEq, Repr

instance : Named OptionFilter where
  all := [.all, .program, .invariant]
  name
    | .all => "all"
    | .program => "program"
    | .invariant => "invariant"
  mem_all a := by cases a <;> decide

/-- Whether an option varies. -/
def OptionFilter.accepts : OptionFilter → ShaderOption → Bool
  | .all, _ => true
  | .program, o => !o.invariant
  | .invariant, o => o.invariant

/-- The words in which the fields of some options take all their values and all other
bits are those of a fixed word. -/
structure VariantSpace where
  /-- The options that vary, from the lowest bit up. -/
  digits : List ShaderOption
  /-- The other bits. -/
  base : OptionWord
  deriving DecidableEq, Repr

namespace VariantSpace

/-- Puts an option in front of the first one whose field does not begin below its own. -/
def insertDigit (o : ShaderOption) : List ShaderOption → List ShaderOption
  | [] => [o]
  | d :: rest => if o.offset ≤ d.offset then o :: d :: rest else d :: insertDigit o rest

/-- The options in the order of their fields. -/
def sortDigits : List ShaderOption → List ShaderOption
  | [] => []
  | o :: rest => insertDigit o (sortDigits rest)

/-- The space in which the accepted options vary and the other bits are those of `base`. -/
def ofOptions (options : List ShaderOption) (filter : OptionFilter) (base : OptionWord) :
    VariantSpace :=
  let digits := sortDigits (options.filter filter.accepts)
  { digits, base := base.clear (digits.foldl (fun m o => m ||| o.mask) 0) }

/-- The number of combinations of values. -/
def sizeOf : List ShaderOption → Nat
  | [] => 1
  | o :: rest => o.valueCount * sizeOf rest

/-- The fields of combination number `i`; the lowest field changes fastest. -/
def fieldsOf : List ShaderOption → Nat → OptionWord
  | [], _ => 0
  | o :: rest, i =>
    .place (i % o.distinctCount) o.offset ||| fieldsOf rest (i / o.distinctCount)

/-- The number of words. -/
def size (s : VariantSpace) : Nat := sizeOf s.digits

/-- The word of number `i`. -/
def word (s : VariantSpace) (i : Nat) : OptionWord := fieldsOf s.digits i ||| s.base

/-- The words of all combinations, by their numbers. -/
def words (s : VariantSpace) : List OptionWord := (List.range s.size).map s.word

/-! ### The counter -/

/-- A step of the counter: the lowest field that is not at its last value grows by one,
and all bits below it are cleared.  After the last combination there is no step. -/
def advance (digits : List ShaderOption) (w : OptionWord) : Option OptionWord :=
  digits.findSome? fun o =>
    if o.field w + 1 < o.valueCount then
      some (w.clear (.mask 0 (o.offset + o.bitCount)) ||| .place (o.field w + 1) o.offset)
    else none

/-- What the counter shows in at most `n` steps from the given fields on. -/
def walk (s : VariantSpace) : Nat → Option OptionWord → List OptionWord
  | 0, _ => []
  | _ + 1, none => []
  | n + 1, some fields => (fields ||| s.base) :: s.walk n (advance s.digits fields)

/-- The first words that the counter shows, `n` of them unless it ends before. -/
def firstWords (s : VariantSpace) (n : Nat) : List OptionWord := s.walk n (some 0)

end VariantSpace

end ShaderVariants
