/-!
# Options of a shader

An option has a name and either a list of named values or, if the list is empty, the
two values of a flag.  The values of all options of a shader are packed into one
*option word*, each option in a field of just enough bits, in order from the lowest
bit up.

## Main definitions

* `OptionInfo` — an option; `valueCount` and `bitCount` measure it.
* `OptionWord` — packed values; `OptionWord.field` reads one field, and `OptionWord.place`
  puts a value into one.
* `OptionInfo.fieldsFrom` — the options with the lowest bit of each field.
* `OptionWord.clear` — a word without the bits of a mask.
-/

namespace ShaderVariants

/-- The values of all options of a shader in one word of 32 bits. -/
abbrev OptionWord := Nat

/-- The bits needed to tell `count` values apart. -/
def bitsFor (count : Nat) : Nat := if count ≤ 1 then 0 else (count - 1).log2 + 1

namespace OptionWord

/-- The `bits` bits of `w` from `offset` on; there are none beyond the end of the word.  Only
fields that lie within the word are read like this by shifting words. -/
def field (w : OptionWord) (offset bits : Nat) : Nat := (w >>> offset) % (1 <<< bits)

/-- The number of bits of a word. -/
def width : Nat := 32

/-- The word with `value` in the field from `offset` on.  Bits that would lie beyond the
end of the word are lost. -/
def place (value offset : Nat) : OptionWord := (value <<< offset) % (1 <<< width)

/-- The word with `bits` set bits from `offset` on. -/
def mask (offset bits : Nat) : OptionWord := place ((1 <<< bits) - 1) offset

/-- The bits of `w` that are not in `mask`. -/
def clear (w mask : OptionWord) : OptionWord := w ^^^ (w &&& mask)

/-- A bit survives clearing exactly if it is not in the mask. -/
@[simp] theorem testBit_clear (w mask : OptionWord) (i : Nat) :
    (clear w mask).testBit i = (w.testBit i && !mask.testBit i) := by
  simp only [clear, Nat.testBit_xor, Nat.testBit_and]
  cases w.testBit i <;> cases mask.testBit i <;> rfl

end OptionWord

/-- A named choice between values; a flag if no values are named. -/
structure OptionInfo where
  name : String
  namedValues : List String := []
  deriving DecidableEq, Repr

namespace OptionInfo

/-- An option without named values is a flag. -/
def isFlag (o : OptionInfo) : Bool := o.namedValues.isEmpty

/-- The number of values: two for a flag. -/
def valueCount (o : OptionInfo) : Nat := if o.isFlag then 2 else o.namedValues.length

/-- The bits of the field that holds the option. -/
def bitCount (o : OptionInfo) : Nat := bitsFor o.valueCount

/-- The nearest value of the option that is not above `value`. -/
def clamp (o : OptionInfo) (value : Nat) : Nat := min value (o.valueCount - 1)

/-- The options, each with the lowest bit of its field; the first field starts at
`offset`. -/
def fieldsFrom : Nat → List OptionInfo → List (OptionInfo × Nat)
  | _, [] => []
  | offset, o :: rest => (o, offset) :: fieldsFrom (offset + o.bitCount) rest

end OptionInfo

end ShaderVariants
