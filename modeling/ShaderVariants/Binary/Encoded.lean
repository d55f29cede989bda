import ShaderVariants.Binary.Word

/-!
# Writing stored bytes

Lengths are written in front of what they measure, in a fixed number of bits.  A value
that is too long for that cannot be written; the bytes before the length in question
have been written all the same.

## Main definitions

* `Encoded` — the bytes of a value up to the first length that does not fit.
* `Encoded.word`, `Encoded.count`, `Encoded.ofBytes` — the primitive writers.

## Main results

* `Encoded.append_assoc`, `Encoded.append_nil`, `Encoded.nil_append` — writing one value
  after the other is a monoid.
-/

namespace ShaderVariants

/-- The bytes of a value, up to the first length that does not fit its place. -/
structure Encoded where
  bytes : List UInt8
  /-- Whether every length fits. -/
  fits : Bool
  deriving DecidableEq, Repr

namespace Encoded

/-- Bytes that are written as they are. -/
def ofBytes (bytes : List UInt8) : Encoded := ⟨bytes, true⟩

/-- Nothing. -/
def nil : Encoded := ofBytes []

/-- A length that does not fit. -/
def tooLong : Encoded := ⟨[], false⟩

/-- One value after the other; nothing is written after a length that does not fit. -/
def append (a b : Encoded) : Encoded :=
  if a.fits then ⟨a.bytes ++ b.bytes, b.fits⟩ else a

instance : Append Encoded := ⟨append⟩

theorem append_def (a b : Encoded) :
    a ++ b = if a.fits then ⟨a.bytes ++ b.bytes, b.fits⟩ else a := rfl

@[simp] theorem fits_append (a b : Encoded) : (a ++ b).fits = (a.fits && b.fits) := by
  rw [append_def]
  cases h : a.fits <;> simp [h]

theorem bytes_append_of_fits {a : Encoded} (h : a.fits = true) (b : Encoded) :
    (a ++ b).bytes = a.bytes ++ b.bytes := by
  rw [append_def, h]
  rfl

@[simp] theorem nil_append (a : Encoded) : nil ++ a = a := rfl

@[simp] theorem append_nil (a : Encoded) : a ++ nil = a := by
  rw [append_def]
  cases a with
  | mk bytes fits => cases fits <;> simp [nil, ofBytes]

theorem append_assoc (a b c : Encoded) : a ++ b ++ c = a ++ (b ++ c) := by
  simp only [append_def]
  cases ha : a.fits <;> cases hb : b.fits <;> simp [ha, hb]

/-- A single byte. -/
def byte (b : UInt8) : Encoded := ofBytes [b]

/-- A word. -/
def word (n : Nat) : Encoded := if n < Word.limit then ofBytes (Word.bytes n) else tooLong

/-- A word whose highest bit is a sign. -/
def count (n : Nat) : Encoded := if n < Word.signedLimit then ofBytes (Word.bytes n) else tooLong

/-- One value after the other. -/
def concat {α : Type} (item : α → Encoded) : List α → Encoded
  | [] => nil
  | x :: xs => item x ++ concat item xs

end Encoded

end ShaderVariants
