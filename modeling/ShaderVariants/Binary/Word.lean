/-!
# Words of 32 bits

A word is stored in four bytes, the lowest one first.

What is computed from words need not be a word.  A build with overflow checks stops there;
without them the result keeps its lowest 32 bits.

## Main definitions

* `Word.limit`, `Word.signedLimit` — which numbers are words, and which of them are not
  negative if the highest bit is a sign.
* `Word.bytes`, `Word.ofBytes` — the bytes of a word and back.
* `Overflow` — the two kinds of builds, and `Overflow.below` — what they compute with.

## Main results

* `Word.ofBytes_bytes` — the bytes of a word give the word.
* `Overflow.below_of_lt`, `Overflow.lt_of_below` — a number in range is kept, and nothing out
  of range is ever given.
-/

namespace ShaderVariants

namespace Word

/-- Words are the numbers below this one. -/
def limit : Nat := 0x100000000

/-- The words below this one do not have their highest bit set. -/
def signedLimit : Nat := 0x80000000

/-- The four bytes of a word. -/
def bytes (n : Nat) : List UInt8 :=
  [.ofNat n, .ofNat (n / 256), .ofNat (n / 256 / 256), .ofNat (n / 256 / 256 / 256)]

/-- The word that four bytes stand for. -/
def ofBytes (a b c d : UInt8) : Nat :=
  a.toNat + 256 * (b.toNat + 256 * (c.toNat + 256 * d.toNat))

@[simp] theorem length_bytes (n : Nat) : (bytes n).length = 4 := rfl

/-- The bytes of a word give the word. -/
theorem ofBytes_bytes {n : Nat} (h : n < limit) :
    ofBytes (.ofNat n) (.ofNat (n / 256)) (.ofNat (n / 256 / 256))
      (.ofNat (n / 256 / 256 / 256)) = n := by
  simp only [ofBytes, UInt8.toNat_ofNat', limit] at h ⊢
  omega

end Word

/-! ### Results that are no words -/

/-- Why a computation with words has no result. -/
inductive WordError where
  | divisionByZero
  | sumTooLarge
  | productTooLarge
  | leftShiftTooFar
  | rightShiftTooFar
  deriving DecidableEq, Repr

/-- The reason in words. -/
def WordError.message : WordError → String
  | .divisionByZero => "attempt to divide by zero"
  | .sumTooLarge => "attempt to add with overflow"
  | .productTooLarge => "attempt to multiply with overflow"
  | .leftShiftTooFar => "attempt to shift left with overflow"
  | .rightShiftTooFar => "attempt to shift right with overflow"

/-- What becomes of a result that is out of range. -/
inductive Overflow where
  /-- There is none. -/
  | refused
  /-- It keeps its lowest bits. -/
  | wrapped
  deriving DecidableEq, Repr

namespace Overflow

/-- The number that is computed with: a sum or product of words is a word, and a word is
shifted by less than its width. -/
def below (o : Overflow) (limit : Nat) (e : WordError) (n : Nat) : Except WordError Nat :=
  if n < limit then .ok n
  else match o with
    | .refused => .error e
    | .wrapped => .ok (n % limit)

variable {o : Overflow} {limit n m : Nat} {e : WordError}

theorem below_of_lt (h : n < limit) : o.below limit e n = .ok n := if_pos h

theorem lt_of_below (hlimit : 0 < limit) (h : o.below limit e n = .ok m) : m < limit := by
  unfold below at h
  split at h
  · next hn => exact Except.ok.inj h ▸ hn
  · cases o with
    | refused => cases h
    | wrapped => exact Except.ok.inj h ▸ Nat.mod_lt n hlimit

/-- With overflow checks there is the exact result or none. -/
theorem eq_of_below_refused (h : refused.below limit e n = .ok m) : n < limit ∧ m = n := by
  unfold below at h
  split at h
  · next hn => exact ⟨hn, (Except.ok.inj h).symm⟩
  · cases h

/-- Without overflow checks there always is a result. -/
theorem exists_below_iff : (∃ m, o.below limit e n = .ok m) ↔ o = .wrapped ∨ n < limit := by
  unfold below
  split
  · next hn => exact iff_of_true ⟨n, rfl⟩ (.inr hn)
  · next hn => cases o <;> simp [hn]

theorem eq_of_below_error {e' : WordError} (h : o.below limit e n = .error e') : e' = e := by
  unfold below at h
  split at h
  · cases h
  · cases o with
    | refused => exact (Except.error.inj h).symm
    | wrapped => cases h

end Overflow

end ShaderVariants
