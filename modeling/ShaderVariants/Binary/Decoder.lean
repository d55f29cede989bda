import ShaderVariants.Binary.Word
import ShaderVariants.Text.Hex
import ShaderVariants.Text.Utf8

/-!
# Reading stored bytes

A decoder takes a value off the front of the unread bytes, or fails with the reason.
All numbers are little-endian.

## Main definitions

* `DecodeError` — the reasons, and `DecodeError.causes` for their wording.
* `Decoder` — a reader of one value.
* `Decoder.byte`, `Decoder.word`, `Decoder.count`, `Decoder.take` — the primitive readers.
-/

namespace ShaderVariants

/-- Why bytes are not what they should be. -/
inductive DecodeError where
  /-- The file does not begin like a shader set. -/
  | badMagic (found : Nat)
  | unsupportedVersion (found : Nat)
  /-- A byte stands for no member of the type `kind`. -/
  | unknownCode (kind : String) (value : UInt8)
  | notText (fault : Utf8.Fault)
  /-- The variants announced for the shaders are not as many as announced in total. -/
  | variantCountMismatch (declared total : Nat)
  /-- The input ends within a number. -/
  | endInNumber
  /-- The input ends within text or program bytes. -/
  | endInBytes
  /-- A length or size is negative. -/
  | negativeCount
  deriving DecidableEq, Repr

/-- The reason in words, followed by the reasons behind it. -/
def DecodeError.causes : DecodeError → List String
  | .badMagic found => ["invalid magic value 0x" ++ hexWord found ++ " for shader set file"]
  | .unsupportedVersion found => ["unsupported shader set version " ++ toString found]
  | .unknownCode kind value => ["invalid " ++ kind ++ " value " ++ toString value.toNat]
  | .notText fault => ["string is not valid UTF-8", fault.message]
  | .variantCountMismatch declared total =>
    ["shader variant counts sum to " ++ toString declared ++ ", header declares " ++
      toString total]
  | .endInNumber => ["failed to fill whole buffer"]
  | .endInBytes => ["unexpected end of file"]
  | .negativeCount => ["number too small to fit in target type"]

/-- Reads a value from the front of the unread bytes and leaves the rest. -/
abbrev Decoder (α : Type) := StateT (List UInt8) (Except DecodeError) α

namespace Decoder

/-- Fails with a reason. -/
def fail {α : Type} (e : DecodeError) : Decoder α := fun _ => .error e

/-- A single byte. -/
def byte : Decoder UInt8
  | [] => .error .endInNumber
  | b :: rest => .ok (b, rest)

/-- A word. -/
def word : Decoder Nat
  | a :: b :: c :: d :: rest => .ok (Word.ofBytes a b c d, rest)
  | _ => .error .endInNumber

/-- A word whose highest bit is a sign, which must not be set. -/
def count : Decoder Nat := do
  let n ← word
  if n < Word.signedLimit then pure n else fail .negativeCount

/-- The next `n` bytes. -/
def take (n : Nat) : Decoder (List UInt8) := fun bytes =>
  let taken := bytes.take n
  if taken.length = n then .ok (taken, bytes.drop n) else .error .endInBytes

/-- One value after the other, `n` of them. -/
def times {α : Type} (item : Decoder α) : Nat → Decoder (List α)
  | 0 => pure []
  | n + 1 => do
    let x ← item
    let xs ← times item n
    pure (x :: xs)

end Decoder

end ShaderVariants
