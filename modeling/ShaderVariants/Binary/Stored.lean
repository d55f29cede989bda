import ShaderVariants.Binary.Decoder
import ShaderVariants.Binary.Encoded
import ShaderVariants.Coded

/-!
# Values with a stored form

A stored form is a way to write a value and a way to read it.

## Main definitions

* `Stored α` — the stored form of `α`.
* Stored forms of bytes, words, truth values, texts, optional values and lists, and of
  every type whose members are one byte.
* `Encoded.blob`, `Decoder.blob` — bytes behind a signed length.
-/

namespace ShaderVariants

/-- A way to write values of `α` and to read them. -/
class Stored (α : Type) where
  encode : α → Encoded
  decode : Decoder α

export Stored (encode decode)

instance : Stored UInt8 where
  encode := Encoded.byte
  decode := Decoder.byte

/-- Natural numbers are stored in 32 bits. -/
instance : Stored Nat where
  encode := Encoded.word
  decode := Decoder.word

instance : Stored UInt32 where
  encode w := Encoded.word w.toNat
  decode := UInt32.ofNat <$> Decoder.word

/-- Any byte but zero reads as true. -/
instance : Stored Bool where
  encode b := Encoded.byte (if b then 1 else 0)
  decode := (· != 0) <$> Decoder.byte

/-- A text is its bytes behind their number. -/
instance : Stored String where
  encode s := Encoded.word (Utf8.encode s).length ++ Encoded.ofBytes (Utf8.encode s)
  decode := do
    let bytes ← Decoder.take (← Decoder.word)
    match Utf8.decode bytes with
    | .ok s => pure s
    | .error fault => Decoder.fail (.notText fault)

/-- A list is its items behind their number. -/
instance {α : Type} [Stored α] : Stored (List α) where
  encode xs := Encoded.word xs.length ++ Encoded.concat encode xs
  decode := do Decoder.times decode (← Decoder.word)

/-- An optional value is a truth value, and the value if there is one. -/
instance {α : Type} [Stored α] : Stored (Option α) where
  encode
    | none => encode false
    | some x => encode true ++ encode x
  decode := do
    let present : Bool ← decode
    if present then
      some <$> decode
    else
      pure none

instance {α : Type} [DecidableEq α] [Coded α] : Stored α where
  encode a := Encoded.byte (Coded.code a)
  decode := do
    let b ← Decoder.byte
    match Coded.ofCode? b with
    | some a => pure a
    | none => Decoder.fail (.unknownCode (Coded.kind α) b)

/-- Bytes behind their number as a signed word. -/
def Encoded.blob (bytes : List UInt8) : Encoded := count bytes.length ++ ofBytes bytes

/-- Bytes behind their number as a signed word. -/
def Decoder.blob : Decoder (List UInt8) := do take (← count)

end ShaderVariants
