/-!
# Where bytes stop being text

A character takes one to four bytes in UTF-8: a lead byte, which says how many
continuation bytes follow and which range the first of them is in, and those
continuation bytes.

## Main definitions

* `Utf8.lead` — what a lead byte asks for.
* `Utf8.Fault`, `Utf8.fault` — the first character that cannot be read, and how many
  bytes of it could be.
* `Utf8.decode` — the text that bytes stand for.
-/

namespace ShaderVariants

namespace Utf8

/-- The next byte must lie between `low` and `high`, and `more` continuation bytes
follow it. -/
structure Awaited where
  low : UInt8
  high : UInt8
  more : Nat
  deriving DecidableEq, Repr

/-- What a byte at the start of a character begins. -/
inductive Lead where
  /-- The byte is a character by itself. -/
  | single
  /-- More bytes are to follow. -/
  | multi (next : Awaited)
  /-- No character begins with the byte. -/
  | invalid
  deriving DecidableEq, Repr

/-- The part of a character that `b` begins.  The ranges keep out encodings that are
longer than necessary, surrogates, and everything above the last code point. -/
def lead (b : UInt8) : Lead :=
  if b ≤ 0x7F then .single
  else if 0xC2 ≤ b ∧ b ≤ 0xDF then .multi ⟨0x80, 0xBF, 0⟩
  else if b = 0xE0 then .multi ⟨0xA0, 0xBF, 1⟩
  else if b = 0xED then .multi ⟨0x80, 0x9F, 1⟩
  else if 0xE1 ≤ b ∧ b ≤ 0xEF then .multi ⟨0x80, 0xBF, 1⟩
  else if b = 0xF0 then .multi ⟨0x90, 0xBF, 2⟩
  else if 0xF1 ≤ b ∧ b ≤ 0xF3 then .multi ⟨0x80, 0xBF, 2⟩
  else if b = 0xF4 then .multi ⟨0x80, 0x8F, 2⟩
  else .invalid

/-- What is awaited after a byte that was awaited as `a`. -/
def Awaited.next (a : Awaited) : Option Awaited :=
  match a.more with
  | 0 => none
  | more + 1 => some ⟨0x80, 0xBF, more⟩

/-- A place where bytes are not text. -/
structure Fault where
  /-- The number of bytes before the character that cannot be read. -/
  index : Nat
  /-- The bytes of that character that could begin one, or `none` if the input ends
  within it. -/
  length : Option Nat
  deriving DecidableEq, Repr

/-- Reads on from the byte `start + seen`, where a character began at `start` and
awaits `next`, or begins if nothing is awaited. -/
def faultFrom : (start seen : Nat) → Option Awaited → List UInt8 → Fault
  | start, _, _, [] => ⟨start, none⟩
  | start, _, none, b :: rest =>
    match lead b with
    | .single => faultFrom (start + 1) 0 none rest
    | .multi next => faultFrom start 1 (some next) rest
    | .invalid => ⟨start, some 1⟩
  | start, seen, some a, b :: rest =>
    if a.low ≤ b ∧ b ≤ a.high then
      match a.next with
      | none => faultFrom (start + seen + 1) 0 none rest
      | some next => faultFrom start (seen + 1) (some next) rest
    else
      ⟨start, some seen⟩

/-- The place where reading `bytes` as text has to stop. -/
def fault (bytes : List UInt8) : Fault := faultFrom 0 0 none bytes

/-- The text that `bytes` stand for. -/
def decode (bytes : List UInt8) : Except Fault String :=
  match String.fromUTF8? ⟨bytes.toArray⟩ with
  | some s => .ok s
  | none => .error (fault bytes)

/-- The bytes of a text. -/
def encode (s : String) : List UInt8 := s.toUTF8.data.toList

/-- The place of a fault in words. -/
def Fault.message (f : Fault) : String :=
  match f.length with
  | some n =>
    "invalid utf-8 sequence of " ++ toString n ++ " bytes from index " ++ toString f.index
  | none => "incomplete utf-8 byte sequence from index " ++ toString f.index

end Utf8

end ShaderVariants
