import Mathlib
import ShaderVariants.Proofs.Binary.Truncation

/-!
# What was read

Whoever reads a value from any bytes knows these bytes, but for truth values: of those every
byte but zero reads as true, and is written as one.  So writing a value that was read gives
back as many bytes as were taken, and the same ones apart from truth values.

The bytes of a record are marked by what they are for.  The law follows the decoder: `front`
is what has been read before, and its marks.

## Main definitions

* `Decoder.Canonical` — a decoder that can only have read the encoding of what it gives.
* `ByteRole`, `Marked` — which bytes of a stored form are truth values.
* `MarkedEncoding.Rewrites` — an encoding is what becomes of the bytes that were taken.
* `Decoder.Normalizes` — what is read was written as its encoding, up to truth values.

## Main results

* `Decoder.Canonical.word`, `Decoder.Canonical.text` — numbers and texts are known exactly.
* `Decoder.Normalizes.bind`, `Decoder.Normalizes.times` — the law follows the decoder.
-/

namespace ShaderVariants

/-! ### What words were read from -/

namespace Word

/-- Four bytes are those of the word they stand for. -/
theorem bytes_ofBytes (a b c d : UInt8) : bytes (ofBytes a b c d) = [a, b, c, d] := by
  have ha := a.toNat_lt
  have hb := b.toNat_lt
  have hc := c.toNat_lt
  have hd := d.toNat_lt
  simp only [bytes, ofBytes, List.cons.injEq, and_true, ← UInt8.toNat_inj, UInt8.toNat_ofNat']
  omega

theorem ofBytes_lt (a b c d : UInt8) : ofBytes a b c d < limit := by
  have ha := a.toNat_lt
  have hb := b.toNat_lt
  have hc := c.toNat_lt
  have hd := d.toNat_lt
  unfold ofBytes limit
  omega

end Word

/-- The text that bytes stand for has these bytes. -/
theorem Utf8.encode_of_decode {bytes : List UInt8} {s : String} (h : decode bytes = .ok s) :
    encode s = bytes := by
  unfold decode String.fromUTF8? at h
  split at h
  · next s' hs =>
    obtain rfl := Except.ok.inj h
    split_ifs at hs
    obtain rfl := Option.some.inj hs
    rfl
  · cases h

namespace Decoder

/-- If one decoder after the other succeeds, the second goes on where the first one stops. -/
theorem exists_of_run_bind {α β : Type} {d : Decoder α} {f : α → Decoder β}
    {input rest : List UInt8} {b : β} (h : (d >>= f) input = .ok (b, rest)) :
    ∃ a middle, d input = .ok (a, middle) ∧ f a middle = .ok (b, rest) := by
  cases hd : d input with
  | error e =>
    rw [run_bind_error hd] at h
    cases h
  | ok p =>
    rw [run_bind hd] at h
    exact ⟨p.1, p.2, rfl, h⟩

theorem exists_of_run_map {α β : Type} {d : Decoder α} {f : α → β} {input rest : List UInt8}
    {b : β} (h : (f <$> d) input = .ok (b, rest)) : ∃ a, d input = .ok (a, rest) ∧ f a = b := by
  rw [← bind_pure_comp] at h
  obtain ⟨a, middle, hd, hpure⟩ := exists_of_run_bind h
  cases hpure
  exact ⟨a, hd, rfl⟩

/-- What the decoder takes off the front of an input is the encoding of what it gives. -/
def Canonical {α : Type} (d : Decoder α) (encodeItem : α → Encoded) : Prop :=
  ∀ {input rest : List UInt8} {a : α}, d input = .ok (a, rest) →
    (encodeItem a).fits = true ∧ input = (encodeItem a).bytes ++ rest

namespace Canonical

theorem byte : Canonical Decoder.byte Encoded.byte := by
  intro input rest b h
  cases input with
  | nil => cases h
  | cons b' bytes =>
    cases h
    exact ⟨rfl, rfl⟩

theorem word : Canonical Decoder.word Encoded.word := by
  intro input rest n h
  match input, h with
  | a :: b :: c :: d :: input, h =>
    cases h
    have hword : Encoded.word (Word.ofBytes a b c d) = .ofBytes [a, b, c, d] := by
      rw [Encoded.word, if_pos (Word.ofBytes_lt a b c d), Word.bytes_ofBytes]
    rw [hword]
    exact ⟨rfl, rfl⟩

/-- A word without a sign is written like any other word. -/
theorem count : Canonical Decoder.count Encoded.count := by
  intro input rest n h
  obtain ⟨n', middle, hword, h⟩ := exists_of_run_bind h
  split_ifs at h with hsign
  · cases h
    obtain ⟨-, rfl⟩ := word hword
    rw [Encoded.count, if_pos hsign, Encoded.word, if_pos (hsign.trans (by decide))]
    exact ⟨rfl, rfl⟩
  · cases h

theorem take {n : ℕ} {input rest bytes : List UInt8}
    (h : Decoder.take n input = .ok (bytes, rest)) : bytes.length = n ∧ input = bytes ++ rest := by
  simp only [Decoder.take] at h
  split_ifs at h with hlength
  cases h
  exact ⟨hlength, (List.take_append_drop n input).symm⟩

/-- Items in a row were read from their encodings in a row, and are as many as asked for. -/
theorem times {α : Type} {item : Decoder α} {encodeItem : α → Encoded}
    (h : Canonical item encodeItem) : ∀ (n : ℕ) {input rest : List UInt8} {xs : List α},
    Decoder.times item n input = .ok (xs, rest) → xs.length = n ∧
      (Encoded.concat encodeItem xs).fits = true ∧
      input = (Encoded.concat encodeItem xs).bytes ++ rest := by
  intro n
  induction n with
  | zero =>
    intro input rest xs hrun
    cases hrun
    exact ⟨rfl, rfl, rfl⟩
  | succ n ih =>
    intro input rest xs hrun
    obtain ⟨x, middle, hx, hrun⟩ := exists_of_run_bind hrun
    obtain ⟨more, rest', hmore, hrun⟩ := exists_of_run_bind hrun
    cases hrun
    obtain ⟨hfits, rfl⟩ := h hx
    obtain ⟨hlength, hfits', rfl⟩ := ih hmore
    rw [Encoded.concat, Encoded.fits_append, hfits, hfits', Encoded.bytes_append_of_fits hfits,
      List.append_assoc, List.length_cons, hlength]
    exact ⟨rfl, rfl, rfl⟩

theorem text : Canonical (decode : Decoder String) encode := by
  intro input rest s h
  obtain ⟨n, middle, hword, htext⟩ := exists_of_run_bind h
  obtain ⟨bytes, rest', htake, hdecode⟩ := exists_of_run_bind htext
  obtain ⟨hfits, rfl⟩ := word hword
  obtain ⟨rfl, rfl⟩ := take htake
  cases hs : Utf8.decode bytes with
  | error fault =>
    rw [hs] at hdecode
    cases hdecode
  | ok s' =>
    rw [hs] at hdecode
    cases hdecode
    change (Encoded.word (Utf8.encode s).length ++ Encoded.ofBytes (Utf8.encode s)).fits = true ∧
      _ = (Encoded.word (Utf8.encode s).length ++ Encoded.ofBytes (Utf8.encode s)).bytes ++ rest
    rw [Utf8.encode_of_decode hs, Encoded.fits_append, hfits, Encoded.bytes_append_of_fits hfits,
      List.append_assoc]
    exact ⟨rfl, rfl⟩

theorem word32 : Canonical (decode : Decoder UInt32) encode := by
  intro input rest w h
  obtain ⟨n, hword, rfl⟩ := exists_of_run_map h
  obtain ⟨hfits, rfl⟩ := word hword
  have hn : (UInt32.ofNat n).toNat = n := by
    rw [UInt32.toNat_ofNat']
    exact Nat.mod_eq_of_lt (fits_word_iff.mp hfits)
  change (Encoded.word (UInt32.ofNat n).toNat).fits = true ∧
    _ = (Encoded.word (UInt32.ofNat n).toNat).bytes ++ rest
  rw [hn]
  exact ⟨hfits, rfl⟩

theorem coded {α : Type} [DecidableEq α] [Coded α] : Canonical (decode : Decoder α) encode := by
  intro input rest a h
  obtain ⟨b, middle, hbyte, hcode⟩ := exists_of_run_bind h
  obtain ⟨-, rfl⟩ := byte hbyte
  cases ha : (Coded.ofCode? b : Option α) with
  | none =>
    rw [ha] at hcode
    cases hcode
  | some a' =>
    rw [ha] at hcode
    cases hcode
    refine ⟨rfl, ?_⟩
    change _ = (Encoded.byte (Coded.code a)).bytes ++ rest
    rw [Coded.code_of_ofCode? ha]

end Canonical

end Decoder

/-! ### What bytes are for -/

/-- What a stored byte is for. -/
inductive ByteRole where
  /-- A part of a number, a text or a code. -/
  | plain
  /-- A truth value, or whether an optional value is there. -/
  | flag
  deriving DecidableEq, Repr

/-- The byte that is written if the byte `b` was read. -/
def ByteRole.rewritten : ByteRole → UInt8 → UInt8
  | .plain, b => b
  | .flag, b => if b = 0 then 0 else 1

/-- A type that says of each byte of a stored value what it is for. -/
class Marked (α : Type) where
  roles : α → List ByteRole

export Marked (roles)

/-- An encoding, and what each of its bytes is for. -/
structure MarkedEncoding where
  encoded : Encoded
  roles : List ByteRole

/-- The stored form of a value, and what each byte of it is for. -/
def marked {α : Type} [Stored α] [Marked α] (a : α) : MarkedEncoding := ⟨encode a, roles a⟩

namespace MarkedEncoding

/-- Nothing. -/
def nil : MarkedEncoding := ⟨.nil, []⟩

/-- One encoding behind the other. -/
def append (m m' : MarkedEncoding) : MarkedEncoding :=
  ⟨m.encoded ++ m'.encoded, m.roles ++ m'.roles⟩

instance : Append MarkedEncoding := ⟨append⟩

/-- An encoding without truth values. -/
def plain (e : Encoded) : MarkedEncoding := ⟨e, .replicate e.bytes.length .plain⟩

/-- Encodings in a row. -/
def concat {α : Type} (form : α → MarkedEncoding) : List α → MarkedEncoding
  | [] => nil
  | x :: xs => form x ++ concat form xs

theorem append_def (m m' : MarkedEncoding) :
    m ++ m' = ⟨m.encoded ++ m'.encoded, m.roles ++ m'.roles⟩ := rfl

@[simp] theorem nil_append (m : MarkedEncoding) : nil ++ m = m := rfl

@[simp] theorem append_nil (m : MarkedEncoding) : m ++ nil = m := by
  rw [append_def, nil, Encoded.append_nil, List.append_nil]

theorem append_assoc (m m' m'' : MarkedEncoding) : m ++ m' ++ m'' = m ++ (m' ++ m'') := by
  simp only [append_def, Encoded.append_assoc, List.append_assoc]

/-- The marks of items in a row are those of the items. -/
theorem concat_mk {α : Type} (encodeItem : α → Encoded) (rolesOf : α → List ByteRole)
    (xs : List α) : concat (fun x => ⟨encodeItem x, rolesOf x⟩) xs =
      ⟨.concat encodeItem xs, xs.flatMap rolesOf⟩ := by
  induction xs with
  | nil => rfl
  | cons x rest ih =>
    rw [concat, ih]
    rfl

/-- The encoding is what becomes of the bytes if truth values are written as zero or one. -/
structure Rewrites (m : MarkedEncoding) (taken : List UInt8) : Prop where
  fits : m.encoded.fits = true
  length : m.roles.length = taken.length
  bytes : m.encoded.bytes = List.zipWith ByteRole.rewritten m.roles taken

namespace Rewrites

variable {m m' : MarkedEncoding} {taken taken' : List UInt8}

theorem nil : Rewrites nil [] := ⟨rfl, rfl, rfl⟩

theorem append (h : m.Rewrites taken) (h' : m'.Rewrites taken') :
    (m ++ m').Rewrites (taken ++ taken') where
  fits := by
    rw [append_def, Encoded.fits_append, h.fits, h'.fits]
    rfl
  length := by rw [append_def, List.length_append, List.length_append, h.length, h'.length]
  bytes := by
    rw [append_def, Encoded.bytes_append_of_fits h.fits, List.zipWith_append h.length, h.bytes,
      h'.bytes]

/-- Without truth values, the bytes are those of the encoding. -/
theorem plain {e : Encoded} (h : e.fits = true) : Rewrites (.plain e) e.bytes where
  fits := h
  length := List.length_replicate
  bytes := by
    refine List.ext_getElem (by simp [MarkedEncoding.plain]) fun i hi hi' => ?_
    simp [MarkedEncoding.plain, ByteRole.rewritten]

/-- There are as many bytes as were taken. -/
theorem length_bytes (h : m.Rewrites taken) : m.encoded.bytes.length = taken.length := by
  rw [h.bytes, List.length_zipWith, h.length, min_self]

/-- Each byte is written as its role demands. -/
theorem getElem?_bytes (h : m.Rewrites taken) {i : ℕ} {role : ByteRole} {b : UInt8}
    (hrole : m.roles[i]? = some role) (hb : taken[i]? = some b) :
    m.encoded.bytes[i]? = some (role.rewritten b) := by
  rw [h.bytes, List.getElem?_zipWith, hrole, hb]

end Rewrites

end MarkedEncoding

open MarkedEncoding (Rewrites)

namespace Decoder

/-! ### Following the monad -/

/-- What the decoder takes off the front of an input would be written as an encoding with the
property, up to truth values.  The front is what was read before. -/
def Normalizes {α : Type} (front : MarkedEncoding) (d : Decoder α)
    (Q : α → MarkedEncoding → Prop) : Prop :=
  ∀ (input rest : List UInt8) (a : α), d input = .ok (a, rest) →
    ∃ taken m, input = taken ++ rest ∧ m.Rewrites taken ∧ Q a (front ++ m)

namespace Normalizes

variable {α β : Type} {front : MarkedEncoding} {d : Decoder α}
  {P Q : α → MarkedEncoding → Prop} {R : β → MarkedEncoding → Prop}

theorem pure {a : α} (h : Q a front) : Normalizes front (Pure.pure a : Decoder α) Q := by
  intro input rest a' hrun
  cases hrun
  exact ⟨[], .nil, rfl, .nil, by rwa [MarkedEncoding.append_nil]⟩

theorem fail (e : DecodeError) : Normalizes front (Decoder.fail e : Decoder α) Q := by
  intro input rest a hrun
  cases hrun

/-- The second decoder goes on behind what the first one has read. -/
theorem bind {f : α → Decoder β} (h : Normalizes .nil d P)
    (hf : ∀ a m, P a m → Normalizes (front ++ m) (f a) R) : Normalizes front (d >>= f) R := by
  intro input rest b hrun
  obtain ⟨a, middle, hd, hnext⟩ := exists_of_run_bind hrun
  obtain ⟨taken, m, rfl, hm, hP⟩ := h _ _ _ hd
  obtain ⟨taken', m', rfl, hm', hR⟩ := hf a m hP _ _ _ hnext
  refine ⟨taken ++ taken', m ++ m', (List.append_assoc _ _ _).symm, hm.append hm', ?_⟩
  rwa [← MarkedEncoding.append_assoc]

/-- What was read before does not matter. -/
theorem behind (h : Normalizes .nil d P) (hPQ : ∀ a m, P a m → Q a (front ++ m)) :
    Normalizes front d Q := by
  intro input rest a hrun
  obtain ⟨taken, m, hinput, hm, hP⟩ := h input rest a hrun
  exact ⟨taken, m, hinput, hm, hPQ _ _ hP⟩

theorem map {g : α → β} (h : Normalizes front d fun a m => R (g a) m) :
    Normalizes front (g <$> d) R := by
  intro input rest b hrun
  obtain ⟨a, hd, rfl⟩ := exists_of_run_map hrun
  exact h input rest a hd

/-- A decoder that is canonical takes the bytes of the encoding. -/
theorem of_canonical {encodeItem : α → Encoded} (h : Canonical d encodeItem) :
    Normalizes .nil d fun a m => m = .plain (encodeItem a) := by
  intro input rest a hrun
  obtain ⟨hfits, hinput⟩ := h hrun
  exact ⟨_, _, hinput, .plain hfits, rfl⟩

/-- Items in a row are as many as asked for, each behind the others. -/
theorem times {form : α → MarkedEncoding} (h : Normalizes .nil d fun a m => m = form a) :
    ∀ n : ℕ, Normalizes .nil (Decoder.times d n) fun xs m =>
      xs.length = n ∧ m = .concat form xs := by
  intro n
  induction n with
  | zero => exact .pure ⟨rfl, rfl⟩
  | succ n ih =>
    refine h.bind ?_
    rintro x _ rfl
    refine ih.bind ?_
    rintro xs _ ⟨rfl, rfl⟩
    exact .pure ⟨rfl, rfl⟩

end Normalizes

end Decoder

end ShaderVariants
