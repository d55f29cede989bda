import ShaderVariants.Text.Utf8

/-!
# Checksums

A shader source is identified by the CRC-32 of its bytes, the remainder of a polynomial
division with the lowest bit of each byte first.

## Main definitions

* `crc32` — the checksum of bytes; `sourceChecksum` that of a text.
-/

namespace ShaderVariants

/-- The divisor, without its leading bit and with the lowest bit first. -/
def crcPolynomial : UInt32 := 0xEDB88320

/-- One step of the division. -/
def crcBit (r : UInt32) : UInt32 :=
  if r &&& 1 = 1 then (r >>> 1) ^^^ crcPolynomial else r >>> 1

/-- Eight steps of the division, for one byte. -/
def crcByte (r : UInt32) (b : UInt8) : UInt32 :=
  Nat.repeat crcBit 8 (r ^^^ b.toUInt32)

/-- The checksum of bytes. -/
def crc32 (bytes : List UInt8) : UInt32 := bytes.foldl crcByte 0xFFFFFFFF ^^^ 0xFFFFFFFF

/-- The checksum of a text. -/
def sourceChecksum (source : String) : UInt32 := crc32 (Utf8.encode source)

end ShaderVariants
