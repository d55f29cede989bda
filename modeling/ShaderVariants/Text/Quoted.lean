import ShaderVariants.Text.Hex
import ShaderVariants.Text.Printable

/-!
# Quoted text

A text in a message stands between double quotes.  Quotes and backslashes get a
backslash, line breaks and the like a letter of their own, and every other character that
is not printable its number.

## Main definitions

* `quoted` — a text between quotes.
-/

namespace ShaderVariants

/-- How a character is written between quotes. -/
def escapeChar (c : Char) : List Char :=
  if c = '"' then ['\\', '"']
  else if c = '\\' then ['\\', '\\']
  else if c = '\n' then ['\\', 'n']
  else if c = '\r' then ['\\', 'r']
  else if c = '\t' then ['\\', 't']
  else if c = '\x00' then ['\\', '0']
  else if isPrintable c then [c]
  else ['\\', 'u', '\x7b'] ++ hexDigits (hexLength c.toNat) c.toNat ++ ['\x7d']

/-- A text between double quotes. -/
def quoted (s : String) : String :=
  "\"" ++ String.ofList (s.toList.flatMap escapeChar) ++ "\""

end ShaderVariants
