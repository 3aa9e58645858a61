import ConfigVault.Text.Extending
import ConfigVault.Text.Unprintable

/-!
# Escaped strings

How messages quote a string, so that a reader sees each of its characters and where it ends.  A
quote, a backslash, the common control characters and NUL have short escapes; whatever does not
print, or would be drawn into the character before it, is written by its number.
-/

namespace ConfigVault.Text

/-- The digits of a number in hexadecimal, in lower case. -/
def hexadecimal (n : Nat) : List Char := Nat.toDigits 16 n

/-- A character by its number. -/
def numericEscape (c : Char) : List Char :=
  '\\' :: 'u' :: '\x7b' :: (hexadecimal c.toNat ++ ['\x7d'])

/-- How a character is written between quotes. -/
def escapeChar (c : Char) : List Char :=
  if c = '\x00' then ['\\', '0']
  else if c = '\t' then ['\\', 't']
  else if c = '\r' then ['\\', 'r']
  else if c = '\n' then ['\\', 'n']
  else if c = '"' then ['\\', '"']
  else if c = '\\' then ['\\', '\\']
  else if isExtending c || isUnprintable c then numericEscape c
  else [c]

/-- The characters of a string, escaped, without quotes. -/
def escapeChars (cs : List Char) : List Char :=
  cs.flatMap escapeChar

/-- A string in quotes, with its characters escaped. -/
def quote (s : String) : String :=
  String.ofList ('"' :: (escapeChars s.toList ++ ['"']))

end ConfigVault.Text
