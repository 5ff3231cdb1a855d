import TapeLang.Text.Printable
import TapeLang.Text.Utf8

/-!
# Quoted text

Messages show names and operands between double quotes, and characters between single quotes, with
escapes for what could not be seen otherwise. Stray bytes are escaped one by one, so that a quoted
text is always valid UTF-8.

* `quoted`: a text between quotes.
* `quotedChar`: a character between quotes.
-/

namespace TapeLang.Text

/-- The letter of a one-letter escape. -/
def shortEscape? (c : Char) : Option Char :=
  match c.toNat with
  | 0x07 => some 'a'
  | 0x08 => some 'b'
  | 0x09 => some 't'
  | 0x0A => some 'n'
  | 0x0B => some 'v'
  | 0x0C => some 'f'
  | 0x0D => some 'r'
  | 0x5C => some '\\'
  | _ => none

/-- A rune as it is shown between quotes. -/
def Rune.quoted (quote : Char) : Rune → Bytes
  | .stray b => utf8 "\\x" ++ paddedHex 2 b.toNat
  | .char c =>
    match shortEscape? c with
    | some letter => utf8 "\\" ++ [ascii letter]
    | none =>
      if c = quote then utf8 "\\" ++ [ascii quote]
      else if isPrintable c then String.utf8EncodeChar c
      else if c.toNat < 0x20 || c.toNat = 0x7F then utf8 "\\x" ++ paddedHex 2 c.toNat
      else if c.toNat < 0x10000 then utf8 "\\u" ++ paddedHex 4 c.toNat
      else utf8 "\\U" ++ paddedHex 8 c.toNat

/-- A text between double quotes, with escapes. -/
def quoted (text : Bytes) : Bytes :=
  [ascii '"'] ++ (runes text).flatMap (Rune.quoted '"') ++ [ascii '"']

/-- A character between single quotes, with escapes. -/
def quotedChar (c : Char) : Bytes :=
  [ascii '\''] ++ Rune.quoted '\'' (.char c) ++ [ascii '\'']

end TapeLang.Text
