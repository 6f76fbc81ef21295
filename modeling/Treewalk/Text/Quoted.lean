import Treewalk.Text.Mark
import Treewalk.Text.Unprintable

/-!
# Quoted texts

A text is quoted between double quotes, a character between single quotes. The quote in use and the
backslash are escaped, controls have short names, and what has no visible form of its own is given
by its code point.
-/

namespace Treewalk.Text

set_option autoImplicit false

def codePoint (char : Char) : String :=
  "\\u\x7b" ++ String.ofList (Nat.toDigits 16 char.toNat) ++ "\x7d"

def escaped (quote : Char) (char : Char) : String :=
  if char = '\x00' then "\\0"
  else if char = '\t' then "\\t"
  else if char = '\r' then "\\r"
  else if char = '\n' then "\\n"
  else if char = '\\' || char = quote then String.ofList ['\\', char]
  else if char.toNat < 0x7f && 0x20 ≤ char.toNat then String.singleton char
  else if isMark char || isUnprintable char then codePoint char
  else String.singleton char

def quoted (text : String) : String :=
  "\"" ++ String.join (text.toList.map (escaped '"')) ++ "\""

def quotedChar (char : Char) : String :=
  "'" ++ escaped '\'' char ++ "'"

end Treewalk.Text
