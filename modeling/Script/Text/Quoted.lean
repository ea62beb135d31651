/-
  Script/Text/Quoted.lean
  =======================
  **Text between quotes, with escapes.**

  Diagnostics and the detailed view of values show a text between quotes.  In
  ASCII, quotes and backslashes get a backslash; tab, line feed, carriage return
  and the null character have short escapes; any other control character is
  written by its code point in hexadecimal, and the rest is written as it is.

  Beyond ASCII, a character is written by its code point if it cannot be printed,
  or if it would join the one before it, as an accent does.  Which characters
  these are changes from one version of Unicode to the next, so the set of them
  is a parameter.
-/
namespace Script

/-- Which characters beyond ASCII are written by their code points: those that cannot
    be printed, and those that join the character before them. -/
class Escaping where
  escapes : Char → Bool

/-- Whether a character that has no short escape is written by its code point. -/
def byCodePoint [Escaping] (c : Char) : Bool :=
  if c.toNat < 0x80 then decide (c.toNat < 0x20 ∨ c.toNat = 0x7f) else Escaping.escapes c

/-- How one character is written between quotes. -/
def escapeChar [Escaping] (c : Char) : String :=
  if c = '"' then "\\\""
  else if c = '\\' then "\\\\"
  else if c = '\n' then "\\n"
  else if c = '\r' then "\\r"
  else if c = '\t' then "\\t"
  else if c = '\x00' then "\\0"
  else if byCodePoint c then "\\u\x7b" ++ String.ofList (Nat.toDigits 16 c.toNat) ++ "\x7d"
  else c.toString

/-- A text between quotes. -/
def quoted [Escaping] (text : String) : String :=
  "\"" ++ String.join (text.toList.map escapeChar) ++ "\""

end Script
