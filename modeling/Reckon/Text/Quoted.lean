import Reckon.Text.Showable

/-! Quoted texts and characters: what cannot be shown is written with a backslash. -/

namespace Reckon.Text

/-- A code point in hexadecimal, without leading zeros. -/
def codePointEscape (c : Char) : List Char :=
  "\\u\x7b".toList ++ Nat.toDigits 16 c.toNat ++ ['\x7d']

/-- How `c` is written between two marks `quote`. Only the mark in use is escaped. -/
def escapeChar (quote c : Char) : List Char :=
  if c = '\x00' then "\\0".toList
  else if c = '\t' then "\\t".toList
  else if c = '\n' then "\\n".toList
  else if c = '\r' then "\\r".toList
  else if c = '\x5c' ∨ c = quote then ['\x5c', c]
  else if isShowable c then [c]
  else codePointEscape c

def quoteString (s : String) : String :=
  String.ofList ('\x22' :: s.toList.flatMap (escapeChar '\x22') ++ ['\x22'])

def quoteChar (c : Char) : String :=
  String.ofList ('\x27' :: escapeChar '\x27' c ++ ['\x27'])

end Reckon.Text
