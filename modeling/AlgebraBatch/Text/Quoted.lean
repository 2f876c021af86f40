import AlgebraBatch.Text.Printable

/-!
# Quoted text in messages

Messages show a text between quotes: single quotes, unless the text has a single quote and no double
quote. The backslash and the quote in use are escaped, line feed, carriage return and tab have short
escapes, and every other unprintable character is written by its code point.
-/

namespace AlgebraBatch.Text

/-- Lower-case hexadecimal digits of `n`, at least `width` of them. -/
def hexDigits (width n : Nat) : String :=
  let ds := String.ofList (Nat.toDigits 16 n)
  String.ofList (List.replicate (width - ds.length) '0') ++ ds

/-- The code point of an unprintable character, in the shortest of three widths. -/
def escapeCodePoint (c : Char) : String :=
  let n := c.toNat
  if n < 0x100 then "\\x" ++ hexDigits 2 n
  else if n < 0x10000 then "\\u" ++ hexDigits 4 n
  else "\\U" ++ hexDigits 8 n

def escapeIn (quote c : Char) : String :=
  if c == quote || c == '\\' then String.ofList ['\\', c]
  else if c == '\n' then "\\n"
  else if c == '\r' then "\\r"
  else if c == '\t' then "\\t"
  else if isPrintable c then c.toString
  else escapeCodePoint c

def quoteFor (text : String) : Char :=
  if text.toList.contains '\'' && !text.toList.contains '"' then '"' else '\''

/-- The text between quotes, with escapes. -/
def quoted (text : String) : String :=
  let quote := quoteFor text
  quote.toString ++ String.join (text.toList.map (escapeIn quote)) ++ quote.toString

end AlgebraBatch.Text
