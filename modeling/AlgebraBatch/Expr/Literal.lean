/-!
# String literals

A text stands in the engine's language between double quotes, with a backslash before each
backslash and each double quote. `unescape` takes the backslashes out again; it reads every
character after a backslash as itself, and a backslash at the very end stays.
-/

namespace AlgebraBatch.Literal

def escape : List Char → List Char
  | [] => []
  | c :: cs => if c == '\\' || c == '"' then '\\' :: c :: escape cs else c :: escape cs

/-- The literal of a text. -/
def quote (cs : List Char) : List Char :=
  '"' :: (escape cs ++ ['"'])

def unescape : List Char → List Char
  | '\\' :: c :: cs => c :: unescape cs
  | c :: cs => c :: unescape cs
  | [] => []

/-- The text of a literal: what stands between its first and its last character. -/
def unquote (cs : List Char) : List Char :=
  unescape (cs.drop 1).dropLast

/-- The literal of a text. -/
def quoteText (text : String) : String :=
  String.ofList (quote text.toList)

end AlgebraBatch.Literal
