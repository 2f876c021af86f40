import AlgebraBatch.Text.Blank
import AlgebraBatch.Text.Digit
import AlgebraBatch.Text.WordChar

/-!
# Terminals of the expression grammar

A terminal is a single character or one of the patterns below. `Terminal.accept` gives the rest of
a text after the terminal at its beginning. `Pattern.source` is the pattern as messages show it.
Keywords end where a word ends; digits are those of every script.
-/

namespace AlgebraBatch.Syntax

open AlgebraBatch.Text

inductive Pattern where
  | blanks
  | assignment
  | orWord
  | andWord
  | notWord
  | relation
  | addition
  | multiplication
  | dot
  | power
  | sign
  | float
  | integer
  | string
  | boolean
  | identifier
  | ifWord
  | thenWord
  | elseifWord
  | elseWord
  deriving DecidableEq, Repr

inductive Terminal where
  | literal (c : Char)
  | pattern (p : Pattern)
  deriving DecidableEq, Repr

def Pattern.source : Pattern → String
  | blanks => "\\s*"
  | assignment => ":=|:(?![=:])"
  | orWord => "or\\b"
  | andWord => "and\\b"
  | notWord => "not\\b"
  | relation => "<=|>=|<|>|=|#"
  | addition => "\\+|-"
  | multiplication => "\\*(?!\\*)|/"
  | dot => "\\.(?!\\d)"
  | power => "\\^\\^|\\^|\\*\\*"
  | sign => "''|'|-|\\+"
  | float =>
    "\\d+\\.\\d*(?:[eEbB][+-]?\\d+)?|\\.\\d+(?:[eEbB][+-]?\\d+)?|\\d+[eEbB][+-]?\\d+"
  | integer => "\\d+"
  | string => "\"(?:[^\"\\\\]|\\\\.)*\""
  | boolean => "(?:true|false)\\b"
  | identifier => "[%A-Za-z_][%A-Za-z0-9_]*"
  | ifWord => "if\\b"
  | thenWord => "then\\b"
  | elseifWord => "elseif\\b"
  | elseWord => "else\\b"

/-- The rest of a text after a word that ends there. -/
def acceptWord (word : List Char) (s : List Char) : Option (List Char) :=
  if word.isPrefixOf s && atWordEnd (s.drop word.length) then some (s.drop word.length) else none

/-- The rest of a text after the first of the given beginnings that it has. -/
def acceptAny (beginnings : List (List Char)) (s : List Char) : Option (List Char) :=
  (beginnings.find? (·.isPrefixOf s)).map fun b => s.drop b.length

/-- A colon that no equals sign or colon follows, or `:=`. -/
def acceptAssignment : List Char → Option (List Char)
  | ':' :: '=' :: s => some s
  | ':' :: ':' :: _ => none
  | ':' :: s => some s
  | _ => none

/-- A slash, or an asterisk that no asterisk follows. -/
def acceptMultiplication : List Char → Option (List Char)
  | '*' :: '*' :: _ => none
  | '*' :: s => some s
  | '/' :: s => some s
  | _ => none

def startsWithDigit : List Char → Bool
  | [] => false
  | c :: _ => isDecimalDigit c

/-- A point that no digit follows. -/
def acceptDot : List Char → Option (List Char)
  | '.' :: s => if startsWithDigit s then none else some s
  | _ => none

def dropDigits (s : List Char) : List Char :=
  s.dropWhile isDecimalDigit

def acceptInteger (s : List Char) : Option (List Char) :=
  if startsWithDigit s then some (dropDigits s) else none

def dropSign : List Char → List Char
  | '+' :: s => s
  | '-' :: s => s
  | s => s

/-- The exponent part of a float: `e` or `b` in either case, a sign if there is one, digits. -/
def acceptExponent : List Char → Option (List Char)
  | [] => none
  | c :: s =>
    if c == 'e' || c == 'E' || c == 'b' || c == 'B' then acceptInteger (dropSign s) else none

def dropExponent (s : List Char) : List Char :=
  (acceptExponent s).getD s

/-- Digits with a point after or before them, and then an exponent if there is one; or digits with
an exponent. -/
def acceptFloat : List Char → Option (List Char)
  | [] => none
  | c :: s =>
    if isDecimalDigit c then
      match dropDigits s with
      | '.' :: s' => some (dropExponent (dropDigits s'))
      | s' => acceptExponent s'
    else if c == '.' then (acceptInteger s).map dropExponent
    else none

/-- The rest of a text after the quote that ends a string. A backslash takes the next character
with it, which must not be a line feed. -/
def acceptStringTail : List Char → Option (List Char)
  | [] => none
  | '"' :: s => some s
  | '\\' :: c :: s => if c == '\n' then none else acceptStringTail s
  | c :: s => if c == '\\' then none else acceptStringTail s

def acceptString : List Char → Option (List Char)
  | '"' :: s => acceptStringTail s
  | _ => none

def isNameStart (c : Char) : Bool :=
  c == '%' || c == '_' || c.isAlpha

def isNameChar (c : Char) : Bool :=
  c == '%' || isAsciiWordChar c

def acceptIdentifier : List Char → Option (List Char)
  | [] => none
  | c :: s => if isNameStart c then some (s.dropWhile isNameChar) else none

def Pattern.accept : Pattern → List Char → Option (List Char)
  | blanks, s => some (s.dropWhile isPatternBlank)
  | assignment, s => acceptAssignment s
  | orWord, s => acceptWord ['o', 'r'] s
  | andWord, s => acceptWord ['a', 'n', 'd'] s
  | notWord, s => acceptWord ['n', 'o', 't'] s
  | relation, s => acceptAny [['<', '='], ['>', '='], ['<'], ['>'], ['='], ['#']] s
  | addition, s => acceptAny [['+'], ['-']] s
  | multiplication, s => acceptMultiplication s
  | dot, s => acceptDot s
  | power, s => acceptAny [['^', '^'], ['^'], ['*', '*']] s
  | sign, s => acceptAny [['\'', '\''], ['\''], ['-'], ['+']] s
  | float, s => acceptFloat s
  | integer, s => acceptInteger s
  | string, s => acceptString s
  | boolean, s =>
    (acceptWord ['t', 'r', 'u', 'e'] s).or (acceptWord ['f', 'a', 'l', 's', 'e'] s)
  | identifier, s => acceptIdentifier s
  | ifWord, s => acceptWord ['i', 'f'] s
  | thenWord, s => acceptWord ['t', 'h', 'e', 'n'] s
  | elseifWord, s => acceptWord ['e', 'l', 's', 'e', 'i', 'f'] s
  | elseWord, s => acceptWord ['e', 'l', 's', 'e'] s

/-- The rest of a text after the terminal at its beginning. -/
def Terminal.accept : Terminal → List Char → Option (List Char)
  | literal c, s => match s with
    | [] => none
    | d :: rest => if d == c then some rest else none
  | pattern p, s => p.accept s

end AlgebraBatch.Syntax
