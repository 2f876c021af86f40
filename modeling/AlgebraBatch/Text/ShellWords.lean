/-!
# Words of a shell command

`shellWords` cuts a command into words as a shell does. Blanks separate words. Between single quotes
every character stands for itself; between double quotes a backslash protects a double quote or
a backslash; outside quotes it protects any character. Quotes may open inside a word, and two quotes
with nothing between them make an empty word.
-/

namespace AlgebraBatch.Text

inductive ShellWordsFault where
  | openQuote
  | openEscape
  deriving DecidableEq, Repr

def ShellWordsFault.message : ShellWordsFault → String
  | openQuote => "No closing quotation"
  | openEscape => "No escaped character"

/-- Where reading stands: between two words, or in a word of which the characters read so far are
kept in reverse. An escape knows the quotes that it stands in. -/
inductive ShellPlace where
  | between
  | bare (word : List Char)
  | inQuotes (quote : Char) (word : List Char)
  | escape (quote : Option Char) (word : List Char)
  deriving DecidableEq, Repr

def isShellBlank (c : Char) : Bool :=
  c == ' ' || c == '\t' || c == '\r' || c == '\n'

/-- Where a character outside quotes leads. -/
def ShellPlace.ofBare (word : List Char) (c : Char) : ShellPlace :=
  if c == '\'' || c == '"' then .inQuotes c word
  else if c == '\\' then .escape none word
  else .bare (c :: word)

/-- Where a character between quotes leads. -/
def ShellPlace.ofQuoted (quote : Char) (word : List Char) (c : Char) : ShellPlace :=
  if c == quote then .bare word
  else if c == '\\' && quote == '"' then .escape (some quote) word
  else .inQuotes quote (c :: word)

/-- Where the character after a backslash leads. A backslash between quotes that protects nothing
stands for itself. -/
def ShellPlace.ofEscaped (quote : Option Char) (word : List Char) (c : Char) : ShellPlace :=
  match quote with
  | none => .bare (c :: word)
  | some q =>
    if c == q || c == '\\' then .inQuotes q (c :: word) else .inQuotes q (c :: '\\' :: word)

def shellWordsFrom (place : ShellPlace) : List Char → Except ShellWordsFault (List String)
  | [] =>
    match place with
    | .between => .ok []
    | .bare word => .ok [String.ofList word.reverse]
    | .inQuotes _ _ => .error .openQuote
    | .escape _ _ => .error .openEscape
  | c :: cs =>
    match place with
    | .between =>
      if isShellBlank c then shellWordsFrom .between cs else shellWordsFrom (.ofBare [] c) cs
    | .bare word =>
      if isShellBlank c then
        (shellWordsFrom .between cs).map (String.ofList word.reverse :: ·)
      else shellWordsFrom (.ofBare word c) cs
    | .inQuotes quote word => shellWordsFrom (.ofQuoted quote word c) cs
    | .escape quote word => shellWordsFrom (.ofEscaped quote word c) cs

/-- The words of a command. -/
def shellWords (command : String) : Except ShellWordsFault (List String) :=
  shellWordsFrom .between command.toList

end AlgebraBatch.Text
