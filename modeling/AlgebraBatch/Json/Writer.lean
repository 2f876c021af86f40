import AlgebraBatch.Datum.Display
import AlgebraBatch.Text.Quoted
import AlgebraBatch.Text.Search

/-!
# Writing JSON

A layout says how a value is written: on one line or with every item on a line of its own, and
whether characters beyond ASCII are escaped. Keys that are not texts are written as the text of
their value. A date has no form in JSON, and an integer can have too many digits: `fault?` is what
keeps a value from being written.
-/

namespace AlgebraBatch.Json

open AlgebraBatch.Text

structure Layout where
  /-- The number of spaces by which a level is indented; none writes a single line. -/
  indent : Option Nat
  /-- Escapes every character beyond ASCII. -/
  ascii : Bool
  deriving Repr

/-- One line, with a blank after each comma and colon. -/
def compact : Layout := { indent := none, ascii := false }

def pretty : Layout := { indent := some 2, ascii := false }

/-- One line of ASCII. -/
def asciiLine : Layout := { indent := none, ascii := true }

/-- A code unit as an escape. -/
def unitEscape (n : Nat) : List Char := '\\' :: 'u' :: (hexDigits 4 n).toList

/-- A character as one escape, or as two if it lies beyond U+FFFF. -/
def escapeUnits (c : Char) : List Char :=
  let n := c.toNat
  if n < 0x10000 then unitEscape n
  else unitEscape (0xd800 + (n - 0x10000) / 0x400) ++ unitEscape (0xdc00 + (n - 0x10000) % 0x400)

def escapeChar (ascii : Bool) (c : Char) : List Char :=
  if c == '"' || c == '\\' then ['\\', c]
  else if c == '\n' then ['\\', 'n']
  else if c == '\r' then ['\\', 'r']
  else if c == '\t' then ['\\', 't']
  else if c == '\x0c' then ['\\', 'f']
  else if c == '\x08' then ['\\', 'b']
  else if c.toNat < 0x20 then unitEscape c.toNat
  else if ascii && 0x7f ≤ c.toNat then escapeUnits c
  else [c]

def writeString (ascii : Bool) (s : String) : String :=
  String.ofList ('"' :: (s.toList.flatMap (escapeChar ascii) ++ ['"']))

/-- The text of a key. Lists and maps are no keys. -/
def keyText : Datum → String
  | .str s => s
  | .float x => Decimal.jsonStyle.write x
  | .bool b => if b then "true" else "false"
  | .int n => toString n
  | _ => "null"

/-- A line break and the indentation of a level, if the layout has lines. -/
def Layout.lineBreak (layout : Layout) (level : Nat) : String :=
  match layout.indent with
  | none => ""
  | some n => "\n" ++ String.ofList (List.replicate (n * level) ' ')

def Layout.separator (layout : Layout) (level : Nat) : String :=
  match layout.indent with
  | none => ", "
  | some _ => "," ++ layout.lineBreak level

/-- Texts between brackets, each one a level further in. -/
def Layout.enclose (layout : Layout) (level : Nat) (opening closing : String)
    (texts : List String) : String :=
  match texts with
  | [] => opening ++ closing
  | _ =>
    opening ++ layout.lineBreak (level + 1) ++ joinWith (layout.separator (level + 1)) texts ++
      layout.lineBreak level ++ closing

mutual

def writeAt (layout : Layout) (level : Nat) : Datum → String
  | .null => "null"
  | .bool b => if b then "true" else "false"
  | .int n => toString n
  | .float x => Decimal.jsonStyle.write x
  | .str s => writeString layout.ascii s
  | .moment m => writeString layout.ascii m.text
  | .list items => layout.enclose level "[" "]" (writeItems layout (level + 1) items)
  | .map entries => layout.enclose level "\x7b" "\x7d" (writeEntries layout (level + 1) entries)

def writeItems (layout : Layout) (level : Nat) : List Datum → List String
  | [] => []
  | x :: xs => writeAt layout level x :: writeItems layout level xs

def writeEntries (layout : Layout) (level : Nat) : List (Datum × Datum) → List String
  | [] => []
  | (k, v) :: es =>
    (writeString layout.ascii (keyText k) ++ ": " ++ writeAt layout level v) ::
      writeEntries layout level es

end

def write (layout : Layout) (d : Datum) : String := writeAt layout 0 d

mutual

/-- What keeps a value from being written: the first date or overlong integer in it. -/
def fault? : Datum → Option Fault
  | .moment _ => some .wrongType
  | .int n => (Datum.int n).writingFault?
  | .list items => itemsFault? items
  | .map entries => entriesFault? entries
  | _ => none

def itemsFault? : List Datum → Option Fault
  | [] => none
  | d :: ds => (fault? d).or (itemsFault? ds)

def entriesFault? : List (Datum × Datum) → Option Fault
  | [] => none
  | (k, d) :: es => (fault? k).or ((fault? d).or (entriesFault? es))

end

end AlgebraBatch.Json
