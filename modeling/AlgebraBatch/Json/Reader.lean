import AlgebraBatch.Datum.Basic
import AlgebraBatch.Decimal.Numeral

/-!
# Reading JSON

`Json.read?` reads a JSON text. Of a key that comes twice the last value counts. `NaN`, `Infinity`
and `-Infinity` are numbers; a number with neither point nor exponent is an integer and has at most
as many digits as an integer numeral may have. Anything else that the format does not allow makes the
text unreadable.

Texts have no halves of surrogate pairs here. Half of a pair is read as U+FFFD, so two keys that differ
in nothing else become one: what is said of texts with such escapes is not about them but about what
they are read as.
-/

namespace AlgebraBatch.Json

open AlgebraBatch.Text

def isBlank (c : Char) : Bool :=
  c == ' ' || c == '\t' || c == '\n' || c == '\r'

def skipBlanks (cs : List Char) : List Char := cs.dropWhile isBlank

def hexValue? (c : Char) : Option Nat :=
  let n := c.toNat
  if c.isDigit then some (n - 48)
  else if 'a' ≤ c && c ≤ 'f' then some (n - 87)
  else if 'A' ≤ c && c ≤ 'F' then some (n - 55)
  else none

def hexFour? (a b c d : Char) : Option Nat := do
  let w ← hexValue? a
  let x ← hexValue? b
  let y ← hexValue? c
  let z ← hexValue? d
  some (((w * 16 + x) * 16 + y) * 16 + z)

/-- The character that the letter after a backslash stands for. -/
def escaped? : Char → Option Char
  | '"' => some '"'
  | '\\' => some '\\'
  | '/' => some '/'
  | 'b' => some '\x08'
  | 'f' => some '\x0c'
  | 'n' => some '\n'
  | 'r' => some '\r'
  | 't' => some '\t'
  | _ => none

def isHighHalf (n : Nat) : Bool := 0xd800 ≤ n && n < 0xdc00

def isLowHalf (n : Nat) : Bool := 0xdc00 ≤ n && n < 0xe000

/-- The character of a code unit that is not the first half of a pair. -/
def unitChar (n : Nat) : Char :=
  if isHighHalf n || isLowHalf n then '\ufffd' else Char.ofNat n

def pairChar (high low : Nat) : Char :=
  Char.ofNat (0x10000 + (high - 0xd800) * 0x400 + (low - 0xdc00))

/-- The text of a string after its opening quote, and what follows the closing one. `high` is a
first half of a pair that has been read and waits for the second. -/
def readStringTail (high : Option Nat) : List Char → Option (List Char × List Char)
  | [] => none
  | '"' :: cs => some (high.elim [] (fun _ => ['\ufffd']), cs)
  | '\\' :: 'u' :: a :: b :: c :: d :: cs => do
    let n ← hexFour? a b c d
    match high with
    | some h =>
      if isLowHalf n then
        let (s, rest) ← readStringTail none cs
        some (pairChar h n :: s, rest)
      else if isHighHalf n then
        let (s, rest) ← readStringTail (some n) cs
        some ('\ufffd' :: s, rest)
      else
        let (s, rest) ← readStringTail none cs
        some ('\ufffd' :: unitChar n :: s, rest)
    | none =>
      if isHighHalf n then readStringTail (some n) cs
      else
        let (s, rest) ← readStringTail none cs
        some (unitChar n :: s, rest)
  | '\\' :: c :: cs => do
    let e ← escaped? c
    let (s, rest) ← readStringTail none cs
    some (high.elim (e :: s) (fun _ => '\ufffd' :: e :: s), rest)
  | c :: cs =>
    if c == '\\' || c.toNat < 0x20 then none
    else do
      let (s, rest) ← readStringTail none cs
      some (high.elim (c :: s) (fun _ => '\ufffd' :: c :: s), rest)

/-- Whether the word stands at the beginning, and the rest after it. -/
def afterWord? (word : String) (cs : List Char) : Option (List Char) :=
  if word.toList.isPrefixOf cs then some (cs.drop word.length) else none

/-- The whole part of a number: zero alone, or digits that do not begin with zero. -/
def readWhole : List Char → Option (List Char × List Char)
  | [] => none
  | c :: cs =>
    if c == '0' then some ([c], cs)
    else if c.isDigit then some (c :: cs.takeWhile Char.isDigit, cs.dropWhile Char.isDigit)
    else none

/-- The digits after a point, if a point with digits is there. -/
def readPlaces : List Char → List Char × List Char
  | '.' :: cs =>
    let ds := cs.takeWhile Char.isDigit
    if ds.isEmpty then ([], '.' :: cs) else (ds, cs.dropWhile Char.isDigit)
  | cs => ([], cs)

/-- The exponent, if one with digits is there. -/
def readPower : List Char → Option Int × List Char
  | [] => (none, [])
  | c :: cs =>
    if c == 'e' || c == 'E' then
      let (negative, ds) := Numeral.takeSign cs
      let run := ds.takeWhile Char.isDigit
      let n : Int := digitsToNat run
      if run.isEmpty then (none, c :: cs)
      else (some (if negative then -n else n), ds.dropWhile Char.isDigit)
    else (none, c :: cs)

def readNumber (negative : Bool) (cs : List Char) : Option (Datum × List Char) := do
  let (whole, cs) ← readWhole cs
  let (places, cs) := readPlaces cs
  let (power, cs) := readPower cs
  if places.isEmpty && power.isNone then
    let n : Int := digitsToNat whole
    if Numeral.maxDigits < whole.length then none
    else some (.int (if negative then -n else n), cs)
  else
    some (.float (.ofDecimal negative (digitsToNat (whole ++ places))
      (power.getD 0 - places.length)), cs)

def readSigned (cs : List Char) : Option (Datum × List Char) :=
  match afterWord? "Infinity" cs with
  | some rest => some (.float (.infinite true), rest)
  | none => readNumber true cs

/-- The words that are values. -/
def words : List (String × Datum) :=
  [("null", .null), ("true", .bool true), ("false", .bool false), ("NaN", .float .nan),
    ("Infinity", .float (.infinite false))]

def readWord (cs : List Char) : Option (Datum × List Char) :=
  words.findSome? fun (word, d) => (afterWord? word cs).map (d, ·)

mutual

/-- The value at the beginning of a text, and what follows it. -/
def readValue : Nat → List Char → Option (Datum × List Char)
  | 0, _ => none
  | _, [] => none
  | fuel + 1, c :: cs =>
    if c == '"' then (readStringTail none cs).map fun (s, rest) => (.str (String.ofList s), rest)
    else if c == '\x7b' then
      match skipBlanks cs with
      | '\x7d' :: rest => some (.map [], rest)
      | cs => (readEntries fuel cs).map fun (es, rest) => (.ofEntries es, rest)
    else if c == '[' then
      match skipBlanks cs with
      | ']' :: rest => some (.list [], rest)
      | cs => (readItems fuel cs).map fun (xs, rest) => (.list xs, rest)
    else if c == '-' then readSigned cs
    else if c.isDigit then readNumber false (c :: cs)
    else readWord (c :: cs)

def readItems : Nat → List Char → Option (List Datum × List Char)
  | 0, _ => none
  | fuel + 1, cs => do
    let (x, cs) ← readValue fuel cs
    match skipBlanks cs with
    | ',' :: cs =>
      let (xs, cs) ← readItems fuel (skipBlanks cs)
      some (x :: xs, cs)
    | ']' :: cs => some ([x], cs)
    | _ => none

def readEntries : Nat → List Char → Option (List (Datum × Datum) × List Char)
  | 0, _ => none
  | fuel + 1, cs =>
    match cs with
    | '"' :: cs => do
      let (key, cs) ← readStringTail none cs
      match skipBlanks cs with
      | ':' :: cs =>
        let (v, cs) ← readValue fuel (skipBlanks cs)
        let entry := (Datum.str (String.ofList key), v)
        match skipBlanks cs with
        | ',' :: cs =>
          let (es, cs) ← readEntries fuel (skipBlanks cs)
          some (entry :: es, cs)
        | '\x7d' :: cs => some ([entry], cs)
        | _ => none
      | _ => none
    | _ => none

end

def readText? (cs : List Char) : Option Datum := do
  let (d, rest) ← readValue (2 * cs.length + 2) (skipBlanks cs)
  if (skipBlanks rest).isEmpty then some d else none

/-- The value of a JSON text. Texts with half of a surrogate pair are outside of the model. -/
def read? (text : String) : Option Datum := readText? text.toList

end AlgebraBatch.Json
