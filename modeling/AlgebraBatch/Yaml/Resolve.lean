import AlgebraBatch.Datum.Basic
import AlgebraBatch.Decimal.Numeral
import AlgebraBatch.Fault

/-!
# Values of plain scalars

A plain scalar is a text unless it has the form of another type: a truth value in one of eleven
words, null, an integer in one of five notations, a float, which needs a point, or a date. Integers
and floats may be written in base sixty, with colons between the places. `resolve` finds the type of
a text and `construct` its value.
-/

namespace AlgebraBatch.Yaml

open AlgebraBatch.Text

inductive ScalarType where
  | text
  | null
  | bool
  | int
  | float
  | date
  /-- The key under which other maps are merged. -/
  | merge
  /-- The default value key. -/
  | default
  deriving DecidableEq, Repr

/-- The parts of a text between the occurrences of a character. -/
def splitAt (sep : Char) : List Char → List (List Char)
  | [] => [[]]
  | c :: cs =>
    if c == sep then [] :: splitAt sep cs
    else match splitAt sep cs with
      | [] => [[c]]
      | part :: parts => (c :: part) :: parts

def dropSign : List Char → List Char
  | '-' :: cs => cs
  | '+' :: cs => cs
  | cs => cs

def isBinary (c : Char) : Bool := c == '0' || c == '1' || c == '_'

def isOctal (c : Char) : Bool := ('0' ≤ c && c ≤ '7') || c == '_'

def isDecimal (c : Char) : Bool := c.isDigit || c == '_'

def isHexadecimal (c : Char) : Bool :=
  c.isDigit || ('a' ≤ c && c ≤ 'f') || ('A' ≤ c && c ≤ 'F') || c == '_'

/-- At least one character, and all of them in the class. -/
def isRun (p : Char → Bool) (cs : List Char) : Bool := !cs.isEmpty && cs.all p

/-- A decimal run that begins with a digit. -/
def startsDecimal : List Char → Bool
  | [] => false
  | c :: cs => c.isDigit && cs.all isDecimal

/-- A place in base sixty: one digit, or two of which the first is at most five. -/
def isSixtieth : List Char → Bool
  | [c] => c.isDigit
  | [c, d] => '0' ≤ c && c ≤ '5' && d.isDigit
  | _ => false

def isUnsignedInteger (cs : List Char) : Bool :=
  match cs with
  | ['0'] => true
  | '0' :: 'b' :: ds => isRun isBinary ds
  | '0' :: 'x' :: ds => isRun isHexadecimal ds
  | '0' :: ds => isRun isOctal ds
  | _ =>
    match splitAt ':' cs with
    | [] => false
    | first :: places => startsDecimal first && places.all isSixtieth

def isInteger (cs : List Char) : Bool := isUnsignedInteger (dropSign cs)

/-- Nothing, or an exponent with its sign. -/
def isExponent : List Char → Bool
  | [] => true
  | e :: s :: ds => (e == 'e' || e == 'E') && (s == '-' || s == '+') && isRun Char.isDigit ds
  | _ => false

/-- What may follow the point of a float. -/
def isFraction (cs : List Char) : Bool := isExponent (cs.dropWhile isDecimal)

/-- A number with a point after its whole part; the whole part may be in base sixty. -/
def isPointed (cs : List Char) : Bool :=
  let whole := cs.takeWhile fun c => isDecimal c || c == ':'
  match cs.drop whole.length, splitAt ':' whole with
  | '.' :: rest, [digits] => startsDecimal digits && isFraction rest
  | '.' :: rest, digits :: places =>
    startsDecimal digits && places.all isSixtieth && rest.all isDecimal
  | _, _ => false

def isFloat (cs : List Char) : Bool :=
  isPointed (dropSign cs) ||
    [".inf", ".Inf", ".INF"].contains (String.ofList (dropSign cs)) ||
    [".nan", ".NaN", ".NAN"].contains (String.ofList cs) ||
    match cs with
    | '.' :: c :: rest => c.isDigit && isFraction rest
    | _ => false

/-- A run of digits whose length lies between the bounds, and what follows it. -/
def takeDigits (least most : Nat) (cs : List Char) : Option (List Char × List Char) :=
  let ds := (cs.take most).takeWhile Char.isDigit
  if least ≤ ds.length then some (ds, cs.drop ds.length) else none

def isBlank (c : Char) : Bool := c == ' ' || c == '\t'

def takeChar (c : Char) : List Char → Option (List Char)
  | [] => none
  | d :: cs => if c == d then some cs else none

/-- The minutes of a time zone, or nothing. -/
def zone? (cs : List Char) : Option (Option Int) :=
  match cs.dropWhile isBlank with
  | [] => if cs.isEmpty then some none else none
  | ['Z'] => some (some 0)
  | c :: rest => do
    let (hours, rest) ← takeDigits 1 2 rest
    let minutes ← match rest with
      | [] => some 0
      | ':' :: ds => if ds.length == 2 && ds.all Char.isDigit then some (digitsToNat ds) else none
      | _ => none
    let ahead : Int := (60 * digitsToNat hours + minutes : Nat)
    if c == '+' then some (some ahead) else if c == '-' then some (some (-ahead)) else none

/-- What separates a date from a time of day. -/
def dropTimeMark : List Char → Option (List Char)
  | [] => none
  | c :: cs =>
    if c == 'T' || c == 't' then some cs
    else if isBlank c then some (cs.dropWhile isBlank)
    else none

/-- The microseconds after the point of a time, and what follows them. -/
def takeMicroseconds : List Char → Nat × List Char
  | '.' :: cs =>
    let places := cs.takeWhile Char.isDigit
    (digitsToNat ((places ++ List.replicate 6 '0').take 6), cs.dropWhile Char.isDigit)
  | cs => (0, cs)

/-- The time of day that a text writes. -/
def timeOfDay? (cs : List Char) : Option TimeOfDay := do
  let (hour, cs) ← takeDigits 1 2 cs
  let cs ← takeChar ':' cs
  let (minute, cs) ← takeDigits 2 2 cs
  let cs ← takeChar ':' cs
  let (second, cs) ← takeDigits 2 2 cs
  let (microsecond, cs) := takeMicroseconds cs
  let zone ← zone? cs
  some { hour := digitsToNat hour, minute := digitsToNat minute, second := digitsToNat second,
         microsecond, zone }

/-- What a text of the form of a date writes. The calendar need not have it. -/
def moment? (cs : List Char) : Option Moment := do
  let (year, cs) ← takeDigits 4 4 cs
  let cs ← takeChar '-' cs
  let (month, cs) ← takeDigits 1 2 cs
  let cs ← takeChar '-' cs
  let (day, cs) ← takeDigits 1 2 cs
  let time ←
    if cs.isEmpty then if month.length == 2 && day.length == 2 then some none else none
    else some <$> timeOfDay? (← dropTimeMark cs)
  some { year := digitsToNat year, month := digitsToNat month, day := digitsToNat day, time }

def trueWords : List String := ["yes", "Yes", "YES", "true", "True", "TRUE", "on", "On", "ON"]

def falseWords : List String := ["no", "No", "NO", "false", "False", "FALSE", "off", "Off", "OFF"]

def nullWords : List String := ["~", "null", "Null", "NULL", ""]

/-- The type of a plain scalar. -/
def resolve (s : String) : ScalarType :=
  let cs := s.toList
  if trueWords.contains s || falseWords.contains s then .bool
  else if isFloat cs then .float
  else if isInteger cs then .int
  else if s == "<<" then .merge
  else if nullWords.contains s then .null
  else if (moment? cs).isSome then .date
  else if s == "=" then .default
  else .text

/-! ## Values -/

def valueOfDigits (base : Nat) (cs : List Char) : Nat :=
  cs.foldl (fun n c =>
    let d := if c.isDigit then c.toNat - 48 else c.toLower.toNat - 87
    n * base + d) 0

/-- Digits of a base that is written with a mark before them; there must be some. -/
def markedInteger (base : Nat) (cs : List Char) : Except Fault Int :=
  if cs.isEmpty then
    .error (.badValue ("invalid literal for int() with base " ++ toString base ++ ": ''"))
  else .ok (valueOfDigits base cs)

def decimalInteger (cs : List Char) : Except Fault Int :=
  (Numeral.readInteger (String.ofList cs)).mapError .numeral

/-- The number of places in base sixty, the last one counting once. -/
def sexagesimal (places : List Int) : Int :=
  places.foldl (fun n d => n * 60 + d) 0

def constructInteger (cs : List Char) : Except Fault Int := do
  let cs := cs.filter (· != '_')
  let magnitude ← match dropSign cs with
    | ['0'] => pure 0
    | '0' :: 'b' :: ds => markedInteger 2 ds
    | '0' :: 'x' :: ds => markedInteger 16 ds
    | '0' :: ds => pure (valueOfDigits 8 ds : Int)
    | ds =>
      if ds.contains ':' then sexagesimal <$> (splitAt ':' ds).mapM decimalInteger
      else decimalInteger ds
  return if cs.head? == some '-' then -magnitude else magnitude

def floatOf (cs : List Char) : Except Fault Binary64 :=
  (Numeral.readFloat (String.ofList cs)).mapError .numeral

/-- Adds up the places from the last one on, each sixty times the one after it. -/
def sexagesimalFloat (places : List Binary64) : Except Fault Binary64 := do
  let step (acc : Binary64 × Int) (d : Binary64) : Except Fault (Binary64 × Int) := do
    match Binary64.ofInt? acc.2 with
    | some base => return (acc.1.add (d.mul base), acc.2 * 60)
    | none => throw .tooLarge
  let (sum, _) ← places.reverse.foldlM step (Binary64.zero false, 1)
  return sum

def constructFloat (cs : List Char) : Except Fault Binary64 := do
  let cs := (cs.filter (· != '_')).map Char.toLower
  let magnitude ← match dropSign cs with
    | ['.', 'i', 'n', 'f'] => pure (.infinite false)
    | ['.', 'n', 'a', 'n'] => pure .nan
    | ds =>
      if ds.contains ':' then do sexagesimalFloat (← (splitAt ':' ds).mapM floatOf)
      else floatOf ds
  return if cs.head? == some '-' then magnitude.negate else magnitude

/-- A moment that the calendar has. -/
def constructMoment (m : Moment) : Except Fault Moment :=
  match m.fault? with
  | some message => .error (.badValue message)
  | none => .ok m

/-- The value of a plain scalar; the two special keys have none. -/
def construct (s : String) : Except Fault (Option Datum) :=
  match resolve s with
  | .text => .ok (some (.str s))
  | .null => .ok (some .null)
  | .bool => .ok (some (.bool (trueWords.contains s)))
  | .int => (constructInteger s.toList).map (some ∘ .int)
  | .float => (constructFloat s.toList).map (some ∘ .float)
  | .date =>
    match moment? s.toList with
    | some m => (constructMoment m).map (some ∘ .moment)
    | none => .ok none
  | .merge => .ok none
  | .default => .ok none

end AlgebraBatch.Yaml
