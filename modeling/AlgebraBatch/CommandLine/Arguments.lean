import AlgebraBatch.Decimal.Numeral
import AlgebraBatch.Text.Digit
import AlgebraBatch.Text.Quoted

/-!
# Arguments of the command line

The program takes one file of statements and some options. `Token.of` says what each argument looks
like on its own: an option can be spelled by any beginning that only it has, with its value after an
equals sign or in the next argument, and single letters can be joined. `Arguments.parse` takes the
tokens from left to right; the last of repeated options counts, and what finds no place is reported
at the end.
-/

namespace AlgebraBatch.CommandLine

open AlgebraBatch.Text

inductive OptionName where
  | help
  | options
  | connector
  | seed
  | format
  | verbose
  deriving DecidableEq, Repr

namespace OptionName

def all : List OptionName := [help, options, connector, seed, format, verbose]

def spellings : OptionName → List String
  | help => ["-h", "--help"]
  | options => ["--options"]
  | connector => ["--connector"]
  | seed => ["--seed"]
  | format => ["--format"]
  | verbose => ["-v", "--verbose"]

/-- How messages call the option. -/
def label (o : OptionName) : String := joinWith "/" o.spellings

def takesValue : OptionName → Bool
  | help => false
  | verbose => false
  | _ => true

/-- Every spelling with its option, in the order in which they are listed. -/
def table : List (String × OptionName) :=
  all.flatMap fun o => o.spellings.map fun s => (s, o)

def named? (spelling : String) : Option OptionName :=
  (table.find? (·.1 == spelling)).map Prod.snd

end OptionName

/-- A value in the same argument as its option, either after an equals sign or joined to it. -/
inductive Attached where
  | equals (value : String)
  | joined (value : String)
  deriving DecidableEq, Repr

def Attached.value : Attached → String
  | equals s => s
  | joined s => s

/-- Why no batch is run. -/
inductive Refusal where
  /-- Help was asked for. -/
  | help
  | misuse (message : String)
  deriving DecidableEq, Repr

/-- What an argument looks like. -/
inductive Token where
  | argument (text : String)
  | separator
  | option (spelling : String) (name : OptionName) (attached : Option Attached)
  | unknown (text : String)
  deriving DecidableEq, Repr

namespace Token

/-- The text before the first equals sign, and the text after it if there is one. -/
def splitEquals (text : String) : String × Option String :=
  match splitAtFirst? ['='] text.toList with
  | some (before, after) => (String.ofList before, some (String.ofList after))
  | none => (text, none)

def beginsWith (lead text : String) : Bool := lead.toList.isPrefixOf text.toList

/-- Digits, possibly with a point before the last of them. -/
def isUnsignedNumber (cs : List Char) : Bool :=
  let rest := cs.dropWhile isDecimalDigit
  match rest with
  | [] => !cs.isEmpty
  | '.' :: ds => !ds.isEmpty && ds.all isDecimalDigit
  | _ => false

/-- A negative number is an argument and no option. A line feed may follow it. -/
def isNegativeNumber (text : String) : Bool :=
  match text.toList with
  | '-' :: cs =>
    isUnsignedNumber (if cs.getLast? == some '\n' then cs.dropLast else cs)
  | _ => false

/-- The options that an argument with two dashes may be short for. -/
def abbreviated (text : String) : List Token :=
  let (lead, value) := splitEquals text
  (OptionName.table.filter fun (s, _) => beginsWith lead s).map fun (s, o) =>
    .option s o (value.map .equals)

/-- The options that an argument with one dash may begin with or be short for. -/
def lettered (text : String) : List Token :=
  let short := takeFirst 2 text
  OptionName.table.filterMap fun (s, o) =>
    if s == short then some (.option s o (some (.joined (String.ofList (text.toList.drop 2)))))
    else if beginsWith text s then some (.option s o none)
    else none

def spelling? : Token → Option String
  | option s _ _ => some s
  | _ => none

/-- What an argument that begins with a dash and is no spelling of an option looks like. -/
def ofDashed (text : String) : Except Refusal Token :=
  match if beginsWith "--" text then abbreviated text else lettered text with
  | [token] => .ok token
  | [] =>
    .ok (if isNegativeNumber text || text.toList.contains ' ' then .argument text
      else .unknown text)
  | tokens => .error (.misuse ("ambiguous option: " ++ text ++ " could match " ++
      joinWith ", " (tokens.filterMap spelling?)))

/-- What an argument looks like, if no separator comes before it. -/
def of (text : String) : Except Refusal Token :=
  if text == "--" then .ok .separator
  else if !beginsWith "-" text || text == "-" then .ok (.argument text)
  else
    match OptionName.named? text, splitEquals text with
    | some o, _ => .ok (.option text o none)
    | none, (lead, some value) =>
      match OptionName.named? lead with
      | some o => .ok (.option lead o (some (.equals value)))
      | none => ofDashed text
    | none, (_, none) => ofDashed text

/-- What the arguments look like. After a separator there are no options. -/
def ofAll : List String → Except Refusal (List Token)
  | [] => .ok []
  | a :: as => do
    match ← of a with
    | .separator => .ok (.separator :: as.map .argument)
    | token =>
      let tokens ← ofAll as
      .ok (token :: tokens)

/-- The argument as it was given, where it can be left over. -/
def text : Token → String
  | argument s => s
  | separator => "--"
  | option s _ _ => s
  | unknown s => s

end Token

inductive Format where
  | text
  | json
  | yaml
  deriving DecidableEq, Repr

namespace Format

def name : Format → String
  | text => "text"
  | json => "json"
  | yaml => "yaml"

def all : List Format := [text, json, yaml]

def named? (name : String) : Option Format := all.find? (·.name == name)

end Format

structure Arguments where
  statements : String
  options : Option String := none
  connector : Option String := none
  seed : Option Int := none
  format : Format := .text
  verbosity : Nat := 0
  deriving DecidableEq, Repr

namespace Arguments

/-- What has been read from the arguments so far. -/
structure Progress where
  statements : Option String := none
  taken : Arguments := { statements := "" }
  leftOver : List String := []

def misused {α : Type} (o : OptionName) (problem : String) : Except Refusal α :=
  .error (.misuse ("argument " ++ o.label ++ ": " ++ problem))

/-- Gives an option its value. -/
def setValue (taken : Arguments) (o : OptionName) (value : String) : Except Refusal Arguments :=
  match o with
  | .options => .ok { taken with options := some value }
  | .connector => .ok { taken with connector := some value }
  | .seed =>
    match Numeral.readInteger value with
    | .ok n => .ok { taken with seed := some n }
    | .error _ => misused o ("invalid int value: " ++ quoted value)
  | .format =>
    match Format.named? value with
    | some f => .ok { taken with format := f }
    | none => misused o ("invalid choice: " ++ quoted value ++ " (choose from " ++
        joinWith ", " (Format.all.map fun f => quoted f.name) ++ ")")
  | _ => .ok taken

/-- Takes an option that has no value. -/
def raise (taken : Arguments) : OptionName → Except Refusal Arguments
  | .help => .error .help
  | .verbose => .ok { taken with verbosity := taken.verbosity + 1 }
  | _ => .ok taken

/-- The options that are joined in one argument after a letter, and what is left over. -/
def joinedOptions (o : OptionName) : List Char → Except Refusal (List OptionName × List String)
  | [] => .ok ([], [])
  | c :: cs =>
    if c == '-' then misused o ("ignored explicit argument " ++ quoted (String.ofList (c :: cs)))
    else
      match OptionName.named? (String.ofList ['-', c]), cs with
      | none, _ => .ok ([], [String.ofList ('-' :: c :: cs)])
      | some next, '=' :: value =>
        misused next ("ignored explicit argument " ++ quoted (String.ofList value))
      | some next, cs => (joinedOptions next cs).map fun (os, left) => (next :: os, left)

/-- Takes an option without a value that has something attached to it. -/
def raiseJoined (p : Progress) (spelling : String) (o : OptionName) (attached : Attached) :
    Except Refusal Progress :=
  match attached with
  | .joined value =>
    if beginsLong spelling || value == "" then refuse
    else do
      let (os, left) ← joinedOptions o value.toList
      let taken ← (o :: os).foldlM raise p.taken
      .ok { p with taken, leftOver := p.leftOver ++ left }
  | .equals _ => refuse
where
  beginsLong (spelling : String) : Bool := Token.beginsWith "--" spelling
  refuse : Except Refusal Progress :=
    misused o ("ignored explicit argument " ++ quoted attached.value)

def leave (p : Progress) (texts : List String) : Progress :=
  { p with leftOver := p.leftOver ++ texts }

/-- Takes tokens from left to right. An argument that no option wants names the statements, once. -/
def consume (p : Progress) : List Token → Except Refusal Progress
  | [] => .ok p
  | .argument s :: rest =>
    match p.statements, rest with
    | none, .separator :: rest => .ok (leave { p with statements := some s } (rest.map Token.text))
    | none, rest => consume { p with statements := some s } rest
    | some _, rest => consume (leave p [s]) rest
  | .separator :: rest =>
    match p.statements, rest with
    | none, first :: rest =>
      .ok (leave { p with statements := some first.text } (rest.map Token.text))
    | _, rest => .ok (leave p ("--" :: rest.map Token.text))
  | .unknown s :: rest => consume (leave p [s]) rest
  | .option _ o none :: rest =>
    if o.takesValue then
      match rest with
      | .argument value :: rest => do
        let taken ← setValue p.taken o value
        consume { p with taken } rest
      | _ => misused o "expected one argument"
    else do
      let taken ← raise p.taken o
      consume { p with taken } rest
  | .option spelling o (some attached) :: rest =>
    if o.takesValue then do
      let taken ← setValue p.taken o attached.value
      consume { p with taken } rest
    else do
      let p ← raiseJoined p spelling o attached
      consume p rest

/-- The arguments of the command line. -/
def parse (args : List String) : Except Refusal Arguments := do
  let p ← consume {} (← Token.ofAll args)
  match p.statements, p.leftOver with
  | none, _ => .error (.misuse "the following arguments are required: statements")
  | some s, [] => .ok { p.taken with statements := s }
  | some _, left => .error (.misuse ("unrecognized arguments: " ++ joinWith " " left))

end Arguments

/-! ## Texts -/

def usage : String :=
  "usage: casbatch [-h] [--options OPTIONS] [--connector CONNECTOR] [--seed SEED]\n" ++
  "                [--format \x7btext,json,yaml\x7d] [-v]\n" ++
  "                statements\n"

def helpText : String :=
  usage ++
  "\nEvaluate a file of CAS statements in one batch.\n" ++
  "\npositional arguments:\n" ++
  "  statements            file with one statement per line\n" ++
  "\noptions:\n" ++
  "  -h, --help            show this help message and exit\n" ++
  "  --options OPTIONS     YAML file of engine options\n" ++
  "  --connector CONNECTOR\n" ++
  "                        YAML file describing the engine connector\n" ++
  "  --seed SEED           random seed for the batch\n" ++
  "  --format \x7btext,json,yaml\x7d\n" ++
  "  -v, --verbose\n"

/-- The message about misuse. -/
def misuseText (message : String) : String :=
  usage ++ "casbatch: error: " ++ message ++ "\n"

end AlgebraBatch.CommandLine
