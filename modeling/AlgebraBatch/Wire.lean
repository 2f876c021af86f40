import AlgebraBatch.Content.Printer
import AlgebraBatch.Datum.Value
import AlgebraBatch.Json.Reader
import AlgebraBatch.Json.Writer
import AlgebraBatch.Text.Encoding
import AlgebraBatch.Yaml.Node
import AlgebraBatch.Yaml.Writer

/-!
# Data on the wire

`deserialize` reads JSON or YAML and guesses which from the first character if it is not told. What
is not JSON is tried as YAML, and what is neither stays the text that it is. Only a value that the
text has the form of and that does not exist, such as an integer with too many digits, is a fault.
Which values YAML has is up to its reader; `deserialize` uses `Yaml.read`. `serialize` writes data in
either format, expressions as their text.
-/

namespace AlgebraBatch

open AlgebraBatch.Text

namespace Wire

inductive Format where
  | json
  | yaml
  deriving DecidableEq, Repr

def Format.name : Format → String
  | json => "json"
  | yaml => "yaml"

def Format.named? : String → Option Format
  | "json" => some .json
  | "yaml" => some .yaml
  | _ => none

/-- The format that a text seems to be in; none for a blank text. -/
def detect (text : String) : Option Format :=
  match stripLeft text.toList with
  | [] => none
  | c :: _ => some (if c == '\x7b' || c == '[' then .json else .yaml)

section Reading

variable {α : Type} [Value α] (read : Yaml.Reader α)

/-- The value of a YAML text, or the text itself. -/
def readYaml (text : String) : Except Fault α :=
  match read text with
  | .ok v => .ok v
  | .error .malformed => .ok (Value.ofDatum (.str text))
  | .error (.fault f) => .error f

/-- The value of a JSON text, or else what YAML makes of it. -/
def readJson (text : String) : Except Fault α :=
  match Json.read? text with
  | some d => .ok (Value.ofDatum d)
  | none => readYaml read text

/-- The value of a text in the named format, or in the one that it seems to be in. A text in another
format stays as it is. -/
def deserializeBy (format : String) (text : String) : Except Fault α :=
  let format := if format == "" then detect text else Format.named? format
  match format with
  | some .json => readJson read text
  | some .yaml => readYaml read text
  | none => .ok (Value.ofDatum (.str text))

end Reading

def deserialize (format : String) (text : String) : Except Fault Datum :=
  deserializeBy Yaml.read format text

/-- The text of octets. The encoding without a name is UTF-8; that of no octets does not matter. -/
def decodeText (encoding : String) (octets : List Nat) : Except Fault String :=
  match octets, Encoding.named? (if encoding == "" then "utf-8" else encoding) with
  | [], _ => .ok ""
  | octets, some e => .ok (String.ofList (e.decode octets))
  | _, none => .error .unknownEncoding

def writeDatum (format : Format) (pretty : Bool) (d : Datum) : Except Fault String :=
  match format with
  | .json =>
    match Json.fault? d with
    | none => .ok (Json.write (if pretty then Json.pretty else Json.compact) d)
    | some fault => .error fault
  | .yaml =>
    match d.writingFault? with
    | none => .ok (Yaml.write d)
    | some fault => .error fault

/-- The name of a format in small letters. What does not hold names none. -/
def formatName : Datum → Except Fault String
  | .str name => .ok name.toLower
  | d => if d.holds then .error .missingMember else .ok ""

/-- The text of data in the named format. -/
def serialize (format : Datum) (pretty : Bool) (c : Content) : Except Fault String := do
  let name ← formatName format
  let d ← c.toDatum
  match Format.named? name with
  | some f => writeDatum f pretty d
  | none => .error (.badValue ("Unsupported serialization format: " ++ format.debug))

end Wire

end AlgebraBatch
