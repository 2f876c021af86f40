import AlgebraBatch.Batch.Options
import AlgebraBatch.Text.Lines
import AlgebraBatch.Wire

/-!
# Options in a file

The engine options can be kept in a YAML file. A file that holds nothing, or a value that counts as
nothing, gives the defaults. `Options.ofFileBy` reads the file with some reader of YAML,
`Options.ofFile` with `Yaml.read`.
-/

namespace AlgebraBatch

open AlgebraBatch.Text

/-- The empty map for a value that does not hold, the value itself otherwise. -/
def Datum.orEmptyMap (d : Datum) : Datum :=
  if d.holds then d else .map []

/-- The contents of a text file as they are read: every line end is a line feed. -/
def fileText (contents : String) : String :=
  String.ofList (unifyNewlines contents.toList)

/-- The options that a file holds, as a reader reads it. The path is named where the file cannot be
understood. -/
def Options.ofFileBy {α : Type} [Value α] (read : Yaml.Reader α) (path contents : String) :
    Except Fault Options :=
  match read (fileText contents) with
  | .ok v => if Value.holds v then Options.ofMapping v else Options.ofEntries ([] : List (α × α))
  | .error .malformed => .error (.badOptions (.unreadable path))
  | .error (.fault f) => .error f

def Options.ofFile (path contents : String) : Except Fault Options :=
  Options.ofFileBy Yaml.read path contents

end AlgebraBatch
