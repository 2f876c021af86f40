import AlgebraBatch.Batch.OptionsFile
import AlgebraBatch.Batch.Statement

/-!
# Statement files

A file holds one statement per line. Blank lines and comment lines are skipped, and the terminators
at the end of a statement are dropped. The context of a statement is the name of the file and the
number of the line, where skipped lines count.
-/

namespace AlgebraBatch

open AlgebraBatch.Text

namespace StatementFile

/-- The line begins and ends like a comment. -/
def isComment (line : List Char) : Bool :=
  ['/', '*'].isPrefixOf line && ['*', '/'].isSuffixOf line

/-- A stripped line without a statement. -/
def isSkipped (line : List Char) : Bool :=
  line.isEmpty || isComment line

def isTerminator (c : Char) : Bool := c == ';' || c == '$'

/-- The statement of a stripped line, without the terminators at its end. -/
def sourceOf (line : List Char) : String :=
  String.ofList (stripRight (dropRightWhile isTerminator line))

/-- The lines of a text, stripped and numbered from one. -/
def numberedLines (text : String) : List (List Char × Nat) :=
  ((splitLines text.toList).map strip).zipIdx 1

/-- The sources of the statements in a text, with the numbers of their lines. -/
def sources (text : String) : List (String × Nat) :=
  ((numberedLines text).filter fun (line, _) => !isSkipped line).map fun (line, n) =>
    (sourceOf line, n)

def contextOf (name : String) (line : Nat) : String := name ++ ":" ++ toString line

/-- The statements of a file with this name and these contents. -/
def read (name contents : String) : Except Fault (List Statement) :=
  (sources (fileText contents)).mapM fun (source, n) =>
    Statement.make .display (.str source) (contextOf name n)

end StatementFile

end AlgebraBatch
