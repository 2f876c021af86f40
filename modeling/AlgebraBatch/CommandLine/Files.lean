import AlgebraBatch.Text.Quoted
import AlgebraBatch.Text.Search

/-!
# Files

The command line reads files by their paths, from the root or from the working directory. An empty
component and a dot stay where they are, two dots go up, and every other component must be there.
Where the working directory is, is not known: a file that can be reached from it and from the root is
listed under both paths. Files are text, all can be read, and none is a link.
-/

namespace AlgebraBatch.CommandLine

open AlgebraBatch.Text

/-- The texts of files by their paths. -/
abbrev Files := List (String × String)

inductive FileFault where
  | missing (path : String)
  | isDirectory (path : String)
  | notDirectory (path : String)
  deriving DecidableEq, Repr

def FileFault.message : FileFault → String
  | missing path => "[Errno 2] No such file or directory: " ++ quoted path
  | isDirectory path => "[Errno 21] Is a directory: " ++ quoted path
  | notDirectory path => "[Errno 20] Not a directory: " ++ quoted path

/-! ## Paths -/

/-- The parts of a path between its slashes. -/
def components (path : String) : List String :=
  (split path.toList).map String.ofList
where
  split : List Char → List (List Char)
    | [] => [[]]
    | c :: cs =>
      match split cs with
      | [] => [[]]
      | part :: parts => if c == '/' then [] :: part :: parts else (c :: part) :: parts

/-- The component leads nowhere else. -/
def staysPut (component : String) : Bool := component == "" || component == "."

def isAbsolute (path : String) : Bool := path.toList.head? == some '/'

/-- The slashes before an absolute path: two stay two, any other number is one. -/
def slashes (path : String) : String :=
  match path.toList.takeWhile (· == '/') with
  | [] => ""
  | [_, _] => "//"
  | _ => "/"

/-- The path without components that stay where they are. -/
def tidyPath (path : String) : String :=
  let tidy := slashes path ++ joinWith "/" ((components path).filter fun c => !staysPut c)
  if tidy == "" then "." else tidy

/-- The last component of a path. -/
def baseName (path : String) : String :=
  ((components path).filter fun c => !staysPut c).getLast?.getD ""

/-! ## Places -/

/-- Where a path begins. -/
inductive Origin where
  | root
  /-- The directory so many levels above the working directory. -/
  | above (levels : Nat)
  deriving DecidableEq, Repr

/-- Where a path leads: so many components below its origin. -/
structure Place where
  origin : Origin
  below : List String := []
  deriving DecidableEq, Repr

namespace Place

/-- The directory of a place. The root is its own. -/
def up (place : Place) : Place :=
  match place.origin, place.below with
  | .root, [] => place
  | .above levels, [] => ⟨.above (levels + 1), []⟩
  | origin, below => ⟨origin, below.dropLast⟩

/-- Where a component leads. -/
def step (place : Place) (component : String) : Place :=
  if staysPut component then place
  else if component == ".." then place.up
  else ⟨place.origin, place.below ++ [component]⟩

/-- Where a path starts. -/
def start (path : String) : Place := ⟨if isAbsolute path then .root else .above 0, []⟩

def ofPath (path : String) : Place := (components path).foldl step (start path)

/-- The first place is the second or a directory above it. -/
def isAtOrAbove (place place' : Place) : Bool :=
  place.origin == place'.origin && place.below.isPrefixOf place'.below

end Place

namespace Files

def file? (files : Files) (place : Place) : Option String :=
  (files.find? fun (path, _) => Place.ofPath path == place).map Prod.snd

/-- The origins of paths are directories, and so is every place above a file. -/
def isDirectory (files : Files) (place : Place) : Bool :=
  place.below.isEmpty || files.any fun (path, _) => place.isAtOrAbove (.ofPath path)

/-- Walks down a path from a directory. -/
def readFrom (files : Files) (path : String) (place : Place) :
    List String → Except FileFault String
  | [] => .error (.isDirectory path)
  | c :: cs =>
    let next := place.step c
    if staysPut c || c == ".." then readFrom files path next cs
    else
      match files.file? next with
      | some text => if cs.isEmpty then .ok text else .error (.notDirectory path)
      | none =>
        if files.isDirectory next then readFrom files path next cs else .error (.missing path)

def read (files : Files) (path : String) : Except FileFault String :=
  if path == "" then .error (.missing path)
  else files.readFrom path (.start path) (components path)

/-- A file may be listed by a path from the root, and another one above the working directory. -/
example : read [("/etc/a", "x"), ("../b", "y")] "//etc/./../etc/a" = .ok "x" ∧
    read [("/etc/a", "x"), ("../b", "y")] ".././b" = .ok "y" ∧
    read [("/etc/a", "x"), ("../b", "y")] "etc/a" = .error (.missing "etc/a") :=
  ⟨rfl, rfl, rfl⟩

end Files

end AlgebraBatch.CommandLine
