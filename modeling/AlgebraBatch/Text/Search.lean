/-!
# Searching a text

`splitAtFirst? needle text` is the text before and after the first occurrence of `needle`.
`joinWith` puts a separator between texts.
-/

namespace AlgebraBatch.Text

/-- The text before and after the first occurrence of `needle`, if there is one. -/
def splitAtFirst? (needle : List Char) : List Char → Option (List Char × List Char)
  | [] => if needle.isEmpty then some ([], []) else none
  | c :: cs =>
    if needle.isPrefixOf (c :: cs) then some ([], (c :: cs).drop needle.length)
    else (splitAtFirst? needle cs).map fun (before, after) => (c :: before, after)

def contains (needle text : List Char) : Bool :=
  (splitAtFirst? needle text).isSome

/-- The texts in order with `sep` between them. -/
def joinWith (sep : String) : List String → String
  | [] => ""
  | [t] => t
  | t :: ts => t ++ sep ++ joinWith sep ts

/-- The first `n` characters. -/
def takeFirst (n : Nat) (text : String) : String :=
  String.ofList (text.toList.take n)

/-- The last `n` characters. -/
def takeLast (n : Nat) (text : String) : String :=
  let cs := text.toList
  String.ofList (cs.drop (cs.length - n))

end AlgebraBatch.Text
