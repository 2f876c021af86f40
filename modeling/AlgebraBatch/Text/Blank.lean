/-!
# Blank characters

Three sets of blanks are in use. `isBlank` is what trimming removes from the ends of a text:
every white space character and the four information separators. `isPatternBlank` is what the
expression grammar skips between tokens; it lacks the separators and has U+180E. `isAsciiBlank` is
the white space of ASCII alone. `strip` and its one-sided forms trim a text.
-/

namespace AlgebraBatch.Text

/-- The blanks from U+0080 on that trimming and the grammar have in common. -/
def isWideBlank (c : Char) : Bool :=
  let n := c.toNat
  n == 0x85 || n == 0xa0 || n == 0x1680 || (0x2000 ≤ n && n ≤ 0x200a) || n == 0x2028 ||
    n == 0x2029 || n == 0x202f || n == 0x205f || n == 0x3000

/-- Space, tab, line feed, vertical tab, form feed and carriage return. -/
def isAsciiBlank (c : Char) : Bool :=
  c == ' ' || (9 ≤ c.toNat && c.toNat ≤ 13)

def isBlank (c : Char) : Bool :=
  isAsciiBlank c || (0x1c ≤ c.toNat && c.toNat ≤ 0x1f) || isWideBlank c

def isPatternBlank (c : Char) : Bool :=
  isAsciiBlank c || c.toNat == 0x180e || isWideBlank c

/-- Drops the characters of `p` from the end of a text. -/
def dropRightWhile (p : Char → Bool) (cs : List Char) : List Char :=
  (cs.reverse.dropWhile p).reverse

def stripLeft (cs : List Char) : List Char :=
  cs.dropWhile isBlank

def stripRight (cs : List Char) : List Char :=
  dropRightWhile isBlank cs

/-- A text without the blanks at its ends. -/
def strip (cs : List Char) : List Char :=
  stripRight (stripLeft cs)

end AlgebraBatch.Text
