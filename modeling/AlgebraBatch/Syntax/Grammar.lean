import AlgebraBatch.Syntax.Terminal
import AlgebraBatch.Syntax.Tree

/-!
# The grammar of expressions

Precedence, loosest first: `:` and `:=`, `or`, `and`, `not`, the relations, `+` and `-`, `*` and
`/`, the signs and quotes before an operand, the product `.`, the powers, and `!`. Assignments and
powers group to the right, everything else to the left. A conditional is a primary expression whose
branches reach as far as they can. Blanks may stand between tokens, except before the opening
bracket of a call or a subscript and before `!`.

A rule is entered at the place where another one began only if its rank is smaller; so the depth of
a parse is bounded by `depthBound`.
-/

namespace AlgebraBatch.Syntax

inductive Rule where
  | assignment
  | disjunction
  | conjunction
  | negation
  | relation
  | sum
  | product
  | signed
  | dotProduct
  | exponent
  | power
  | factorial
  | primary
  deriving DecidableEq, Repr

namespace Rule

def all : List Rule :=
  [assignment, disjunction, conjunction, negation, relation, sum, product, signed, dotProduct,
    exponent, power, factorial, primary]

/-- A rule's place in the order in which rules may be entered without reading anything. -/
def rank : Rule → Nat
  | assignment => 12
  | disjunction => 11
  | conjunction => 10
  | negation => 9
  | relation => 8
  | sum => 7
  | product => 6
  | signed => 5
  | dotProduct => 4
  | exponent => 3
  | power => 2
  | factorial => 1
  | primary => 0

end Rule

/-- A parsing expression of this grammar. -/
abbrev Reads (α : Type) : Type 1 := Peg Terminal Rule Tree α

namespace Reads

def blanks : Reads Piece := .token (.pattern .blanks)

def one (p : Pattern) : Reads Piece := .token (.pattern p)

def char (c : Char) : Reads Piece := .token (.literal c)

/-- `a` and then `b`, of which the second counts. -/
def skip {α β : Type} (a : Reads α) (b : Reads β) : Reads β :=
  .map Prod.snd (.seq a b)

/-- `a` and then `b`, of which the first counts. -/
def keep {α β : Type} (a : Reads α) (b : Reads β) : Reads α :=
  .map Prod.fst (.seq a b)

/-- Blanks and then `a`. -/
def spaced {α : Type} (a : Reads α) : Reads α := skip blanks a

/-- An operator and the operand after it. -/
def continued (op : Pattern) (operand : Rule) : Reads (Piece × Tree) :=
  spaced (.seq (one op) (spaced (.rule operand)))

/-- Operands of one level with operators between them, grouped to the left. -/
def leftChain (op : Pattern) (operand : Rule) : Reads Tree :=
  .map (fun (first, more) => more.foldl (fun l (o, r) => .binary o l r) first)
    (.seq (.rule operand) (.many (continued op operand)))

/-- An operand and, after an operator, a chain to its right. -/
def rightChain (op : Pattern) (operand chain : Rule) : Reads Tree :=
  .map (fun (first, more) => more.elim first fun (o, r) => .binary o first r)
    (.seq (.rule operand) (.optional (continued op chain)))

/-- An operator before its operand. -/
def prefixed (op : Pattern) (operand : Rule) : Reads Tree :=
  .map (fun (span, o, t) => .unary span o t)
    (.spanned (.seq (one op) (spaced (.rule operand))))

def atom (kind : AtomKind) (p : Pattern) : Reads Tree :=
  .map (.atom kind) (one p)

/-- Expressions with commas between them, possibly none. -/
def items : Reads (List Tree) :=
  .map (·.elim [] fun (first, more) => first :: more)
    (.optional (.seq (.rule .assignment)
      (.many (spaced (skip (char ',') (spaced (.rule .assignment)))))))

def enclosed (opening closing : Char) : Reads (List Tree) :=
  skip (char opening) (spaced (keep items (spaced (char closing))))

def group : Reads Tree :=
  skip (char '(') (spaced (keep (.rule .assignment) (spaced (char ')'))))

/-- A condition, the word `then` and a value. -/
def branch : Reads (Tree × Tree) :=
  .seq (spaced (.rule .assignment)) (spaced (skip (one .thenWord) (spaced (.rule .assignment))))

def conditional : Reads Tree :=
  .map (fun (span, first, more, otherwise) => .conditional span first more otherwise)
    (.spanned (.seq (skip (one .ifWord) branch)
      (.seq (.many (spaced (skip (one .elseifWord) branch)))
        (.optional (spaced (skip (one .elseWord) (spaced (.rule .assignment))))))))

def call : Reads Tree :=
  .map (fun (span, head, args) => .call span head args)
    (.spanned (.seq (one .identifier) (enclosed '(' ')')))

def indexed : Reads Tree :=
  .map (fun (span, head, indices) => .indexed span head indices)
    (.spanned (.seq (one .identifier) (enclosed '[' ']')))

def list : Reads Tree :=
  .map (fun (span, items) => .list span items) (.spanned (enclosed '[' ']'))

def set : Reads Tree :=
  .map (fun (span, items) => .set span items) (.spanned (enclosed '\x7b' '\x7d'))

/-- A primary expression and an exclamation mark, if there is one. -/
def factorial : Reads Tree :=
  .map (fun (span, t, bang) => bang.elim t fun _ => .factorial span t)
    (.spanned (.seq (.rule .primary) (.optional (char '!'))))

def primary : Reads Tree :=
  .orElse (atom .float .float) <|
  .orElse (atom .integer .integer) <|
  .orElse (atom .string .string) <|
  .orElse (atom .boolean .boolean) <|
  .orElse conditional <|
  .orElse call <|
  .orElse indexed <|
  .orElse (atom .identifier .identifier) <|
  .orElse list <|
  .orElse set group

/-- What a rule reads. An exponent may have a sign of its own, but no `.` product. -/
def body : Rule → Reads Tree
  | .assignment => rightChain .assignment .disjunction .assignment
  | .disjunction => leftChain .orWord .conjunction
  | .conjunction => leftChain .andWord .negation
  | .negation => .orElse (prefixed .notWord .negation) (.rule .relation)
  | .relation => leftChain .relation .sum
  | .sum => leftChain .addition .product
  | .product => leftChain .multiplication .signed
  | .signed => .orElse (prefixed .sign .signed) (.rule .dotProduct)
  | .dotProduct => leftChain .dot .power
  | .exponent => .orElse (prefixed .sign .exponent) (.rule .power)
  | .power => rightChain .power .factorial .exponent
  | .factorial => factorial
  | .primary => primary

/-- A whole text: one expression between blanks. -/
def root : Reads Tree :=
  spaced (keep (.rule .assignment) blanks)

end Reads

def grammar : Grammar Terminal Rule Tree where
  accept := Terminal.accept
  body := Reads.body

/-- The greatest height of the parsing expression of a rule. -/
def heightBound : Nat := 32

/-- How deep the recursion may go before something is read. -/
def stride : Nat := (Rule.all.length + 1) * (heightBound + 1)

/-- A bound on the depth of the recursion for a text. -/
def depthBound (s : List Char) : Nat := (s.length + 1) * stride

end AlgebraBatch.Syntax
