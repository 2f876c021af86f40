/-!
# Parsing expressions

A parsing expression over tokens `τ` and rules `ρ` reads the beginning of a text. Choice is ordered:
`orElse a b` tries `b` only where `a` fails. `optional` and `many` take what they can and never give
it back. `rule r` reads what the grammar says for `r`; every rule yields a value of the type `ν`.

`run` reads with an explicit bound on the depth of the recursion and says `starved` when the bound
is too small. `misses` lists the tokens that are refused on the way, in the order in which they are
tried. A place in the text is known by the number of characters from it to the end, so that it does
not depend on what stands before.
-/

namespace AlgebraBatch

/-- A stretch of the text: its characters, and how many characters there are from its beginning to
the end of the text. -/
structure Piece where
  left : Nat
  text : String
  deriving DecidableEq, Repr, Inhabited

/-- The stretch from `start` to `stop`, where `stop` is what is left of `start` after it. -/
def Piece.between (start stop : List Char) : Piece :=
  ⟨start.length, String.ofList (start.take (start.length - stop.length))⟩

inductive Peg (τ ρ ν : Type) : Type → Type 1 where
  | token (t : τ) : Peg τ ρ ν Piece
  | rule (r : ρ) : Peg τ ρ ν ν
  | seq {α β : Type} (a : Peg τ ρ ν α) (b : Peg τ ρ ν β) : Peg τ ρ ν (α × β)
  | orElse {α : Type} (a b : Peg τ ρ ν α) : Peg τ ρ ν α
  | optional {α : Type} (a : Peg τ ρ ν α) : Peg τ ρ ν (Option α)
  | many {α : Type} (a : Peg τ ρ ν α) : Peg τ ρ ν (List α)
  | map {α β : Type} (f : α → β) (a : Peg τ ρ ν α) : Peg τ ρ ν β
  | spanned {α : Type} (a : Peg τ ρ ν α) : Peg τ ρ ν (Piece × α)

/-- What a token matches at the beginning of a text: the rest of the text after it. -/
structure Grammar (τ ρ ν : Type) where
  accept : τ → List Char → Option (List Char)
  body : ρ → Peg τ ρ ν ν

namespace Peg

/-- How deep a parsing expression is nested, rules not opened. -/
def height {τ ρ ν α : Type} : Peg τ ρ ν α → Nat
  | .token _ => 1
  | .rule _ => 1
  | .seq a b => max a.height b.height + 1
  | .orElse a b => max a.height b.height + 1
  | .optional a => a.height + 1
  | .many a => a.height + 1
  | .map _ a => a.height + 1
  | .spanned a => a.height + 1

inductive Outcome (α : Type) where
  | done (value : α) (rest : List Char)
  | fail
  | starved
  deriving Repr

/-- A token that is refused, and the number of characters from there to the end. -/
structure Miss (τ : Type) where
  left : Nat
  token : τ
  deriving DecidableEq, Repr

variable {τ ρ ν : Type}

/-- Reads the beginning of a text. -/
def run (g : Grammar τ ρ ν) : Nat → {α : Type} → Peg τ ρ ν α → List Char → Outcome α
  | 0, _, _, _ => .starved
  | _ + 1, _, .token t, s =>
    match g.accept t s with
    | some rest => .done (.between s rest) rest
    | none => .fail
  | n + 1, _, .rule r, s => run g n (g.body r) s
  | n + 1, _, .seq a b, s =>
    match run g n a s with
    | .done x s' =>
      match run g n b s' with
      | .done y s'' => .done (x, y) s''
      | .fail => .fail
      | .starved => .starved
    | .fail => .fail
    | .starved => .starved
  | n + 1, _, .orElse a b, s =>
    match run g n a s with
    | .done x s' => .done x s'
    | .fail => run g n b s
    | .starved => .starved
  | n + 1, _, .optional a, s =>
    match run g n a s with
    | .done x s' => .done (some x) s'
    | .fail => .done none s
    | .starved => .starved
  | n + 1, _, .many a, s =>
    match run g n a s with
    | .done x s' =>
      match run g n (.many a) s' with
      | .done xs s'' => .done (x :: xs) s''
      | .fail => .fail
      | .starved => .starved
    | .fail => .done [] s
    | .starved => .starved
  | n + 1, _, .map f a, s =>
    match run g n a s with
    | .done x s' => .done (f x) s'
    | .fail => .fail
    | .starved => .starved
  | n + 1, _, .spanned a, s =>
    match run g n a s with
    | .done x s' => .done (.between s s', x) s'
    | .fail => .fail
    | .starved => .starved

/-- The tokens refused while reading the beginning of a text. -/
def misses (g : Grammar τ ρ ν) : Nat → {α : Type} → Peg τ ρ ν α → List Char → List (Miss τ)
  | 0, _, _, _ => []
  | _ + 1, _, .token t, s => if (g.accept t s).isSome then [] else [⟨s.length, t⟩]
  | n + 1, _, .rule r, s => misses g n (g.body r) s
  | n + 1, _, .seq a b, s =>
    misses g n a s ++
      match run g n a s with
      | .done _ s' => misses g n b s'
      | _ => []
  | n + 1, _, .orElse a b, s =>
    misses g n a s ++
      match run g n a s with
      | .fail => misses g n b s
      | _ => []
  | n + 1, _, .optional a, s => misses g n a s
  | n + 1, _, .many a, s =>
    misses g n a s ++
      match run g n a s with
      | .done _ s' => misses g n (.many a) s'
      | _ => []
  | n + 1, _, .map _ a, s => misses g n a s
  | n + 1, _, .spanned a, s => misses g n a s

/-- The refused tokens at the furthest place, in the order in which they were tried. -/
def furthest (ms : List (Miss τ)) : List (Miss τ) :=
  let least := ms.foldl (fun n m => min n m.left) (ms.head?.elim 0 (·.left))
  ms.filter (·.left == least)

end Peg

end AlgebraBatch
