import AlgebraBatch.Proofs.Peg.Termination
import AlgebraBatch.Proofs.Syntax.Depth

/-!
# The grammar of expressions ends on every text

Whatever the text is, no expression of the grammar is entered again at the place where it is still
being evaluated, no repetition goes on without reading something, and the recursion is as deep as
the text that is left and the rank of the rule allow (`grammar_terminates`).
-/

namespace AlgebraBatch.Syntax

open Peg

/-- What is tried while a text is read from its beginning. -/
def Tried (s : List Char) (A : Attempt Terminal Rule Tree) : Prop :=
  ∃ n, EntersN grammar n ⟨Reads.root, s⟩ A

/-- The grammar ends on every text. A step from an attempt to what is tried below it is a step of the
recursion, so to be entered below itself is to be entered again while being evaluated. -/
structure Terminates : Prop where
  /-- No left recursion, direct or indirect: what is entered again below itself, be it a rule or any
  part of one, has less left to read. -/
  reentered {s u u' : List Char} {α : Type} {p : Reads α} {n : Nat} :
    Tried s ⟨p, u⟩ → EntersN grammar (n + 1) ⟨p, u⟩ ⟨p, u'⟩ → u'.length < u.length
  /-- Among the rules that are entered below each other at one place the ranks fall. -/
  rank_falls {s u u' : List Char} {r r' : Rule} {n : Nat} :
    Tried s ⟨.rule r, u⟩ → EntersN grammar (n + 1) ⟨.rule r, u⟩ ⟨.rule r', u'⟩ →
      u'.length < u.length ∨ r'.rank < r.rank
  /-- The body of every repetition reads at least a character. -/
  advances : Reads.root.Advances grammar ∧ ∀ r, (grammar.body r).Advances grammar
  /-- Below a rule the recursion is bounded by what is left to read and the rank of the rule. -/
  depth_lt {s u : List Char} {r : Rule} {n : Nat} {A : Attempt Terminal Rule Tree} :
    Tried s ⟨.rule r, u⟩ → EntersN grammar n ⟨.rule r, u⟩ A →
      n < u.length * stride + (r.rank + 1) * (heightBound + 1)
  root_depth_lt {s : List Char} {n : Nat} {A : Attempt Terminal Rule Tree} :
    EntersN grammar n ⟨Reads.root, s⟩ A → n < depthBound s
  /-- The bound is enough to find out what the grammar reads, and more depth finds out the same. -/
  run_eq {s : List Char} {n : Nat} : depthBound s ≤ n →
    run grammar n Reads.root s ≠ .starved ∧
      run grammar n Reads.root s = run grammar (depthBound s) Reads.root s
  parseTree_eq {s : List Char} {t : Tree} :
    parseTree s = .ok t ↔ ∃ n, run grammar n Reads.root s = .done t []

/-- Whatever is tried keeps to the ranking. -/
theorem Tried.keeps {s : List Char} {A : Attempt Terminal Rule Tree} (h : Tried s A) :
    ∃ k, ranking.Keeps k A := by
  obtain ⟨n, h⟩ := h
  obtain ⟨k, hk, -, -⟩ := (keeps_root s).entersN h
  exact ⟨k, hk⟩

theorem grammar_terminates : Terminates where
  reentered h e := by
    obtain ⟨k, hk⟩ := h.keeps
    exact hk.length_lt Terminal.accept_suffix e
  rank_falls _ e := ranking.rank_lt_of_entersN e
  advances := ⟨ranking.advances (keeps_root []).guarded, fun r => ranking.advances (ranking.guarded r)⟩
  depth_lt _ e := ranking.lt_levels_of_entersN e
  root_depth_lt {s _ _} e := Nat.lt_of_lt_of_le ((keeps_root s).lt_cost e) (depth_root_le s)
  run_eq {s n} hn := by
    have hs : run grammar n Reads.root s = run grammar (depthBound s) Reads.root s :=
      run_of_le (run_root_ne_starved s) hn
    exact ⟨hs ▸ run_root_ne_starved s, hs⟩
  parseTree_eq := parseTree_eq_ok

end AlgebraBatch.Syntax
