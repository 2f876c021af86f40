import AlgebraBatch.Proofs.Peg.Depth
import AlgebraBatch.Proofs.Syntax.Terminal
import AlgebraBatch.Syntax.Parser

/-!
# Parsing always comes to an end

The grammar of expressions has a ranking, so `depthBound` is deep enough for every text. A text has
the syntax tree `t` exactly if the grammar reads `t` from it and leaves nothing.
-/

namespace AlgebraBatch.Syntax

open Peg

def ranking : Ranking grammar where
  solid := Terminal.isSolid
  rank := Rule.rank
  top := Rule.all.length
  tallest := heightBound
  accept_le h := (Terminal.accept_suffix h).length_le
  accept_lt ht h := Terminal.accept_shorter ht h
  rank_lt r := by cases r <;> decide
  guarded r := by cases r <;> rfl
  height_le r := by cases r <;> decide

theorem height_root_le : Reads.root.height ≤ heightBound + 1 := by
  decide

theorem keeps_root (s : List Char) : ranking.Keeps ranking.top ⟨Reads.root, s⟩ :=
  ⟨rfl, height_root_le, Nat.le_refl _⟩

theorem depth_root_le (s : List Char) :
    ranking.depth s Rule.all.length Reads.root.height ≤ depthBound s := by
  have h : Rule.all.length * (heightBound + 1) + Reads.root.height ≤ ranking.stride := by decide
  have hs : ranking.stride = stride := rfl
  change s.length * ranking.stride + Rule.all.length * (heightBound + 1) + Reads.root.height ≤ _
  rw [depthBound, Nat.add_mul, Nat.one_mul, ← hs]
  omega

/-- The depth that the parser allows is never too small. -/
theorem run_root_ne_starved (s : List Char) :
    run grammar (depthBound s) Reads.root s ≠ .starved :=
  (keeps_root s).run_ne_starved (depth_root_le s)

theorem yields_root_iff {s s' : List Char} {t : Tree} :
    Yields grammar Reads.root s t s' ↔ run grammar (depthBound s) Reads.root s = .done t s' :=
  ⟨fun h => run_of_yields h (run_root_ne_starved s), fun h => ⟨_, h⟩⟩

theorem parseTree_eq_ok {s : List Char} {t : Tree} :
    parseTree s = .ok t ↔ Yields grammar Reads.root s t [] := by
  rw [yields_root_iff, parseTree]
  cases run grammar (depthBound s) Reads.root s with
  | done u r =>
    cases r with
    | nil => simp
    | cons c r => simp
  | fail => simp
  | starved => simp

theorem parse_eq_ok {text : String} {t : Tree} :
    parse text = .ok t ↔ Yields grammar Reads.root text.toList t [] ∧ t.overlong? = none := by
  rw [← parseTree_eq_ok, parse]
  constructor
  · intro h
    split at h
    · cases h
    · next u hu =>
      split at h
      · cases h
      · next ho => cases h; exact ⟨hu, ho⟩
  · rintro ⟨h, ho⟩
    rw [h]
    simp only [ho]

theorem parseExpr_eq_ok {text : String} {e : Expr} :
    parseExpr text = .ok e ↔
      ∃ t, Yields grammar Reads.root text.toList t [] ∧ t.overlong? = none ∧ t.expr = e := by
  rw [parseExpr]
  constructor
  · intro h
    cases hp : parse text with
    | error f => rw [hp] at h; cases h
    | ok t =>
      rw [hp] at h
      obtain ⟨hy, ho⟩ := parse_eq_ok.1 hp
      exact ⟨t, hy, ho, Except.ok.inj h⟩
  · rintro ⟨t, hy, ho, rfl⟩
    rw [parse_eq_ok.2 ⟨hy, ho⟩]
    rfl

end AlgebraBatch.Syntax
