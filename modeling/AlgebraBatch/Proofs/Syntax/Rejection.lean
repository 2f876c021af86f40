import AlgebraBatch.Batch.Statement
import AlgebraBatch.Proofs.Peg.Misses
import AlgebraBatch.Proofs.Syntax.Depth
import AlgebraBatch.Proofs.Syntax.Message
import AlgebraBatch.Proofs.Text.Lines
import Mathlib

/-!
# Where a rejected text stops

`StopsAt text offset` says, by what the grammar reads and refuses, where a text stops being an
expression: behind the expression that it begins with, or at the furthest place at which a terminal
is refused if it begins with none. The syntax error for a rejected text has the line and the column
of this offset (`parseSource_stopsAt`).
-/

namespace AlgebraBatch.Syntax

open AlgebraBatch.Text Peg

variable {s : List Char} {why : Rejection}

/-- The offsets at which a terminal is tried while the text is read, and refused. -/
def refusals (s : List Char) : Set Nat :=
  {offset | offset ≤ s.length ∧ ∃ t, Fails grammar Reads.root s t (s.drop offset)}

/-- Behind the expression that the text begins with, if something is left over; or else at the
furthest offset at which a terminal is refused. -/
inductive StopsAt (s : List Char) : Nat → Prop where
  | behind {before rest : List Char} {t : Tree} : s = before ++ rest → rest ≠ [] →
      Yields grammar Reads.root s t rest → StopsAt s before.length
  | refused {offset : Nat} : Refuses grammar Reads.root s → IsGreatest (refusals s) offset →
      StopsAt s offset

theorem left_ofMisses (ms : List (Miss Terminal)) :
    (Rejection.ofMisses ms).left = (furthest ms).head?.elim 0 (·.left) := by
  simp only [Rejection.ofMisses]
  split
  · rfl
  · rfl

theorem stopsAt_leftover {t : Tree} {rest : List Char} (h : Yields grammar Reads.root s t rest)
    (hrest : rest ≠ []) : StopsAt s (s.length - rest.length) := by
  obtain ⟨before, hs⟩ := h.suffix Terminal.accept_suffix
  have hlength : s.length - rest.length = before.length := by
    rw [← hs, List.length_append, Nat.add_sub_cancel]
  rw [hlength]
  exact .behind hs.symm hrest h

/-- What is refused the least number of characters before the end is refused at the furthest offset. -/
theorem isGreatest_refusals (h : Refuses grammar Reads.root s) :
    IsGreatest (refusals s) ((Rejection.ofMisses
      (misses grammar (depthBound s) Reads.root s)).offset s) := by
  have hdeep := run_root_ne_starved s
  have hne : misses grammar (depthBound s) Reads.root s ≠ [] := by
    obtain ⟨t, u, hu⟩ := exists_fails h
    exact List.ne_nil_of_mem (mem_misses_of_fails hu hdeep)
  obtain ⟨⟨m, hm, hleft⟩, hle⟩ := isLeast_left_furthest hne
  rw [Rejection.offset, left_ofMisses]
  constructor
  · obtain ⟨u, hu, hlength⟩ := (mem_misses_iff hdeep).1 hm
    rw [← hleft, hlength]
    refine ⟨Nat.sub_le _ _, m.token, ?_⟩
    rwa [← List.suffix_iff_eq_drop.1 (hu.suffix Terminal.accept_suffix)]
  · rintro offset ⟨hoffset, t, ht⟩
    have hleast := hle ⟨_, mem_misses_of_fails ht hdeep, rfl⟩
    simp only [List.length_drop] at hleast
    omega

theorem stopsAt_of_parseTree (h : parseTree s = .error why) : StopsAt s (why.offset s) := by
  unfold parseTree at h
  split at h
  · cases h
  · next t rest hrest hrun =>
    cases h
    exact stopsAt_leftover ⟨_, hrun⟩ hrest
  · next hdone hnone =>
    cases h
    cases hrun : run grammar (depthBound s) Reads.root s with
    | done t rest => exact absurd hrun (hnone t rest)
    | fail => exact .refused ⟨_, hrun⟩ (isGreatest_refusals ⟨_, hrun⟩)
    | starved => exact absurd hrun (run_root_ne_starved s)

/-- A text that the grammar does not accept is a syntax error with the place at which the text stops
being an expression. -/
theorem parseSource_stopsAt {text : String}
    (h : ¬ ∃ t, Yields grammar Reads.root text.toList t []) :
    ∃ message place offset,
      Statement.parseSource (.str text) = .error (.syntaxError message (some place)) ∧
        IsPlace text.toList offset place ∧ StopsAt text.toList offset := by
  cases hp : parseTree text.toList with
  | ok t => exact absurd ⟨t, parseTree_eq_ok.1 hp⟩ h
  | error why =>
    refine ⟨why.message text.toList, positionAt text.toList (why.offset text.toList),
      why.offset text.toList, ?_, ?_, stopsAt_of_parseTree hp⟩
    · rw [Statement.parseSource, parseExpr, parse, hp, ← findPlace?_message]
      rfl
    · exact isPlace_lineColumn (Nat.sub_le _ _)

/-- The expression is followed by words that look like a place. -/
def misleadingText : String := "f(x)\nat L9:C9"

theorem parseTree_misleadingText : parseTree misleadingText.toList = .error (.leftover 8) := by
  unfold misleadingText
  rw [String.toList_ofList]
  cbv

theorem stopsAt_misleadingText :
    (¬ ∃ t, Yields grammar Reads.root misleadingText.toList t []) ∧
      ∃ message place offset,
        Statement.parseSource (.str misleadingText) = .error (.syntaxError message (some place)) ∧
          IsPlace misleadingText.toList offset place ∧ StopsAt misleadingText.toList offset := by
  have hrejected : ¬ ∃ t, Yields grammar Reads.root misleadingText.toList t [] := by
    rintro ⟨t, ht⟩
    cases (parseTree_eq_ok.2 ht).symm.trans parseTree_misleadingText
  exact ⟨hrejected, parseSource_stopsAt hrejected⟩

end AlgebraBatch.Syntax
