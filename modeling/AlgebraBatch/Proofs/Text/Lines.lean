import AlgebraBatch.Text.Lines
import Mathlib.Data.List.DropRight

/-!
# Lines and columns

`IsPlace` says which line and which column an offset has: a line begins after each line feed, and
nothing else ends one. `lineColumn` finds both in one pass (`lineColumn_eq`).
-/

namespace AlgebraBatch.Text

/-- The line and the column of an offset, both counted from 1. -/
structure IsPlace (text : List Char) (offset : Nat) (place : Nat × Nat) : Prop where
  offset_le : offset ≤ text.length
  line : place.1 = (text.take offset).count '\n' + 1
  column : place.2 = ((text.take offset).rtakeWhile (· != '\n')).length + 1

theorem lineColumn_concat (before : List Char) (c : Char) : lineColumn (before ++ [c]) =
    if c == '\n' then ((lineColumn before).1 + 1, 1)
    else ((lineColumn before).1, (lineColumn before).2 + 1) := by
  rw [lineColumn, List.foldl_append]
  rfl

theorem lineColumn_eq (before : List Char) :
    lineColumn before = (before.count '\n' + 1, (before.rtakeWhile (· != '\n')).length + 1) := by
  induction before using List.reverseRecOn with
  | nil => rfl
  | append_singleton before c ih =>
    rw [lineColumn_concat, ih, List.count_append, List.rtakeWhile_concat]
    by_cases hc : c = '\n'
    · subst hc
      rfl
    · have hne : (c != '\n') = true := bne_iff_ne.2 hc
      rw [if_neg (mt beq_iff_eq.1 hc), if_pos hne, List.length_append,
        List.count_singleton, if_neg (mt beq_iff_eq.1 hc)]
      rfl

theorem isPlace_lineColumn {text : List Char} {offset : Nat} (h : offset ≤ text.length) :
    IsPlace text offset (lineColumn (text.take offset)) := by
  rw [lineColumn_eq]
  exact ⟨h, rfl, rfl⟩

/-! ## Texts of one line -/

theorem unifyNewlines_of_not_mem {cs : List Char} (h : '\r' ∉ cs) : unifyNewlines cs = cs := by
  fun_induction unifyNewlines cs with
  | case1 => rfl
  | case2 cs _ => exact absurd List.mem_cons_self h
  | case3 c cs _ ih =>
    obtain ⟨hc, hcs⟩ := not_or.1 (mt List.mem_cons.2 h)
    rw [ih hcs, if_neg (mt beq_iff_eq.1 (Ne.symm hc))]

theorem splitLines_of_forall {cs : List Char} (hne : cs ≠ [])
    (h : ∀ c ∈ cs, isLineBreak c = false) : splitLines cs = [cs] := by
  fun_induction splitLines cs with
  | case1 => exact absurd rfl hne
  | case2 cs _ => cases h '\r' List.mem_cons_self
  | case3 c cs _ hc => cases hc.symm.trans (h c List.mem_cons_self)
  | case4 c cs _ hc hs ih =>
    cases cs with
    | nil => rfl
    | cons d cs =>
      rw [ih (List.cons_ne_nil d cs) fun e he => h e (List.mem_cons_of_mem _ he)] at hs
      cases hs
  | case5 c cs _ hc line lines hs ih =>
    have hcs : cs ≠ [] := by
      rintro rfl
      cases hs
    rw [ih hcs fun e he => h e (List.mem_cons_of_mem _ he)] at hs
    cases hs
    rfl

end AlgebraBatch.Text
