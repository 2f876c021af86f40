import AlgebraBatch.Proofs.Syntax.WellFormed

/-!
# Printed texts with a pair of parentheses left out

`bared e` lists, for each operand of `e` that is printed in parentheses, the printed text of `e`
without this one pair. Each of them is the printed text with an opening and a closing parenthesis
taken out (`leavesOut_of_mem_bared`).
-/

namespace AlgebraBatch.Expr

/-- The texts between what stands before them and after them. -/
def inside (before after : List Char) (texts : List (List Char)) : List (List Char) :=
  texts.map fun cs => before ++ (cs ++ after)

/-- An operand with one pair of parentheses left out: the pair around it, if it has one, or one of
those within it. -/
def bareOperand (needed : Bool) (whole : List Char) (bares : List (List Char)) :
    List (List Char) :=
  (if needed then [whole] else []) ++ bares.map (bracket needed)

mutual

/-- The printed texts of an expression with one pair of parentheses left out. -/
def bared : Expr → List (List Char)
  | operation op l r =>
    inside [] (operatorText op ++ bracket (precedence r < rightMinimum op) (render r))
        (bareOperand (precedence l < leftMinimum op) (render l) (bared l)) ++
      inside (bracket (precedence l < leftMinimum op) (render l) ++ operatorText op) []
        (bareOperand (precedence r < rightMinimum op) (render r) (bared r))
  | prefixed op e =>
    inside (prefixText op) [] (bareOperand (precedence e < prefixPrecedence op) (render e) (bared e))
  | postfixed op e =>
    inside [] op.toList (bareOperand (precedence e < postfixPrecedence + 1) (render e) (bared e))
  | call head args =>
    inside [] ('(' :: (renderItems [','] args ++ [')'])) (bared head) ++
      inside (render head ++ ['(']) [')'] (baredItems [','] args)
  | indexed target indices =>
    inside [] ('[' :: (renderItems [','] indices ++ [']'])) (bared target) ++
      inside (render target ++ ['[']) [']'] (baredItems [','] indices)
  | conditional branches otherwise =>
    inside [] (renderOtherwise branches.isEmpty otherwise) (baredBranches true branches) ++
      inside (renderBranches true branches) [] (baredOtherwise branches.isEmpty otherwise)
  | list items => inside ['['] [']'] (baredItems [','] items)
  | set items => inside ['\x7b'] ['\x7d'] (baredItems [','] items)
  | root items => baredItems [',', ' '] items
  | _ => []

def baredItems (sep : List Char) : List Expr → List (List Char)
  | [] => []
  | [e] => bared e
  | e :: es =>
    inside [] (sep ++ renderItems sep es) (bared e) ++
      inside (render e ++ sep) [] (baredItems sep es)

def baredBranches (first : Bool) : List (Expr × Expr) → List (List Char)
  | [] => []
  | (c, v) :: bs =>
    let word := (if first then "if " else " elseif ").toList
    let condition := bracket (precedence c < conditionalPrecedence + 1) (render c)
    let value := bracket (precedence v < conditionalPrecedence + 1) (render v)
    inside word (" then ".toList ++ value ++ renderBranches false bs)
        (bareOperand (precedence c < conditionalPrecedence + 1) (render c) (bared c)) ++
      inside (word ++ condition ++ " then ".toList) (renderBranches false bs)
        (bareOperand (precedence v < conditionalPrecedence + 1) (render v) (bared v)) ++
      inside (word ++ condition ++ " then ".toList ++ value) [] (baredBranches false bs)

def baredOtherwise (first : Bool) : Option Expr → List (List Char)
  | none => []
  | some e => inside (if first then "else " else " else ").toList [] (bared e)

end

/-! ## What is left out -/

/-- The second text is the first one without an opening parenthesis and a closing one after it. -/
def LeavesOut (whole cs : List Char) : Prop :=
  ∃ a b c, whole = a ++ '(' :: (b ++ ')' :: c) ∧ cs = a ++ (b ++ c)

variable {whole cs : List Char}

theorem LeavesOut.within (h : LeavesOut whole cs) (before after : List Char) :
    LeavesOut (before ++ (whole ++ after)) (before ++ (cs ++ after)) := by
  obtain ⟨a, b, c, rfl, rfl⟩ := h
  refine ⟨before ++ a, b, c ++ after, ?_, ?_⟩ <;>
    simp only [List.append_assoc, List.cons_append]

theorem leavesOut_bracket (cs : List Char) : LeavesOut (bracket true cs) cs :=
  ⟨[], cs, [], rfl, (List.append_nil cs).symm⟩

theorem LeavesOut.bracket (h : LeavesOut whole cs) (needed : Bool) :
    LeavesOut (bracket needed whole) (bracket needed cs) := by
  cases needed with
  | false => exact h
  | true => exact h.within ['('] [')']

/-- There is an opening parenthesis less. -/
theorem LeavesOut.count_lt (h : LeavesOut whole cs) : cs.count '(' < whole.count '(' := by
  obtain ⟨a, b, c, rfl, rfl⟩ := h
  simp only [List.count_append, List.count_cons_self, List.count_cons_of_ne (a := '(') (b := ')')
    (by decide)]
  omega

theorem leavesOut_inside {text before after : List Char} {texts : List (List Char)}
    (h : ∀ cs ∈ texts, LeavesOut whole cs) (ht : text = before ++ (whole ++ after)) :
    ∀ cs ∈ inside before after texts, LeavesOut text cs := by
  subst ht
  exact List.forall_mem_map.2 fun cs hcs => (h cs hcs).within before after

theorem leavesOut_bareOperand {bares : List (List Char)} (h : ∀ cs ∈ bares, LeavesOut whole cs)
    (needed : Bool) : ∀ cs ∈ bareOperand needed whole bares, LeavesOut (bracket needed whole) cs := by
  refine List.forall_mem_append.2 ⟨?_, List.forall_mem_map.2 fun cs hcs => (h cs hcs).bracket needed⟩
  cases needed with
  | false => nofun
  | true => exact List.forall_mem_singleton.2 (leavesOut_bracket whole)

theorem leavesOut_baredItems {sep : List Char} {es : List Expr}
    (h : ∀ e ∈ es, ∀ cs ∈ bared e, LeavesOut (render e) cs) :
    ∀ cs ∈ baredItems sep es, LeavesOut (renderItems sep es) cs := by
  induction es with
  | nil => nofun
  | cons e es ih =>
    obtain ⟨he, hes⟩ := List.forall_mem_cons.1 h
    cases es with
    | nil => exact he
    | cons d ds =>
      refine List.forall_mem_append.2 ⟨leavesOut_inside he ?_, leavesOut_inside (ih hes) ?_⟩
      · rw [renderItems_cons (List.cons_ne_nil d ds), List.append_assoc, List.nil_append]
      · rw [renderItems_cons (List.cons_ne_nil d ds), List.append_nil]

theorem leavesOut_baredBranches {bs : List (Expr × Expr)}
    (h : ∀ b ∈ bs, (∀ cs ∈ bared b.1, LeavesOut (render b.1) cs) ∧
      ∀ cs ∈ bared b.2, LeavesOut (render b.2) cs) :
    ∀ first, ∀ cs ∈ baredBranches first bs, LeavesOut (renderBranches first bs) cs := by
  induction bs with
  | nil => exact fun _ => nofun
  | cons b bs ih =>
    obtain ⟨c, v⟩ := b
    obtain ⟨⟨hc, hv⟩, hbs⟩ := List.forall_mem_cons.1 h
    intro first
    refine List.forall_mem_append.2 ⟨List.forall_mem_append.2 ⟨?_, ?_⟩, ?_⟩
    · refine leavesOut_inside (leavesOut_bareOperand hc _) ?_
      simp only [renderBranches, List.append_assoc]
    · refine leavesOut_inside (leavesOut_bareOperand hv _) ?_
      simp only [renderBranches, List.append_assoc]
    · refine leavesOut_inside (ih hbs false) ?_
      simp only [renderBranches, List.append_assoc, List.append_nil]

/-- A bared text is the printed one without one pair of parentheses. -/
theorem leavesOut_of_mem_bared (e : Expr) : ∀ cs ∈ bared e, LeavesOut (render e) cs := by
  induction e using Expr.induction with
  | integer n => nofun
  | float x text => nofun
  | string s => nofun
  | boolean b => nofun
  | identifier name => nofun
  | operation op l r ihl ihr =>
    refine List.forall_mem_append.2 ⟨leavesOut_inside (leavesOut_bareOperand ihl _) ?_,
      leavesOut_inside (leavesOut_bareOperand ihr _) ?_⟩
    · rw [render, List.append_assoc, List.nil_append]
    · rw [render, List.append_nil]
  | prefixed op e ih =>
    refine leavesOut_inside (leavesOut_bareOperand ih _) ?_
    rw [render, List.append_nil]
  | postfixed op e ih => exact leavesOut_inside (leavesOut_bareOperand ih _) rfl
  | call head args ih iha =>
    refine List.forall_mem_append.2 ⟨leavesOut_inside ih rfl,
      leavesOut_inside (leavesOut_baredItems iha) ?_⟩
    rw [render, List.append_assoc]
    rfl
  | indexed target indices ih iha =>
    refine List.forall_mem_append.2 ⟨leavesOut_inside ih rfl,
      leavesOut_inside (leavesOut_baredItems iha) ?_⟩
    rw [render, List.append_assoc]
    rfl
  | conditional branches otherwise ihb iho =>
    refine List.forall_mem_append.2 ⟨leavesOut_inside (leavesOut_baredBranches ihb true) rfl, ?_⟩
    cases otherwise with
    | none => exact List.forall_mem_nil _
    | some e =>
      refine leavesOut_inside (leavesOut_inside (iho e rfl) rfl) ?_
      rw [render, renderOtherwise, List.append_nil, List.append_nil]
  | list items ih => exact leavesOut_inside (leavesOut_baredItems ih) rfl
  | set items ih => exact leavesOut_inside (leavesOut_baredItems ih) rfl
  | root items ih => exact leavesOut_baredItems ih

end AlgebraBatch.Expr
