import AlgebraBatch.Proofs.Syntax.Layout
import AlgebraBatch.Proofs.Text.Lines
import Mathlib

/-!
# Places of nodes

The nodes of a syntax tree are the nodes of its expression in the order of `Expr.walk`
(`walk_root`), and each of them has the line and the column of an offset in the text. There stands
the operator of an infix operation, and the text of any other node, in which all nodes below it
begin. In this order the texts of the atoms advance through the text (`nodes_located`).
-/

namespace AlgebraBatch

/-- Numbers, strings, truth values and names. -/
def Expr.isAtom : Expr → Bool
  | integer _ => true
  | float .. => true
  | string _ => true
  | boolean _ => true
  | identifier _ => true
  | _ => false

namespace Syntax

open AlgebraBatch.Text Peg

/-! ## Nodes of the expression -/

namespace Tree

mutual

theorem map_expr_nodes : ∀ t : Tree, t.nodes.map expr = t.expr.walk
  | atom k p => by cases k <;> rfl
  | binary op l r => by
    simp only [nodes, expr, Expr.walk, List.map_cons, List.map_append, map_expr_nodes l,
      map_expr_nodes r]
  | unary span op t => by simp only [nodes, expr, Expr.walk, List.map_cons, map_expr_nodes t]
  | factorial span t => by simp only [nodes, expr, Expr.walk, List.map_cons, map_expr_nodes t]
  | call span head args => by
    simp only [nodes, expr, Expr.walk, List.map_cons, map_expr_nodesItems args, AtomKind.expr,
      List.singleton_append]
  | indexed span head indices => by
    simp only [nodes, expr, Expr.walk, List.map_cons, map_expr_nodesItems indices, AtomKind.expr,
      List.singleton_append]
  | conditional span (c, v) more otherwise => by
    simp only [nodes, expr, Expr.walk, Expr.walkBranches, List.map_cons, List.map_append,
      map_expr_nodes c, map_expr_nodes v, map_expr_nodesBranches more,
      map_expr_nodesOption otherwise]
  | list span items => by
    simp only [nodes, expr, Expr.walk, List.map_cons, map_expr_nodesItems items]
  | set span items => by
    simp only [nodes, expr, Expr.walk, List.map_cons, map_expr_nodesItems items]

theorem map_expr_nodesItems : ∀ ts : List Tree,
    (nodesItems ts).map expr = Expr.walkItems (exprItems ts)
  | [] => rfl
  | t :: ts => by
    simp only [nodesItems, exprItems, Expr.walkItems, List.map_append, map_expr_nodes t,
      map_expr_nodesItems ts]

theorem map_expr_nodesBranches : ∀ bs : List (Tree × Tree),
    (nodesBranches bs).map expr = Expr.walkBranches (exprBranches bs)
  | [] => rfl
  | (c, v) :: bs => by
    simp only [nodesBranches, exprBranches, Expr.walkBranches, List.map_append, map_expr_nodes c,
      map_expr_nodes v, map_expr_nodesBranches bs]

theorem map_expr_nodesOption : ∀ o : Option Tree,
    (nodesOption o).map expr = Expr.walkOption (exprOption o)
  | none => rfl
  | some t => by simp only [nodesOption, exprOption, Expr.walkOption, map_expr_nodes t]

end

theorem walk_root (t : Tree) :
    (Expr.root [t.expr]).walk = .root [t.expr] :: t.nodes.map expr := by
  rw [map_expr_nodes]
  simp only [Expr.walk, Expr.walkItems, List.append_nil]

/-! ## Offsets -/

/-- The offset in the text that a node has its place from. -/
def offset (text : List Char) (n : Tree) : Nat := text.length - n.mark.left

/-- The offset behind the text of a node. -/
def stop (text : List Char) (n : Tree) : Nat :=
  n.offset text + n.mark.text.elim 0 String.length

theorem mark_left (n : Tree) : n.mark.left = n.piece.left := by
  cases n <;> rfl

theorem mark_text {n : Tree} (h : n.isInfix = false) : n.mark.text = some n.piece.text := by
  cases n <;> first | rfl | cases h

end Tree

open AlgebraBatch.Syntax.Tree

/-- The ways in which an operator is written. -/
def spellingsOf (op : String) : List String :=
  if op == "^" then ["**", "^"] else [op]

/-- The place of a node in the text. -/
structure Located (text : List Char) (n : Tree) : Prop where
  place : IsPlace text (n.offset text) (positionAt text (n.offset text))
  operator : ∀ {op l r}, n.expr = .operation op l r →
    ∃ w ∈ spellingsOf op, w.toList <+: text.drop (n.offset text)
  slice : (∀ op l r, n.expr ≠ .operation op l r) →
    ∃ w, n.mark.text = some w ∧ w.toList <+: text.drop (n.offset text) ∧
      ∀ d ∈ n.nodes, n.offset text ≤ d.offset text ∧ d.offset text < n.offset text + w.length

variable {s : List Char} {n t : Tree}

theorem mem_spellingsOf (w : String) : w ∈ spellingsOf (operatorName w) := by
  unfold operatorName
  split
  · next h =>
    rw [beq_iff_eq.1 h]
    exact List.mem_cons_self
  · unfold spellingsOf
    split
    · next h =>
      rw [beq_iff_eq.1 h]
      exact List.mem_cons_of_mem _ List.mem_cons_self
    · exact List.mem_singleton_self w

theorem isInfix_or_ne (n : Tree) :
    (∃ op l r, n = .binary op l r) ∨ n.isInfix = false ∧ ∀ op l r, n.expr ≠ .operation op l r := by
  cases n with
  | binary op l r => exact .inl ⟨op, l, r, rfl⟩
  | atom k p => exact .inr ⟨rfl, by cases k <;> nofun⟩
  | unary span op t => exact .inr ⟨rfl, nofun⟩
  | factorial span t => exact .inr ⟨rfl, nofun⟩
  | call span head args => exact .inr ⟨rfl, nofun⟩
  | indexed span head indices => exact .inr ⟨rfl, nofun⟩
  | conditional span first more otherwise => exact .inr ⟨rfl, nofun⟩
  | list span items => exact .inr ⟨rfl, nofun⟩
  | set span items => exact .inr ⟨rfl, nofun⟩

theorem isAtom_expr (n : Tree) : n.expr.isAtom = n.isAtom := by
  cases n with
  | atom k p => cases k <;> rfl
  | _ => rfl

theorem located_of_lies (h : Lies s [] n) : Located s n := by
  obtain @⟨u, v, hu, hv, -, -, hp, -, hd⟩ := h
  have hoffset : n.offset s = s.length - u.length := by
    rw [offset, mark_left, hp]
    rfl
  have hstands : n.piece.text.toList <+: s.drop (n.offset s) := by
    rw [hp, hoffset, ← List.suffix_iff_eq_drop.1 hu]
    exact text_between_prefix hv
  refine ⟨isPlace_lineColumn (Nat.sub_le _ _), ?_, ?_⟩
  · intro op l r he
    rcases isInfix_or_ne n with ⟨o, a, b, rfl⟩ | ⟨-, hne⟩
    · cases he
      exact ⟨_, mem_spellingsOf o.text, hstands⟩
    · exact absurd he (hne op l r)
  · intro hne
    rcases isInfix_or_ne n with ⟨o, a, b, rfl⟩ | ⟨hplain, -⟩
    · exact absurd rfl (hne _ _ _)
    · refine ⟨n.piece.text, mark_text hplain, hstands, fun d hmem => ?_⟩
      obtain ⟨hbehind, hbefore⟩ := hd hplain d hmem
      have hlength : n.piece.text.length + v.length = u.length := hp ▸ length_text_between hv
      have := hu.length_le
      rw [hoffset, offset, mark_left]
      omega

/-- One atom behind another one begins behind its end. -/
theorem advances_of_precedes {a b : Tree} (ha : Lies s [] a) (hb : Lies s [] b)
    (hatom : a.isAtom = true) (h : Precedes a b) :
    a.offset s < b.offset s ∧ a.stop s ≤ b.offset s := by
  have hplain : a.isInfix = false := by
    cases a <;> first | rfl | cases hatom
  have hlast := hb.begins
  have hfirst := ha.begins
  obtain @⟨u, v, -, hv, -, hlt, hp, -, -⟩ := ha
  have hlength : a.piece.text.length + v.length = u.length := hp ▸ length_text_between hv
  unfold Precedes at h
  rw [stop, mark_text hplain, offset, offset, mark_left, mark_left]
  simp only [Option.elim_some]
  omega

/-- The nodes of an accepted text are those of its expression, each of them is at its place, and the
atoms are in the order of the text. -/
theorem nodes_located {text : String} (h : parse text = .ok t) :
    (Expr.root [t.expr]).walk = .root [t.expr] :: t.nodes.map expr ∧
      (∀ n ∈ t.nodes, Located text.toList n) ∧
      (t.nodes.filter (·.expr.isAtom)).Pairwise fun a b =>
        a.offset text.toList < b.offset text.toList ∧ a.stop text.toList ≤ b.offset text.toList := by
  obtain ⟨hy, -⟩ := parse_eq_ok.1 h
  have hlaid := laid_of_parseTree (parseTree_eq_ok.2 hy)
  refine ⟨walk_root t, fun n hn => located_of_lies (hlaid.lies n hn), ?_⟩
  simp only [isAtom_expr]
  refine hlaid.ordered.imp_of_mem fun ha hb hab => ?_
  obtain ⟨hma, hatom⟩ := List.mem_filter.1 ha
  exact advances_of_precedes (hlaid.lies _ hma) (hlaid.lies _ (List.mem_filter.1 hb).1) hatom hab

/-- The tree of a text of two lines with a call, a sign and a power in it. -/
def spreadTree : Tree :=
  .binary ⟨5, "+"⟩
    (.call ⟨17, "f(a,\n-b**2)"⟩ ⟨17, "f"⟩
      [.atom .identifier ⟨15, "a"⟩,
        .unary ⟨12, "-b**2"⟩ ⟨12, "-"⟩
          (.binary ⟨10, "**"⟩ (.atom .identifier ⟨11, "b"⟩) (.atom .integer ⟨8, "2"⟩))])
    (.atom .float ⟨3, "1.5"⟩)

theorem parseTree_spreadTree : parseTree "f(a,\n-b**2) + 1.5".toList = .ok spreadTree := by
  rw [String.toList_ofList]
  cbv

example : spreadTree.nodes.map (fun n =>
      positionAt "f(a,\n-b**2) + 1.5".toList (n.offset "f(a,\n-b**2) + 1.5".toList)) =
    [(2, 8), (1, 1), (1, 1), (1, 3), (2, 1), (2, 3), (2, 2), (2, 5), (2, 10)] := by
  rw [String.toList_ofList]
  decide

theorem nodes_located_spreadTree : parse "f(a,\n-b**2) + 1.5" = .ok spreadTree ∧
    (Expr.root [spreadTree.expr]).walk = .root [spreadTree.expr] :: spreadTree.nodes.map expr ∧
      (∀ n ∈ spreadTree.nodes, Located "f(a,\n-b**2) + 1.5".toList n) ∧
      (spreadTree.nodes.filter (·.expr.isAtom)).Pairwise fun a b =>
        a.offset "f(a,\n-b**2) + 1.5".toList < b.offset "f(a,\n-b**2) + 1.5".toList ∧
          a.stop "f(a,\n-b**2) + 1.5".toList ≤ b.offset "f(a,\n-b**2) + 1.5".toList := by
  have hshort : spreadTree.overlong? = none := by decide
  have h : parse "f(a,\n-b**2) + 1.5" = .ok spreadTree :=
    parse_eq_ok.2 ⟨parseTree_eq_ok.1 parseTree_spreadTree, hshort⟩
  exact ⟨h, nodes_located h⟩

end Syntax

end AlgebraBatch
