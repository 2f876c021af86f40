import AlgebraBatch.Syntax.Tree
import Mathlib.Data.List.Forall2

/-!
# What a syntax tree means

`t.Means e`: the tree means the expression, and none of its integers has too many digits. A tree
means an expression if its parts mean the parts.
-/

namespace AlgebraBatch.Syntax.Tree

/-- The tree is accepted and means `e`. -/
def Means (t : Tree) (e : Expr) : Prop := t.expr = e ∧ t.overlong? = none

theorem overlong?_eq_none {t : Tree} :
    t.overlong? = none ↔ ∀ d ∈ t.nodes, d.tooManyDigits? = none :=
  List.findSome?_eq_none_iff

theorem Means.nodes {t : Tree} {e : Expr} (h : t.Means e) : ∀ d ∈ t.nodes, d.tooManyDigits? = none :=
  overlong?_eq_none.1 h.2

section Parts

variable {l r t : Tree} {a b e : Expr} {span op head : Piece}

theorem Means.binary {name : String} (hl : l.Means a) (hr : r.Means b)
    (ho : operatorName op.text = name) : (Tree.binary op l r).Means (.operation name a b) := by
  refine ⟨by rw [← hl.1, ← hr.1, ← ho]; rfl, overlong?_eq_none.2 ?_⟩
  exact List.forall_mem_cons.2 ⟨rfl, List.forall_mem_append.2 ⟨hl.nodes, hr.nodes⟩⟩

theorem Means.unary {name : String} (h : t.Means e) (ho : op.text = name) :
    (Tree.unary span op t).Means (.prefixed name e) := by
  refine ⟨by rw [← h.1, ← ho]; rfl, overlong?_eq_none.2 ?_⟩
  exact List.forall_mem_cons.2 ⟨rfl, h.nodes⟩

theorem Means.factorial (h : t.Means e) : (Tree.factorial span t).Means (.postfixed "!" e) := by
  refine ⟨by rw [← h.1]; rfl, overlong?_eq_none.2 ?_⟩
  exact List.forall_mem_cons.2 ⟨rfl, h.nodes⟩

end Parts

/-- The trees mean the expressions, one by one. -/
abbrev MeansAll : List Tree → List Expr → Prop := List.Forall₂ Means

section Lists

variable {ts : List Tree} {es : List Expr} {span head : Piece}

theorem MeansAll.exprItems (h : MeansAll ts es) : exprItems ts = es := by
  induction h with
  | nil => rfl
  | cons ht _ ih => exact congrArg₂ List.cons ht.1 ih

theorem MeansAll.nodesItems (h : MeansAll ts es) :
    ∀ d ∈ nodesItems ts, d.tooManyDigits? = none := by
  induction h with
  | nil => exact nofun
  | cons ht _ ih => exact List.forall_mem_append.2 ⟨ht.nodes, ih⟩

theorem MeansAll.call (h : MeansAll ts es) {name : String} (hn : head.text = name) :
    (Tree.call span head ts).Means (.call (.identifier name) es) := by
  refine ⟨by rw [← h.exprItems, ← hn]; rfl, overlong?_eq_none.2 ?_⟩
  exact List.forall_mem_cons.2 ⟨rfl, List.forall_mem_cons.2 ⟨rfl, h.nodesItems⟩⟩

theorem MeansAll.indexed (h : MeansAll ts es) {name : String} (hn : head.text = name) :
    (Tree.indexed span head ts).Means (.indexed (.identifier name) es) := by
  refine ⟨by rw [← h.exprItems, ← hn]; rfl, overlong?_eq_none.2 ?_⟩
  exact List.forall_mem_cons.2 ⟨rfl, List.forall_mem_cons.2 ⟨rfl, h.nodesItems⟩⟩

theorem MeansAll.list (h : MeansAll ts es) : (Tree.list span ts).Means (.list es) := by
  refine ⟨by rw [← h.exprItems]; rfl, overlong?_eq_none.2 ?_⟩
  exact List.forall_mem_cons.2 ⟨rfl, h.nodesItems⟩

theorem MeansAll.set (h : MeansAll ts es) : (Tree.set span ts).Means (.set es) := by
  refine ⟨by rw [← h.exprItems]; rfl, overlong?_eq_none.2 ?_⟩
  exact List.forall_mem_cons.2 ⟨rfl, h.nodesItems⟩

end Lists

/-- A condition and its value. -/
def MeansBranch (x : Tree × Tree) (b : Expr × Expr) : Prop := x.1.Means b.1 ∧ x.2.Means b.2

theorem exprBranches_eq {xs : List (Tree × Tree)} {bs : List (Expr × Expr)}
    (h : List.Forall₂ MeansBranch xs bs) : exprBranches xs = bs := by
  induction h with
  | nil => rfl
  | cons hx _ ih => exact congrArg₂ List.cons (Prod.ext hx.1.1 hx.2.1) ih

theorem nodesBranches_short {xs : List (Tree × Tree)} {bs : List (Expr × Expr)}
    (h : List.Forall₂ MeansBranch xs bs) : ∀ d ∈ nodesBranches xs, d.tooManyDigits? = none := by
  induction h with
  | nil => exact nofun
  | cons hx _ ih =>
    exact List.forall_mem_append.2 ⟨List.forall_mem_append.2 ⟨hx.1.nodes, hx.2.nodes⟩, ih⟩

theorem Means.conditional {span : Piece} {first : Tree × Tree} {more : List (Tree × Tree)}
    {otherwise : Option Tree} {b : Expr × Expr} {bs : List (Expr × Expr)} {o : Option Expr}
    (hf : MeansBranch first b) (hm : List.Forall₂ MeansBranch more bs)
    (ho : Option.Rel Means otherwise o) :
    (Tree.conditional span first more otherwise).Means (.conditional (b :: bs) o) := by
  have hoe : exprOption otherwise = o ∧ ∀ d ∈ nodesOption otherwise, d.tooManyDigits? = none := by
    cases ho with
    | none => exact ⟨rfl, nofun⟩
    | some h => exact ⟨congrArg some h.1, h.nodes⟩
  refine ⟨?_, overlong?_eq_none.2 ?_⟩
  · rw [expr, exprBranches_eq hm, hoe.1, hf.1.1, hf.2.1]
  · refine List.forall_mem_cons.2 ⟨rfl, List.forall_mem_append.2 ⟨?_, hoe.2⟩⟩
    refine List.forall_mem_append.2 ⟨?_, nodesBranches_short hm⟩
    exact List.forall_mem_append.2 ⟨hf.1.nodes, hf.2.nodes⟩

end AlgebraBatch.Syntax.Tree
