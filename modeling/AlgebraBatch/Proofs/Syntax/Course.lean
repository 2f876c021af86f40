import AlgebraBatch.Proofs.Peg.Lockstep
import AlgebraBatch.Proofs.Syntax.Meaning
import AlgebraBatch.Proofs.Syntax.Nesting

/-!
# How the grammar goes through a text

The states are the depths of brackets: an opening bracket leads one deeper, a closing one back, and
a comma stands between brackets only. Every rule comes back to the depth that it was entered at
(`passes_body`). Two trees that are read alike differ at most in the places that they remember
(`Tree.Like`).
-/

namespace AlgebraBatch.Syntax

open AlgebraBatch.Text Peg

/-! ## Trees that mean the same -/

namespace Tree

/-- The trees mean the same, and the same of their integers have too many digits. -/
structure Like (t u : Tree) : Prop where
  expr : u.expr = t.expr
  digits : u.nodes.map tooManyDigits? = t.nodes.map tooManyDigits?

/-- The stretches have the same text. -/
def SameText (p q : Piece) : Prop := q.text = p.text

namespace Like

variable {t u l l' r r' : Tree} {p q span span' : Piece}

attribute [local simp] nodes nodesItems nodesBranches tooManyDigits?

theorem means {e : Expr} (h : Like t u) (ht : t.Means e) : u.Means e := by
  refine ⟨h.expr.trans ht.1, ?_⟩
  have hnone : ∀ x ∈ t.nodes.map tooManyDigits?, x = none := by
    rw [List.forall_mem_map]
    exact ht.nodes
  rw [← h.digits, List.forall_mem_map] at hnone
  exact overlong?_eq_none.2 hnone

theorem atom (kind : AtomKind) (h : SameText p q) : Like (.atom kind p) (.atom kind q) := by
  constructor
  · rw [Tree.expr, Tree.expr, h]
  · cases kind <;> simp [show q.text = p.text from h]

theorem binary (ho : SameText p q) (hl : Like l l') (hr : Like r r') :
    Like (.binary p l r) (.binary q l' r') where
  expr := by rw [Tree.expr, Tree.expr, hl.expr, hr.expr, ho]
  digits := by simp [hl.digits, hr.digits]

theorem unary (ho : SameText p q) (h : Like t u) : Like (.unary span p t) (.unary span' q u) where
  expr := by rw [Tree.expr, Tree.expr, h.expr, ho]
  digits := by simp [h.digits]

theorem factorial (h : Like t u) : Like (.factorial span t) (.factorial span' u) where
  expr := by rw [Tree.expr, Tree.expr, h.expr]
  digits := by simp [h.digits]

/-- Operands to the right of a chain. -/
theorem foldl {xs ys : List (Piece × Tree)}
    (h : List.Forall₂ (fun x y => SameText x.1 y.1 ∧ Like x.2 y.2) xs ys) (ht : Like t u) :
    Like (xs.foldl (fun l (o, r) => .binary o l r) t)
      (ys.foldl (fun l (o, r) => .binary o l r) u) := by
  induction h generalizing t u with
  | nil => exact ht
  | cons hx _ ih => exact ih (binary hx.1 ht hx.2)

section Lists

variable {ts us : List Tree} {xs ys : List (Tree × Tree)} {x y : Tree × Tree} {o o' : Option Tree}

theorem items (h : List.Forall₂ Like ts us) :
    exprItems us = exprItems ts ∧
      (nodesItems us).map tooManyDigits? = (nodesItems ts).map tooManyDigits? := by
  induction h with
  | nil => exact ⟨rfl, rfl⟩
  | cons ht _ ih =>
    constructor
    · rw [exprItems, exprItems, ht.expr, ih.1]
    · simp [ht.digits, ih.2]

theorem call (hh : SameText p q) (h : List.Forall₂ Like ts us) :
    Like (.call span p ts) (.call span' q us) where
  expr := by rw [Tree.expr, Tree.expr, (items h).1, hh]
  digits := by simp [(items h).2]

theorem indexed (hh : SameText p q) (h : List.Forall₂ Like ts us) :
    Like (.indexed span p ts) (.indexed span' q us) where
  expr := by rw [Tree.expr, Tree.expr, (items h).1, hh]
  digits := by simp [(items h).2]

theorem list (h : List.Forall₂ Like ts us) : Like (.list span ts) (.list span' us) where
  expr := by rw [Tree.expr, Tree.expr, (items h).1]
  digits := by simp [(items h).2]

theorem set (h : List.Forall₂ Like ts us) : Like (.set span ts) (.set span' us) where
  expr := by rw [Tree.expr, Tree.expr, (items h).1]
  digits := by simp [(items h).2]

theorem branches (h : List.Forall₂ (fun x y => Like x.1 y.1 ∧ Like x.2 y.2) xs ys) :
    exprBranches ys = exprBranches xs ∧
      (nodesBranches ys).map tooManyDigits? = (nodesBranches xs).map tooManyDigits? := by
  induction h with
  | nil => exact ⟨rfl, rfl⟩
  | cons hx _ ih =>
    constructor
    · rw [exprBranches, exprBranches, hx.1.expr, hx.2.expr, ih.1]
    · simp [hx.1.digits, hx.2.digits, ih.2]

theorem option (h : Option.Rel Like o o') :
    exprOption o' = exprOption o ∧
      (nodesOption o').map tooManyDigits? = (nodesOption o).map tooManyDigits? := by
  cases h with
  | none => exact ⟨rfl, rfl⟩
  | some h => exact ⟨congrArg some h.expr, h.digits⟩

theorem conditional (hf : Like x.1 y.1 ∧ Like x.2 y.2)
    (hm : List.Forall₂ (fun x y => Like x.1 y.1 ∧ Like x.2 y.2) xs ys) (ho : Option.Rel Like o o') :
    Like (.conditional span x xs o) (.conditional span' y ys o') where
  expr := by rw [Tree.expr, Tree.expr, hf.1.expr, hf.2.expr, (branches hm).1, (option ho).1]
  digits := by simp [hf.1.digits, hf.2.digits, (branches hm).2, (option ho).2]

end Lists

end Like

end Tree

/-! ## Depths -/

/-- A terminal leads from one depth of brackets to another. -/
inductive Moves : Terminal → Nat → Nat → Prop where
  | pattern (p : Pattern) (d : Nat) : Moves (.pattern p) d d
  | bang (d : Nat) : Moves (.literal '!') d d
  | comma (d : Nat) : Moves (.literal ',') (d + 1) (d + 1)
  | opening {c : Char} (d : Nat) : c ∈ openings → Moves (.literal c) d (d + 1)
  | closing {c : Char} (d : Nat) : c ∈ closings → Moves (.literal c) (d + 1) d

/-- Blanks are the only token whose text does not matter. -/
def course : Course Terminal Tree Nat where
  moves := Moves
  piece t p q := t ≠ .pattern .blanks → Tree.SameText p q
  value := Tree.Like

/-- A text that closes `d` brackets closes as many as the token leads to, after the token. -/
theorem shut_of_moves {t : Terminal} {d d' : Nat} {s s' : List Char} (hm : course.moves t d d')
    (h : grammar.accept t s = some s') : Shut d s ↔ Shut d' s' := by
  cases hm with
  | pattern p d => exact shut_of_accept h
  | bang d =>
    obtain rfl := accept_literal.1 h
    exact shut_plain (by decide)
  | comma d =>
    obtain rfl := accept_literal.1 h
    exact shut_plain (by decide)
  | opening d hc =>
    obtain rfl := accept_literal.1 h
    exact shut_opening hc
  | closing d hc =>
    obtain rfl := accept_literal.1 h
    exact shut_closing hc

section Forms

variable {α β : Type} {i j k d : Nat} {A : α → α → Prop} {B : β → β → Prop} {a : Reads α}
  {b : Reads β}

theorem passes_skip (ha : course.Passes i j A a) (hb : course.Passes j k B b) :
    course.Passes i k B (Reads.skip a b) :=
  .map (.seq ha hb) fun _ _ h => h.2

theorem passes_keep (ha : course.Passes i j A a) (hb : course.Passes j k B b) :
    course.Passes i k A (Reads.keep a b) :=
  .map (.seq ha hb) fun _ _ h => h.1

theorem passes_spaced (ha : course.Passes i j A a) : course.Passes i j A (Reads.spaced a) :=
  passes_skip (.token (.pattern .blanks i)) ha

theorem passes_continued (op : Pattern) (R : Rule) :
    course.Passes d d (fun x y => course.piece (.pattern op) x.1 y.1 ∧ Tree.Like x.2 y.2)
      (Reads.continued op R) :=
  passes_spaced (.seq (.token (.pattern op d)) (passes_spaced .rule))

variable {p : Pattern} {R C : Rule}

theorem piece_pattern (hp : p ≠ .blanks) {x y : Piece} :
    course.piece (.pattern p) x y → Tree.SameText x y :=
  fun h => h fun e => hp (Terminal.pattern.inj e)

theorem passes_leftChain (hp : p ≠ .blanks) :
    course.Passes d d Tree.Like (Reads.leftChain p R) := by
  refine .map (.seq .rule (.many (passes_continued p R))) fun x y h => ?_
  obtain ⟨hfirst, hmore⟩ := h
  exact Tree.Like.foldl (hmore.imp fun _ _ h => ⟨piece_pattern hp h.1, h.2⟩) hfirst

theorem passes_rightChain (hp : p ≠ .blanks) :
    course.Passes d d Tree.Like (Reads.rightChain p R C) := by
  refine .map (.seq .rule (.optional (passes_continued p C))) fun x y h => ?_
  obtain ⟨first, more⟩ := x
  obtain ⟨first', more'⟩ := y
  obtain ⟨hfirst, hmore⟩ := h
  cases hmore with
  | none => exact hfirst
  | some h => exact .binary (piece_pattern hp h.1) hfirst h.2

theorem passes_prefixed (hp : p ≠ .blanks) : course.Passes d d Tree.Like (Reads.prefixed p R) :=
  .map (.spanned (.seq (.token (.pattern p d)) (passes_spaced .rule)))
    fun _ _ h => .unary (piece_pattern hp h.1) h.2

theorem passes_atom (kind : AtomKind) (hp : p ≠ .blanks) :
    course.Passes d d Tree.Like (Reads.atom kind p) :=
  .map (.token (.pattern p d)) fun _ _ h => .atom kind (piece_pattern hp h)

/-! ## Brackets -/

theorem passes_items : course.Passes (d + 1) (d + 1) (List.Forall₂ Tree.Like) Reads.items := by
  have hcomma : course.Passes (d + 1) (d + 1) Tree.Like Reads.commaItem :=
    passes_spaced (passes_skip (.token (.comma d)) (passes_spaced .rule))
  refine .map (.optional (.seq .rule (.many hcomma))) fun x y h => ?_
  cases h with
  | none => exact .nil
  | some h => exact .cons h.1 h.2

theorem passes_enclosed {o c : Char} (ho : o ∈ openings) (hc : c ∈ closings) :
    course.Passes d d (List.Forall₂ Tree.Like) (Reads.enclosed o c) :=
  passes_skip (.token (.opening d ho))
    (passes_spaced (passes_keep passes_items (passes_spaced (.token (.closing d hc)))))

theorem passes_group : course.Passes d d Tree.Like Reads.group :=
  passes_skip (.token (.opening d (by decide)))
    (passes_spaced (passes_keep .rule (passes_spaced (.token (.closing d (by decide))))))

theorem passes_call : course.Passes d d Tree.Like Reads.call :=
  .map (.spanned (.seq (.token (.pattern .identifier d))
    (passes_enclosed (by decide) (by decide))))
    fun _ _ h => .call (piece_pattern (p := .identifier) nofun h.1) h.2

theorem passes_indexed : course.Passes d d Tree.Like Reads.indexed :=
  .map (.spanned (.seq (.token (.pattern .identifier d))
    (passes_enclosed (by decide) (by decide))))
    fun _ _ h => .indexed (piece_pattern (p := .identifier) nofun h.1) h.2

theorem passes_list : course.Passes d d Tree.Like Reads.list :=
  .map (.spanned (passes_enclosed (by decide) (by decide))) fun _ _ h => .list h

theorem passes_set : course.Passes d d Tree.Like Reads.set :=
  .map (.spanned (passes_enclosed (by decide) (by decide))) fun _ _ h => .set h

/-! ## Conditionals -/

theorem passes_branch :
    course.Passes d d (fun x y => Tree.Like x.1 y.1 ∧ Tree.Like x.2 y.2) Reads.branch :=
  .seq (passes_spaced .rule)
    (passes_spaced (passes_skip (.token (.pattern .thenWord d)) (passes_spaced .rule)))

theorem passes_conditional : course.Passes d d Tree.Like Reads.conditional := by
  have hfirst := passes_skip (.token (.pattern .ifWord d)) (passes_branch (d := d))
  have hmore := passes_spaced
    (passes_skip (.token (.pattern .elseifWord d)) (passes_branch (d := d)))
  have hlast : course.Passes d d Tree.Like Reads.lastValue :=
    passes_spaced (passes_skip (.token (.pattern .elseWord d)) (passes_spaced .rule))
  refine .map (.spanned (.seq hfirst (.seq (.many hmore) (.optional hlast)))) fun x y h => ?_
  exact .conditional h.1 h.2.1 h.2.2

/-! ## Rules -/

theorem passes_factorial : course.Passes d d Tree.Like Reads.factorial := by
  refine .map (.spanned (.seq .rule (.optional (.token (.bang d))))) fun x y h => ?_
  obtain ⟨span, t, bang⟩ := x
  obtain ⟨span', u, bang'⟩ := y
  obtain ⟨ht, hbang⟩ := h
  cases hbang with
  | none => exact ht
  | some _ => exact .factorial ht

theorem passes_primary : course.Passes d d Tree.Like Reads.primary :=
  .orElse (passes_atom .float nofun) <|
  .orElse (passes_atom .integer nofun) <|
  .orElse (passes_atom .string nofun) <|
  .orElse (passes_atom .boolean nofun) <|
  .orElse passes_conditional <|
  .orElse passes_call <|
  .orElse passes_indexed <|
  .orElse (passes_atom .identifier nofun) <|
  .orElse passes_list <|
  .orElse passes_set passes_group

end Forms

/-- Every rule comes back to the depth that it was entered at. -/
theorem passes_body (d : Nat) (R : Rule) :
    course.Passes d d course.value (grammar.body R) := by
  change course.Passes d d Tree.Like (Reads.body R)
  cases R with
  | assignment => exact passes_rightChain nofun
  | disjunction => exact passes_leftChain nofun
  | conjunction => exact passes_leftChain nofun
  | negation => exact .orElse (passes_prefixed nofun) .rule
  | relation => exact passes_leftChain nofun
  | sum => exact passes_leftChain nofun
  | product => exact passes_leftChain nofun
  | signed => exact .orElse (passes_prefixed nofun) .rule
  | dotProduct => exact passes_leftChain nofun
  | exponent => exact .orElse (passes_prefixed nofun) .rule
  | power => exact passes_rightChain nofun
  | factorial => exact passes_factorial
  | primary => exact passes_primary

end AlgebraBatch.Syntax
