import AlgebraBatch.Proofs.Syntax.Level
import AlgebraBatch.Proofs.Syntax.Primary

/-!
# Where names stand in printed text

`sites` lists the places of a printed expression where a name stands, each with the text from there
on. At every one of them the grammar looks for a conditional before it looks for a name, and at
those that begin an operand of `not` or of something looser it looks for the word `not` even before
that. An expression is `Legible` if it finds neither at any of its sites and no quote stands
directly before a quote.

A name that begins with none of the words of the grammar is always found, so a well-formed
expression is legible.
-/

namespace AlgebraBatch.Syntax

open AlgebraBatch.Text Peg AlgebraBatch.Expr

/-- A place where a name stands: whether the grammar looks for `not` there, and the text from there
to the end. -/
structure Site where
  leads : Bool
  text : List Char
  deriving DecidableEq, Repr

/-- The closing parenthesis of an operand. -/
def closing (needed : Bool) : List Char :=
  if needed then [')'] else []

/-- Whether the grammar looks for `not` before an operand of precedence `m` or more. -/
def isLoose (m : Nat) : Bool :=
  m ≤ prefixPrecedence "not"

mutual

/-- The sites of an expression that `rest` is printed after. -/
def sites (leads : Bool) (rest : List Char) : Expr → List Site
  | .identifier name => [⟨leads, name.toList ++ rest⟩]
  | .operation op l r =>
    let inLeft := decide (precedence l < leftMinimum op)
    let inRight := decide (precedence r < rightMinimum op)
    sites (inLeft || leads)
        (closing inLeft ++ (operatorText op ++ (bracket inRight (render r) ++ rest))) l ++
      sites (inRight || isLoose (rightMinimum op)) (closing inRight ++ rest) r
  | .prefixed op e =>
    let inside := decide (precedence e < prefixPrecedence op)
    sites (inside || isLoose (prefixPrecedence op)) (closing inside ++ rest) e
  | .postfixed op e =>
    let inside := decide (precedence e < postfixPrecedence + 1)
    sites (inside || leads) (closing inside ++ (op.toList ++ rest)) e
  | .call head args =>
    sites leads ('(' :: (renderItems [','] args ++ ')' :: rest)) head ++ itemSites (')' :: rest) args
  | .indexed target indices =>
    sites leads ('[' :: (renderItems [','] indices ++ ']' :: rest)) target ++
      itemSites (']' :: rest) indices
  | .conditional branches otherwise =>
    branchSites (renderOtherwise branches.isEmpty otherwise ++ rest) branches ++
      otherwiseSites rest otherwise
  | .list items => itemSites (']' :: rest) items
  | .set items => itemSites ('\x7d' :: rest) items
  | _ => []

/-- The sites of items with commas between them. -/
def itemSites (rest : List Char) : List Expr → List Site
  | [] => []
  | e :: es =>
    sites true (if es.isEmpty then rest else ',' :: (renderItems [','] es ++ rest)) e ++
      itemSites rest es

def branchSites (rest : List Char) : List (Expr × Expr) → List Site
  | [] => []
  | (c, v) :: bs =>
    let inCondition := decide (precedence c < conditionalPrecedence + 1)
    let inValue := decide (precedence v < conditionalPrecedence + 1)
    let more := renderBranches false bs ++ rest
    sites true
        (closing inCondition ++ (" then ".toList ++ (bracket inValue (render v) ++ more))) c ++
      sites true (closing inValue ++ more) v ++ branchSites rest bs

def otherwiseSites (rest : List Char) : Option Expr → List Site
  | none => []
  | some e => sites true rest e

end

/-- Neither a conditional nor, where the grammar looks for it, the word `not` with an operand is
read in place of the name. -/
structure Site.Clear (σ : Site) : Prop where
  conditional : Refuses grammar Reads.conditional σ.text
  notForm : σ.leads = true → Refuses grammar Reads.notForm σ.text

/-- The printed text is read as it was meant. -/
structure Legible (e : Expr) : Prop where
  quotes : Everywhere (fun d => d.stacksQuotes = false) e
  names : ∀ σ ∈ sites true [] e, σ.Clear

/-! ## Plain names -/

theorem EndsName.cons {c : Char} (h : c ∈ boundaries) (r : List Char) : EndsName (c :: r) :=
  .inl h

theorem EndsName.closing {b : Bool} {s : List Char} (h : EndsName s) :
    EndsName (closing b ++ s) := by
  cases b with
  | false => exact h
  | true => exact .cons (by decide) _

theorem EndsName.renderBranches {bs : List (Expr × Expr)} {rest : List Char} (h : EndsName rest) :
    EndsName (renderBranches false bs ++ rest) := by
  cases bs with
  | nil => exact h
  | cons b bs => exact .cons (by decide) _

theorem EndsName.renderOtherwise {o : Option Expr} {rest : List Char} (h : EndsName rest) :
    EndsName (renderOtherwise false o ++ rest) := by
  cases o with
  | none => exact h
  | some e => exact .cons (by decide) _

section Every

variable {P : Site → Prop}

theorem forall_mem_itemSites {es : List Expr} {rest : List Char}
    (h : ∀ e ∈ es, ∀ r, EndsName r → ∀ σ ∈ sites true r e, P σ) (hr : EndsName rest) :
    ∀ σ ∈ itemSites rest es, P σ := by
  induction es with
  | nil => exact nofun
  | cons e es ih =>
    refine List.forall_mem_append.2 ⟨h e List.mem_cons_self _ ?_,
      ih fun d hd => h d (List.mem_cons_of_mem _ hd)⟩
    split
    · exact hr
    · exact .cons (by decide) _

theorem forall_mem_branchSites {bs : List (Expr × Expr)} {rest : List Char}
    (h : ∀ b ∈ bs, ∀ r, EndsName r →
      (∀ σ ∈ sites true r b.1, P σ) ∧ ∀ σ ∈ sites true r b.2, P σ) (hr : EndsName rest) :
    ∀ σ ∈ branchSites rest bs, P σ := by
  induction bs with
  | nil => exact nofun
  | cons b bs ih =>
    obtain ⟨c, v⟩ := b
    have hcv := h (c, v) List.mem_cons_self
    have hthen (r : List Char) : EndsName (" then ".toList ++ r) := .cons (by decide) _
    refine List.forall_mem_append.2 ⟨List.forall_mem_append.2 ⟨?_, ?_⟩,
      ih fun d hd => h d (List.mem_cons_of_mem _ hd)⟩
    · exact (hcv _ (hthen _).closing).1
    · exact (hcv _ hr.renderBranches.closing).2

end Every

/-- Where one of the names stands. -/
def IsNamed (IsName : String → Prop) (σ : Site) : Prop :=
  ∃ name r, σ.text = name.toList ++ r ∧ IsName name ∧ EndsName r

/-- At every site there is one of the names of the expression. -/
theorem forall_mem_sites {IsName : String → Prop} {e : Expr} (h : Everywhere (HasShape IsName) e) :
    ∀ leads {rest : List Char}, EndsName rest → ∀ σ ∈ sites leads rest e, IsNamed IsName σ := by
  induction e using Expr.induction with
  | identifier name =>
    intro leads rest hr σ hσ
    obtain rfl := List.mem_singleton.1 hσ
    exact ⟨name, rest, rfl, everywhere_identifier.1 h, hr⟩
  | operation op l r ihl ihr =>
    intro leads rest hr
    obtain ⟨⟨ho, hne⟩, hl, hr'⟩ := everywhere_operation.1 h
    have hop (u : List Char) : EndsName (operatorText op ++ u) :=
      .inl (isBoundary_operatorText (mem_printedOperators ho hne) u)
    exact List.forall_mem_append.2 ⟨ihl hl _ (hop _).closing, ihr hr' _ hr.closing⟩
  | prefixed op e ih =>
    intro leads rest hr
    exact ih (everywhere_prefixed.1 h).2 _ hr.closing
  | postfixed op e ih =>
    intro leads rest hr
    obtain ⟨ho, he⟩ := everywhere_postfixed.1 h
    obtain rfl : op = "!" := ho
    have hbang : EndsName ("!".toList ++ rest) := .cons (by decide) _
    exact ih he _ hbang.closing
  | call head args ih iha =>
    intro leads rest _
    obtain ⟨-, hh, ha⟩ := everywhere_call.1 h
    refine List.forall_mem_append.2 ⟨ih hh _ (.inr ⟨_, .inl rfl⟩), ?_⟩
    exact forall_mem_itemSites (fun a hm r => iha a hm (ha a hm) _) (.cons (by decide) _)
  | indexed target indices ih iha =>
    intro leads rest _
    obtain ⟨-, hh, ha⟩ := everywhere_indexed.1 h
    refine List.forall_mem_append.2 ⟨ih hh _ (.inr ⟨_, .inr rfl⟩), ?_⟩
    exact forall_mem_itemSites (fun a hm r => iha a hm (ha a hm) _) (.cons (by decide) _)
  | conditional branches otherwise ihb iho =>
    intro leads rest hr
    obtain ⟨hd, hb, ho⟩ := everywhere_conditional.1 h
    have hempty : branches.isEmpty = false := List.isEmpty_eq_false_iff.2 hd
    rw [sites, hempty]
    refine List.forall_mem_append.2 ⟨?_, ?_⟩
    · exact forall_mem_branchSites (fun b hm r he => ⟨(ihb b hm).1 (hb b hm).1 _ he,
        (ihb b hm).2 (hb b hm).2 _ he⟩) hr.renderOtherwise
    · cases otherwise with
      | none => exact nofun
      | some e => exact iho e rfl (ho e rfl) _ hr
  | list items ih =>
    intro leads rest _
    obtain ⟨-, hi⟩ := everywhere_list.1 h
    exact forall_mem_itemSites (fun a hm r => ih a hm (hi a hm) _) (.cons (by decide) _)
  | set items ih =>
    intro leads rest _
    obtain ⟨-, hi⟩ := everywhere_set.1 h
    exact forall_mem_itemSites (fun a hm r => ih a hm (hi a hm) _) (.cons (by decide) _)
  | _ => exact nofun

theorem IsNamed.clear {σ : Site} (h : IsNamed IsPlainName σ) : σ.Clear := by
  obtain ⟨name, r, ht, ⟨hl, hw⟩, hr⟩ := h
  have none_of {w : String} (hm : w ∈ words) (hc : ∀ c ∈ w.toList, isWordChar c = true) :
      acceptWord w.toList σ.text = none := by
    rw [ht]
    refine acceptWord_identifier hc hr hl fun e => hw ?_
    rw [e, String.ofList_toList]
    exact hm
  exact ⟨refuses_conditional (none_of (w := "if") (by decide) (by decide)),
    fun _ => refuses_prefixed (none_of (w := "not") (by decide) (by decide))⟩

/-- A well-formed expression has no name that could be read as anything else. -/
theorem legible_of_wellFormed {e : Expr} (h : WellFormed e) : Legible e where
  quotes d hd := (h d hd).2
  names σ hσ :=
    have hnil : EndsName [] := .inl trivial
    (forall_mem_sites (fun d hd => (h d hd).1) true hnil σ hσ).clear

end AlgebraBatch.Syntax
