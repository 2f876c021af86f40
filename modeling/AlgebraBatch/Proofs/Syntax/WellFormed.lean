import AlgebraBatch.Expr.Printer
import AlgebraBatch.Proofs.Expr.Walk
import AlgebraBatch.Proofs.Syntax.Lexeme
import AlgebraBatch.Syntax.Tree

/-!
# Well-formed expressions

`HasShape IsName` is what a node satisfies on its own, with `IsName` for the names: its numerals are
short enough, its float is a lexeme with the value it is read as, its operator is one of the tables,
a call or a subscript has a name before its brackets, and a conditional has a branch. In a
`WellFormed` expression every name is plain, so none of the words of the grammar begins it, and `'`
is never written directly before a quote.

`normal` puts the minus operator before each negative number. This changes neither the text nor the
precedence of an expression.
-/

namespace AlgebraBatch.Expr

open AlgebraBatch.Syntax

/-- The words of the grammar. -/
def words : List String :=
  ["true", "false", "not", "and", "or", "if", "then", "elseif", "else"]

/-- A name that begins with none of the words of the grammar. -/
def IsPlainName (name : String) : Prop :=
  Pattern.identifier.IsLexeme name.toList ∧ String.ofList (firstWord name.toList) ∉ words

/-- A name that does not begin with one of the truth values. -/
def IsReadName (name : String) : Prop :=
  Pattern.identifier.IsLexeme name.toList ∧
    String.ofList (firstWord name.toList) ∉ ["true", "false"]

instance : DecidablePred IsPlainName := fun _ => inferInstanceAs (Decidable (_ ∧ _))

instance : DecidablePred IsReadName := fun _ => inferInstanceAs (Decidable (_ ∧ _))

def isIdentifier : Expr → Bool
  | identifier _ => true
  | _ => false

/-- What a node satisfies on its own. -/
def HasShape (IsName : String → Prop) : Expr → Prop
  | integer n => (Nat.toDigits 10 n.natAbs).length ≤ Numeral.maxDigits
  | float x text => Pattern.float.IsLexeme text.toList ∧ x = floatValue text
  | string _ => True
  | boolean _ => True
  | identifier name => IsName name
  | operation op _ _ => op ∈ binaryOperators.map Prod.fst ∧ op ≠ "**"
  | prefixed op _ => op ∈ prefixOperators.map Prod.fst
  | postfixed op _ => op = "!"
  | call head _ => head.isIdentifier
  | indexed target _ => target.isIdentifier
  | conditional branches _ => branches ≠ []
  | list _ => True
  | set _ => True
  | root _ => False

instance {IsName : String → Prop} [DecidablePred IsName] : DecidablePred (HasShape IsName)
  | integer _ => inferInstanceAs (Decidable (_ ≤ _))
  | float _ _ => inferInstanceAs (Decidable (_ ∧ _))
  | string _ => .isTrue trivial
  | boolean _ => .isTrue trivial
  | identifier name => inferInstanceAs (Decidable (IsName name))
  | operation _ _ _ => inferInstanceAs (Decidable (_ ∧ _))
  | prefixed _ _ => inferInstanceAs (Decidable (_ ∈ _))
  | postfixed _ _ => inferInstanceAs (Decidable (_ = _))
  | call _ _ => inferInstanceAs (Decidable (_ = true))
  | indexed _ _ => inferInstanceAs (Decidable (_ = true))
  | conditional [] _ => .isFalse fun h => h rfl
  | conditional (_ :: _) _ => .isTrue nofun
  | list _ => .isTrue trivial
  | set _ => .isTrue trivial
  | root _ => .isFalse id

def isQuoted : Expr → Bool
  | prefixed op _ => op == "'" || op == "''"
  | _ => false

/-- A quote directly before a quote. The two would be written as one operator, or as three quotes of
which the first two are one. -/
def stacksQuotes : Expr → Bool
  | prefixed op e => op == "'" && e.isQuoted
  | _ => false

/-- An expression that is read back from its text as it is, up to the signs of numbers. -/
def WellFormed (e : Expr) : Prop :=
  Everywhere (fun d => HasShape IsPlainName d ∧ d.stacksQuotes = false) e

instance : DecidablePred WellFormed := fun _ => inferInstanceAs (Decidable (Everywhere _ _))

def isNegativeInteger : Expr → Bool
  | integer n => n < 0
  | _ => false

/-- An expression that a text may mean, as far as its nodes show. -/
def Readable (e : Expr) : Prop :=
  Everywhere (fun d => HasShape IsReadName d ∧ d.isNegativeInteger = false) e

instance : DecidablePred Readable := fun _ => inferInstanceAs (Decidable (Everywhere _ _))

/-! ## Negative numbers -/

mutual

/-- The expression with the minus operator before each negative number. -/
def normal : Expr → Expr
  | integer n => if n < 0 then prefixed "-" (integer (-n)) else integer n
  | operation op l r => operation op (normal l) (normal r)
  | prefixed op e => prefixed op (normal e)
  | postfixed op e => postfixed op (normal e)
  | call head args => call (normal head) (normalItems args)
  | indexed target indices => indexed (normal target) (normalItems indices)
  | conditional branches otherwise =>
    conditional (normalBranches branches) (normalOption otherwise)
  | list items => list (normalItems items)
  | set items => set (normalItems items)
  | root items => root (normalItems items)
  | e => e

def normalItems : List Expr → List Expr
  | [] => []
  | e :: es => normal e :: normalItems es

def normalBranches : List (Expr × Expr) → List (Expr × Expr)
  | [] => []
  | (c, v) :: bs => (normal c, normal v) :: normalBranches bs

def normalOption : Option Expr → Option Expr
  | none => none
  | some e => some (normal e)

end

theorem normal_integer (n : Int) :
    normal (integer n) = if n < 0 then prefixed "-" (integer (-n)) else integer n :=
  rfl

theorem normalItems_eq_map : ∀ es : List Expr, normalItems es = es.map normal
  | [] => rfl
  | e :: es => congrArg (normal e :: ·) (normalItems_eq_map es)

theorem normalBranches_eq_map :
    ∀ bs : List (Expr × Expr), normalBranches bs = bs.map fun b => (normal b.1, normal b.2)
  | [] => rfl
  | (c, v) :: bs => congrArg ((normal c, normal v) :: ·) (normalBranches_eq_map bs)

theorem normalOption_eq_map (o : Option Expr) : normalOption o = o.map normal := by
  cases o <;> rfl

theorem precedence_normal (e : Expr) : precedence (normal e) = precedence e := by
  cases e with
  | integer n =>
    rw [normal_integer]
    split
    · next h => rw [precedence, precedence, if_pos h]; rfl
    · rfl
  | _ => rfl

theorem renderItems_cons {sep : List Char} {e : Expr} {es : List Expr} (h : es ≠ []) :
    renderItems sep (e :: es) = render e ++ sep ++ renderItems sep es := by
  rw [renderItems]
  exact h

theorem renderItems_congr {sep : List Char} {f : Expr → Expr} {es : List Expr}
    (h : ∀ e ∈ es, render (f e) = render e) :
    renderItems sep (es.map f) = renderItems sep es := by
  induction es with
  | nil => rfl
  | cons e es ih =>
    have he := h e List.mem_cons_self
    have ih := ih fun d hd => h d (List.mem_cons_of_mem _ hd)
    by_cases hes : es = []
    · subst hes
      exact he
    · have hmap : es.map f ≠ [] := fun hn => hes (List.map_eq_nil_iff.1 hn)
      rw [List.map_cons, renderItems_cons hmap, renderItems_cons hes, he, ih]

theorem renderBranches_normal {bs : List (Expr × Expr)}
    (h : ∀ b ∈ bs, render (normal b.1) = render b.1 ∧ render (normal b.2) = render b.2) :
    ∀ first, renderBranches first (normalBranches bs) = renderBranches first bs := by
  induction bs with
  | nil => exact fun _ => rfl
  | cons b bs ih =>
    intro first
    obtain ⟨c, v⟩ := b
    obtain ⟨hc, hv⟩ := h (c, v) List.mem_cons_self
    rw [normalBranches, renderBranches, renderBranches, precedence_normal, precedence_normal,
      show render (normal c) = render c from hc, show render (normal v) = render v from hv,
      ih fun d hd => h d (List.mem_cons_of_mem _ hd)]

/-- Both are written in the same way. -/
theorem render_normal (e : Expr) : render (normal e) = render e := by
  induction e using Expr.induction with
  | integer n =>
    rw [normal_integer]
    split
    · next h =>
      have hn : ¬ -n < 0 := by omega
      rw [render, render, integerText, if_pos h, render, integerText, if_neg hn, precedence,
        if_neg hn, Int.natAbs_neg]
      rfl
    · rfl
  | float x text => rfl
  | string s => rfl
  | boolean b => rfl
  | identifier name => rfl
  | operation op l r ihl ihr =>
    rw [normal, render, render, precedence_normal, precedence_normal, ihl, ihr]
  | prefixed op e ih => rw [normal, render, render, precedence_normal, ih]
  | postfixed op e ih => rw [normal, render, render, precedence_normal, ih]
  | call head args ih iha =>
    rw [normal, render, render, ih, normalItems_eq_map, renderItems_congr iha]
  | indexed target indices ih iha =>
    rw [normal, render, render, ih, normalItems_eq_map, renderItems_congr iha]
  | conditional branches otherwise ihb iho =>
    have hempty : (normalBranches branches).isEmpty = branches.isEmpty := by
      cases branches with
      | nil => rfl
      | cons b bs => rfl
    rw [normal, render, render, renderBranches_normal ihb, hempty]
    cases otherwise with
    | none => rfl
    | some e => rw [normalOption, renderOtherwise, renderOtherwise, iho e rfl]
  | list items ih => rw [normal, render, render, normalItems_eq_map, renderItems_congr ih]
  | set items ih => rw [normal, render, render, normalItems_eq_map, renderItems_congr ih]
  | root items ih => rw [normal, render, render, normalItems_eq_map, renderItems_congr ih]

theorem text_normal (e : Expr) : (normal e).text = e.text := by
  rw [text, text, render_normal]

/-! ## Shape of the normal expression -/

theorem everywhere_normalItems {P : Expr → Prop} {es : List Expr}
    (h : ∀ e ∈ es, Everywhere P (normal e)) : ∀ e ∈ normalItems es, Everywhere P e := by
  rw [normalItems_eq_map]
  exact List.forall_mem_map.2 h

/-- A property of nodes goes over to the normal expression if it holds of negations of numbers and
does not depend on what the operands are. -/
theorem everywhere_normal {P Q : Expr → Prop}
    (integer : ∀ n, P (.integer n) → ¬ n < 0 → Q (.integer n))
    (negative : ∀ n, P (.integer n) → n < 0 → Q (.prefixed "-" (.integer (-n))) ∧
      Q (.integer (-n)))
    (node : ∀ d, P d → (∀ n, d ≠ .integer n) → Q (normal d)) {e : Expr}
    (h : Everywhere P e) : Everywhere Q (normal e) := by
  induction e using Expr.induction with
  | integer n =>
    rw [normal_integer]
    split
    · next hn =>
      obtain ⟨hm, hi⟩ := negative n h.self hn
      exact everywhere_prefixed.2 ⟨hm, everywhere_integer.2 hi⟩
    · next hn => exact everywhere_integer.2 (integer n h.self hn)
  | float x text => exact everywhere_float.2 (node _ h.self nofun)
  | string s => exact everywhere_string.2 (node _ h.self nofun)
  | boolean b => exact everywhere_boolean.2 (node _ h.self nofun)
  | identifier name => exact everywhere_identifier.2 (node _ h.self nofun)
  | operation op l r ihl ihr =>
    obtain ⟨hd, hl, hr⟩ := everywhere_operation.1 h
    exact everywhere_operation.2 ⟨node _ hd nofun, ihl hl, ihr hr⟩
  | prefixed op e ih =>
    obtain ⟨hd, he⟩ := everywhere_prefixed.1 h
    exact everywhere_prefixed.2 ⟨node _ hd nofun, ih he⟩
  | postfixed op e ih =>
    obtain ⟨hd, he⟩ := everywhere_postfixed.1 h
    exact everywhere_postfixed.2 ⟨node _ hd nofun, ih he⟩
  | call head args ih iha =>
    obtain ⟨hd, hh, ha⟩ := everywhere_call.1 h
    exact everywhere_call.2 ⟨node _ hd nofun, ih hh,
      everywhere_normalItems fun a hm => iha a hm (ha a hm)⟩
  | indexed target indices ih iha =>
    obtain ⟨hd, ht, hi⟩ := everywhere_indexed.1 h
    exact everywhere_indexed.2 ⟨node _ hd nofun, ih ht,
      everywhere_normalItems fun a hm => iha a hm (hi a hm)⟩
  | conditional branches otherwise ihb iho =>
    obtain ⟨hd, hb, ho⟩ := everywhere_conditional.1 h
    refine everywhere_conditional.2 ⟨node _ hd nofun, ?_, ?_⟩
    · rw [normalBranches_eq_map]
      exact List.forall_mem_map.2 fun b hm =>
        ⟨(ihb b hm).1 (hb b hm).1, (ihb b hm).2 (hb b hm).2⟩
    · rw [normalOption_eq_map]
      rintro _ hm
      obtain ⟨e, he, rfl⟩ := Option.map_eq_some_iff.1 (Option.mem_def.1 hm)
      exact iho e he (ho e he)
  | list items ih =>
    obtain ⟨hd, hi⟩ := everywhere_list.1 h
    exact everywhere_list.2 ⟨node _ hd nofun,
      everywhere_normalItems fun a hm => ih a hm (hi a hm)⟩
  | set items ih =>
    obtain ⟨hd, hi⟩ := everywhere_set.1 h
    exact everywhere_set.2 ⟨node _ hd nofun,
      everywhere_normalItems fun a hm => ih a hm (hi a hm)⟩
  | root items ih =>
    obtain ⟨hd, hi⟩ := everywhere_root.1 h
    exact everywhere_root.2 ⟨node _ hd nofun,
      everywhere_normalItems fun a hm => ih a hm (hi a hm)⟩

theorem isIdentifier_normal (e : Expr) : (normal e).isIdentifier = e.isIdentifier := by
  cases e with
  | integer n => rw [normal_integer]; split <;> rfl
  | _ => rfl

theorem isQuoted_normal (e : Expr) : (normal e).isQuoted = e.isQuoted := by
  cases e with
  | integer n => rw [normal_integer]; split <;> rfl
  | _ => rfl

theorem stacksQuotes_normal (e : Expr) : (normal e).stacksQuotes = e.stacksQuotes := by
  cases e with
  | integer n => rw [normal_integer]; split <;> rfl
  | prefixed op e => exact congrArg (op == "'" && ·) (isQuoted_normal e)
  | _ => rfl

theorem hasShape_normal {IsName : String → Prop} {e : Expr} (h : HasShape IsName e)
    (hn : ∀ n, e ≠ .integer n) : HasShape IsName (normal e) := by
  cases e with
  | integer n => exact absurd rfl (hn n)
  | call head args => exact (isIdentifier_normal head).trans h
  | indexed target indices => exact (isIdentifier_normal target).trans h
  | conditional branches otherwise =>
    rw [normal, normalBranches_eq_map]
    exact fun he => h (List.map_eq_nil_iff.1 he)
  | _ => exact h

theorem hasShape_neg {IsName : String → Prop} {n : Int} (h : HasShape IsName (.integer n)) :
    HasShape IsName (.integer (-n)) := by
  change (Nat.toDigits 10 (-n).natAbs).length ≤ Numeral.maxDigits
  rw [Int.natAbs_neg]
  exact h

theorem isNegativeInteger_normal (e : Expr) : (normal e).isNegativeInteger = false := by
  cases e with
  | integer n =>
    rw [normal_integer]
    split
    · rfl
    · next h => exact decide_eq_false h
  | _ => rfl

theorem WellFormed.normal {e : Expr} (h : WellFormed e) : WellFormed e.normal := by
  refine everywhere_normal ?_ ?_ ?_ h
  · exact fun n hd _ => hd
  · exact fun n hd _ => ⟨⟨(by decide : "-" ∈ prefixOperators.map Prod.fst), rfl⟩,
      hasShape_neg hd.1, rfl⟩
  · exact fun d hd hn => ⟨hasShape_normal hd.1 hn, (stacksQuotes_normal d).trans hd.2⟩

theorem IsPlainName.isReadName {name : String} (h : IsPlainName name) : IsReadName name := by
  refine ⟨h.1, fun hm => h.2 ?_⟩
  have sub : ∀ w ∈ ["true", "false"], w ∈ words := by decide
  exact sub _ hm

theorem HasShape.imp {P Q : String → Prop} (hPQ : ∀ name, P name → Q name) {e : Expr}
    (h : HasShape P e) : HasShape Q e := by
  cases e with
  | identifier name => exact hPQ name h
  | _ => exact h

theorem WellFormed.readable {e : Expr} (h : WellFormed e) : Readable e.normal := by
  refine everywhere_normal ?_ ?_ ?_ h
  · exact fun n hd hn => ⟨hd.1, decide_eq_false hn⟩
  · refine fun n hd hn => ⟨⟨(by decide : "-" ∈ prefixOperators.map Prod.fst), rfl⟩,
      hasShape_neg hd.1, decide_eq_false ?_⟩
    omega
  · exact fun d hd hn => ⟨(hasShape_normal hd.1 hn).imp fun _ => IsPlainName.isReadName,
      isNegativeInteger_normal d⟩

end AlgebraBatch.Expr
