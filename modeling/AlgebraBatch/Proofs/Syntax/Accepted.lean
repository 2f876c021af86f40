import AlgebraBatch.Proofs.Syntax.FloatLexeme
import AlgebraBatch.Proofs.Syntax.Level
import AlgebraBatch.Proofs.Syntax.Meaning
import AlgebraBatch.Proofs.Syntax.Primary
import AlgebraBatch.Proofs.Syntax.Token

/-!
# What an accepted text means

Every expression that a text means is readable. The proof follows the rules: what each of them reads
means a readable expression if it is followed by what may follow a token (`Accepts`), because the
parts of it are.
-/

namespace AlgebraBatch.Syntax

open AlgebraBatch.Text Peg AlgebraBatch.Expr AlgebraBatch.Syntax.Tree

/-- Before `s'`, the tree means a readable expression unless one of its integers is too long. -/
def Accepts (t : Tree) (s' : List Char) : Prop :=
  MayFollow s' → (∀ d ∈ t.nodes, d.tooManyDigits? = none) → Readable t.expr

/-- The rules, where what they read is accepted. -/
abbrev AcceptedBy : RuleReading := fun R s t s' => ReadsAs R s t s' ∧ Accepts t s'

variable {s s₁ s₂ s' : List Char} {l r t : Tree}

/-! ## Operations -/

theorem text_between {w : String} (h : s = w.toList ++ s') : (Piece.between s s').text = w := by
  rw [h, text_between_append, String.ofList_toList]

theorem operator_spelling {R : Rule} {p : Pattern} (hp : R.operator? = some p) :
    p.spellings ≠ [] ∧ ∀ w ∈ p.spellings,
      operatorName w ∈ binaryOperators.map Prod.fst ∧ operatorName w ≠ "**" := by
  cases R <;> cases hp <;> decide

theorem accepts_binary {R : Rule} {p : Pattern} (hp : R.operator? = some p)
    (h : p.accept (skipBlanks s₁) = some s₂) (hl : Accepts l s₁) (hr : Accepts r s') :
    Accepts (.binary (.between (skipBlanks s₁) s₂) l r) s' := by
  intro hs hd
  obtain ⟨hne, hshape⟩ := operator_spelling hp
  obtain ⟨w, hw, hspell⟩ := accept_spelling hne h
  obtain ⟨-, hd⟩ := List.forall_mem_cons.1 hd
  obtain ⟨hdl, hdr⟩ := List.forall_mem_append.1 hd
  refine everywhere_operation.2 ⟨⟨?_, rfl⟩, hl (mayFollow_of_accept hne h) hdl, hr hs hdr⟩
  rw [text_between hspell]
  exact hshape w hw

theorem accepts_unary {p : Pattern} (hp : p = .sign ∨ p = .notWord) (h : p.accept s = some s₁)
    (ht : Accepts t s') : Accepts (.unary (.between s s') (.between s s₁) t) s' := by
  intro hs hd
  have hspellings : p.spellings ≠ [] ∧ ∀ w ∈ p.spellings, w ∈ prefixOperators.map Prod.fst := by
    rcases hp with rfl | rfl <;> decide
  obtain ⟨w, hw, hspell⟩ := accept_spelling hspellings.1 h
  refine everywhere_prefixed.2 ⟨⟨?_, rfl⟩, ht hs (List.forall_mem_cons.1 hd).2⟩
  rw [text_between hspell]
  exact hspellings.2 w hw

theorem accepts_chain {R Q : Rule} {p : Pattern} (hp : R.operator? = some p)
    (h : Chain AcceptedBy p Q s t s') : Accepts t s' := by
  induction h with
  | one h => exact h.2
  | more _ ho hr ih => exact accepts_binary hp ho ih hr.2

theorem accepts_rightChain {R Q C : Rule} {p : Pattern} (hp : R.operator? = some p)
    (h : Derives grammar AcceptedBy (Reads.rightChain p Q C) s t s') : Accepts t s' := by
  rcases derives_rightChain.1 h with ⟨ht, -⟩ | ⟨l, s₁, s₂, r, hl, ho, hr, rfl⟩
  · exact ht.2
  · exact accepts_binary hp ho hl.2 hr.2

theorem accepts_prefixed {p : Pattern} {R : Rule} (hp : p = .sign ∨ p = .notWord)
    (h : Derives grammar AcceptedBy (Reads.prefixed p R) s t s') : Accepts t s' := by
  obtain ⟨s₁, u, ho, hu, rfl⟩ := derives_prefixed.1 h
  exact accepts_unary hp ho hu.2

theorem accepts_factorial (h : Derives grammar AcceptedBy Reads.factorial s t s') :
    Accepts t s' := by
  rcases derives_factorial.1 h with ⟨hu, -⟩ | ⟨u, hu, rfl⟩
  · exact hu.2
  · intro _ hd
    have hbang : MayFollow ('!' :: s') := .inl (by decide)
    exact everywhere_postfixed.2 ⟨⟨rfl, rfl⟩, hu.2 hbang (List.forall_mem_cons.1 hd).2⟩

/-! ## Atoms -/

theorem accepts_float (h : Pattern.float.accept s = some s') :
    Accepts (.atom .float (.between s s')) s' := by
  intro _ _
  obtain ⟨u, rfl, hl⟩ := Numeral.float_lexeme h
  refine everywhere_float.2 ⟨⟨?_, rfl⟩, rfl⟩
  rw [text_between_append, String.toList_ofList]
  exact hl

theorem accepts_integer (h : Pattern.integer.accept s = some s') :
    Accepts (.atom .integer (.between s s')) s' := by
  intro _ hd
  obtain ⟨u, rfl, hne, hu⟩ := integer_lexeme h
  have hshort := hd _ List.mem_cons_self
  rw [tooManyDigits?, text_between_append, String.length_ofList] at hshort
  have hlen : u.length ≤ Numeral.maxDigits := by
    by_contra hlt
    rw [if_pos (Nat.not_le.1 hlt)] at hshort
    cases hshort
  refine everywhere_integer.2 ⟨?_, ?_⟩
  · rw [text_between_append, String.toList_ofList]
    exact (length_toDigits_digitsToNat hu hne).trans hlen
  · change decide ((digitsToNat (Piece.between (u ++ s') s').text.toList : Int) < 0) = false
    exact decide_eq_false (Int.not_lt.2 (Int.natCast_nonneg _))

theorem accepts_name (hi : Pattern.identifier.accept s = some s₁)
    (hb : Pattern.boolean.accept s = none) (hs : MayFollow s₁) :
    Readable (.identifier (Piece.between s s₁).text) := by
  obtain ⟨u, rfl, hname⟩ := isReadName_of_accept hi hb hs
  refine everywhere_identifier.2 ⟨?_, rfl⟩
  rw [text_between_append]
  exact hname

/-! ## Brackets -/

theorem accepts_items {ts : List Tree}
    (h : Repeats (Derives grammar AcceptedBy Reads.commaItem) (Refuses grammar Reads.commaItem) s ts
      s') (hs : MayFollow s') :
    MayFollow s ∧ ((∀ d ∈ nodesItems ts, d.tooManyDigits? = none) →
      ∀ e ∈ exprItems ts, Readable e) := by
  induction h with
  | nil => exact ⟨hs, fun _ => nofun⟩
  | cons hx _ ih =>
    obtain ⟨hs₁, ih⟩ := ih hs
    obtain ⟨s₂, hcomma, ht⟩ := derives_commaItem.1 hx
    refine ⟨mayFollow_of_skipBlanks hcomma (by decide), fun hd => ?_⟩
    obtain ⟨hdt, hdts⟩ := List.forall_mem_append.1 hd
    exact List.forall_mem_cons.2 ⟨ht.2 hs₁ hdt, ih hdts⟩

theorem accepts_enclosed {opening closing : Char} {ts : List Tree} (hc : closing.toNat < 0x80)
    (h : Derives grammar AcceptedBy (Reads.enclosed opening closing) s ts s')
    (hd : ∀ d ∈ nodesItems ts, d.tooManyDigits? = none) : ∀ e ∈ exprItems ts, Readable e := by
  obtain ⟨s₁, s₂, -, hi, hclose⟩ := derives_enclosed.1 h
  have hs₂ := mayFollow_of_skipBlanks hclose hc
  cases hi with
  | nil => exact nofun
  | cons ht hm =>
    obtain ⟨hs₃, hts⟩ := accepts_items hm hs₂
    obtain ⟨hdt, hdts⟩ := List.forall_mem_append.1 hd
    exact List.forall_mem_cons.2 ⟨ht.2 hs₃ hdt, hts hdts⟩

/-! ## Conditionals -/

/-- Both parts of a branch are readable. -/
def ReadableBranch (b : Expr × Expr) : Prop := Readable b.1 ∧ Readable b.2

theorem accepts_branch {x : Tree × Tree} (h : Derives grammar AcceptedBy Reads.branch s x s')
    (hs : MayFollow s') (hd : ∀ d ∈ x.1.nodes ++ x.2.nodes, d.tooManyDigits? = none) :
    ReadableBranch (x.1.expr, x.2.expr) := by
  obtain ⟨s₁, s₂, hc, hthen, hv⟩ := derives_branch.1 h
  obtain ⟨hdc, hdv⟩ := List.forall_mem_append.1 hd
  exact ⟨hc.2 (mayFollow_of_accept (by decide) hthen) hdc, hv.2 hs hdv⟩

theorem accepts_branches {xs : List (Tree × Tree)}
    (h : Repeats (Derives grammar AcceptedBy Reads.furtherBranch)
      (Refuses grammar Reads.furtherBranch) s xs s') (hs : MayFollow s') :
    MayFollow s ∧ ((∀ d ∈ nodesBranches xs, d.tooManyDigits? = none) →
      ∀ b ∈ exprBranches xs, ReadableBranch b) := by
  induction h with
  | nil => exact ⟨hs, fun _ => nofun⟩
  | cons hx _ ih =>
    obtain ⟨hs₁, ih⟩ := ih hs
    obtain ⟨s₂, hword, hb⟩ := derives_furtherBranch.1 hx
    refine ⟨mayFollow_of_accept (by decide) hword, fun hd => ?_⟩
    obtain ⟨hdb, hdbs⟩ := List.forall_mem_append.1 hd
    exact List.forall_mem_cons.2 ⟨accepts_branch hb hs₁ hdb, ih hdbs⟩

theorem accepts_conditional (h : Derives grammar AcceptedBy Reads.conditional s t s') :
    Accepts t s' := by
  intro hs hd
  obtain ⟨s₁, s₂, s₃, first, more, otherwise, -, hf, hm, ho, rfl⟩ := derives_conditional.1 h
  obtain ⟨hd, hdo⟩ := List.forall_mem_append.1 (List.forall_mem_cons.1 hd).2
  obtain ⟨hdf, hdm⟩ := List.forall_mem_append.1 hd
  have hlast : MayFollow s₃ ∧ ∀ e ∈ exprOption otherwise, Readable e := by
    cases otherwise with
    | none =>
      obtain ⟨-, rfl⟩ := ho
      exact ⟨hs, nofun⟩
    | some u =>
      obtain ⟨s₄, hword, hu⟩ := derives_lastValue.1 ho
      refine ⟨mayFollow_of_accept (by decide) hword, fun e he => ?_⟩
      obtain rfl := Option.some.inj he
      exact hu.2 hs hdo
  obtain ⟨hs₂, hmore⟩ := accepts_branches hm hlast.1
  refine everywhere_conditional.2 ⟨⟨nofun, rfl⟩, ?_, hlast.2⟩
  exact List.forall_mem_cons.2 ⟨accepts_branch hf hs₂ hdf, hmore hdm⟩

/-! ## Primary expressions -/

theorem accepts_compound (hb : Pattern.boolean.accept s = none)
    (h : Derives grammar AcceptedBy Reads.compound s t s') : Accepts t s' := by
  have headed {opening closing : Char} (ho : opening.toNat < 0x80) {s₁ : List Char} {ts : List Tree}
      (hi : Pattern.identifier.accept s = some s₁)
      (he : Derives grammar AcceptedBy (Reads.enclosed opening closing) s₁ ts s') :
      Readable (.identifier (Piece.between s s₁).text) := by
    obtain ⟨s₂, -, rfl, -, -⟩ := derives_enclosed.1 he
    exact accepts_name hi hb (.inl ho)
  rcases h with h | ⟨-, h | ⟨-, h | ⟨-, h | ⟨-, h | ⟨-, h | ⟨-, h⟩⟩⟩⟩⟩⟩
  · exact accepts_conditional h
  · intro _ hd
    obtain ⟨s₁, ts, hi, he, rfl⟩ := derives_headed.1 h
    have hdt := (List.forall_mem_cons.1 (List.forall_mem_cons.1 hd).2).2
    exact everywhere_call.2 ⟨⟨rfl, rfl⟩, headed (by decide) hi he,
      accepts_enclosed (by decide) he hdt⟩
  · intro _ hd
    obtain ⟨s₁, ts, hi, he, rfl⟩ := derives_headed.1 h
    have hdt := (List.forall_mem_cons.1 (List.forall_mem_cons.1 hd).2).2
    exact everywhere_indexed.2 ⟨⟨rfl, rfl⟩, headed (by decide) hi he,
      accepts_enclosed (by decide) he hdt⟩
  · intro hs _
    obtain ⟨hi, rfl⟩ := derives_atom.1 h
    exact accepts_name hi hb hs
  · intro _ hd
    obtain ⟨ts, he, rfl⟩ := derives_bracketed.1 h
    exact everywhere_list.2 ⟨⟨trivial, rfl⟩,
      accepts_enclosed (by decide) he (List.forall_mem_cons.1 hd).2⟩
  · intro _ hd
    obtain ⟨ts, he, rfl⟩ := derives_bracketed.1 h
    exact everywhere_set.2 ⟨⟨trivial, rfl⟩,
      accepts_enclosed (by decide) he (List.forall_mem_cons.1 hd).2⟩
  · intro _ hd
    obtain ⟨s₁, s₂, rfl, ht, hclose⟩ := derives_group.1 h
    exact ht.2 (mayFollow_of_skipBlanks hclose (by decide)) hd

theorem accepts_primary (h : Derives grammar AcceptedBy Reads.primary s t s') : Accepts t s' := by
  rcases h with h | ⟨-, h | ⟨-, h | ⟨-, h | ⟨hb, h⟩⟩⟩⟩
  · obtain ⟨ha, rfl⟩ := derives_atom.1 h
    exact accepts_float ha
  · obtain ⟨ha, rfl⟩ := derives_atom.1 h
    exact accepts_integer ha
  · obtain ⟨-, rfl⟩ := derives_atom.1 h
    exact fun _ _ => everywhere_string.2 ⟨trivial, rfl⟩
  · obtain ⟨-, rfl⟩ := derives_atom.1 h
    exact fun _ _ => everywhere_boolean.2 ⟨trivial, rfl⟩
  · exact accepts_compound (refuses_atom.1 hb) h

/-! ## All rules -/

theorem accepts_of_reads {R : Rule} (h : ReadsAs R s t s') : Accepts t s' := by
  refine rule_induction (motive := fun _ _ t s' => Accepts t s') ?_ h
  intro R s t s' h
  change Derives grammar AcceptedBy (Reads.body R) s t s' at h
  cases R with
  | assignment => exact accepts_rightChain (R := .assignment) rfl h
  | disjunction => exact accepts_chain (R := .disjunction) rfl (derives_leftChain.1 h).1
  | conjunction => exact accepts_chain (R := .conjunction) rfl (derives_leftChain.1 h).1
  | negation =>
    rcases h with h | ⟨-, h⟩
    · exact accepts_prefixed (.inr rfl) h
    · exact h.2
  | relation => exact accepts_chain (R := .relation) rfl (derives_leftChain.1 h).1
  | sum => exact accepts_chain (R := .sum) rfl (derives_leftChain.1 h).1
  | product => exact accepts_chain (R := .product) rfl (derives_leftChain.1 h).1
  | signed =>
    rcases h with h | ⟨-, h⟩
    · exact accepts_prefixed (.inl rfl) h
    · exact h.2
  | dotProduct => exact accepts_chain (R := .dotProduct) rfl (derives_leftChain.1 h).1
  | exponent =>
    rcases h with h | ⟨-, h⟩
    · exact accepts_prefixed (.inl rfl) h
    · exact h.2
  | power => exact accepts_rightChain (R := .power) rfl h
  | factorial => exact accepts_factorial h
  | primary => exact accepts_primary h

/-- A text is read as one expression between blanks. -/
theorem yields_root {s : List Char} {t : Tree} :
    Yields grammar Reads.root s t [] ↔
      ∃ s', ReadsAs .assignment (skipBlanks s) t s' ∧ skipBlanks s' = [] := by
  rw [yields_iff, Reads.root, derives_spaced, derives_keep]
  constructor
  · rintro ⟨_, s', h, hb, -⟩
    exact ⟨s', h, Option.some.inj hb⟩
  · rintro ⟨s', h, hb⟩
    exact ⟨.between s' [], s', h, congrArg some hb, rfl⟩

/-- What a text means is readable. -/
theorem readable_of_parseExpr {text : String} {e : Expr} (h : parseExpr text = .ok e) :
    Readable e := by
  obtain ⟨t, hy, ho, rfl⟩ := parseExpr_eq_ok.1 h
  obtain ⟨s', hr, hs'⟩ := yields_root.1 hy
  exact accepts_of_reads hr (mayFollow_of_skipBlanks_nil hs') (overlong?_eq_none.1 ho)

end AlgebraBatch.Syntax
