import AlgebraBatch.Proofs.Syntax.Depth

/-!
# What the forms of the grammar read

For each form of the expression grammar (a chain of operands, an operator before its operand, items
between brackets, …) there is one lemma that says what it derives, in terms of the text and of what
the rules read. A chain that groups to the left is described by `Chain`, which grows at its right end
like the tree does.
-/

namespace AlgebraBatch.Syntax

open AlgebraBatch.Text Peg

/-- The text after the blanks at its beginning. -/
def skipBlanks (s : List Char) : List Char := s.dropWhile isPatternBlank

/-- How rules read: the rule, the text, the tree, and the rest of the text. -/
abbrev RuleReading : Type := Rule → List Char → Tree → List Char → Prop

/-- A rule of the grammar reads a tree. -/
abbrev ReadsAs : RuleReading := rules grammar

variable {M : RuleReading} {s s' : List Char}

/-! ## Tokens and blanks -/

theorem derives_spaced {α : Type} {a : Reads α} {x : α} :
    Derives grammar M (Reads.spaced a) s x s' ↔ Derives grammar M a (skipBlanks s) x s' := by
  constructor
  · rintro ⟨⟨b, y⟩, ⟨s₁, ⟨h, -⟩, hy⟩, rfl⟩
    cases h
    exact hy
  · intro h
    exact ⟨(.between s (skipBlanks s), x), ⟨skipBlanks s, ⟨rfl, rfl⟩, h⟩, rfl⟩

theorem derives_skip {α β : Type} {a : Reads α} {b : Reads β} {y : β} :
    Derives grammar M (Reads.skip a b) s y s' ↔
      ∃ x s₁, Derives grammar M a s x s₁ ∧ Derives grammar M b s₁ y s' := by
  constructor
  · rintro ⟨⟨x, z⟩, ⟨s₁, ha, hb⟩, rfl⟩
    exact ⟨x, s₁, ha, hb⟩
  · rintro ⟨x, s₁, ha, hb⟩
    exact ⟨(x, y), ⟨s₁, ha, hb⟩, rfl⟩

theorem derives_keep {α β : Type} {a : Reads α} {b : Reads β} {x : α} :
    Derives grammar M (Reads.keep a b) s x s' ↔
      ∃ y s₁, Derives grammar M a s x s₁ ∧ Derives grammar M b s₁ y s' := by
  constructor
  · rintro ⟨⟨z, y⟩, ⟨s₁, ha, hb⟩, rfl⟩
    exact ⟨y, s₁, ha, hb⟩
  · rintro ⟨y, s₁, ha, hb⟩
    exact ⟨(x, y), ⟨s₁, ha, hb⟩, rfl⟩

theorem accept_literal {c : Char} : Terminal.accept (.literal c) s = some s' ↔ s = c :: s' := by
  cases s with
  | nil => simp [Terminal.accept]
  | cons d s =>
    rw [Terminal.accept]
    split
    · next h => simp [eq_of_beq h]
    · next h => simp at h; simp [h]

theorem derives_char {c : Char} {x : Piece} :
    Derives grammar M (Reads.char c) s x s' ↔ s = c :: s' ∧ x = .between s s' :=
  and_congr_left' accept_literal

theorem derives_skip_char {α : Type} {c : Char} {a : Reads α} {x : α} :
    Derives grammar M (Reads.skip (Reads.char c) a) s x s' ↔
      ∃ s₁, s = c :: s₁ ∧ Derives grammar M a s₁ x s' := by
  rw [derives_skip]
  constructor
  · rintro ⟨_, s₁, h, ha⟩
    exact ⟨s₁, (derives_char.1 h).1, ha⟩
  · rintro ⟨s₁, h, ha⟩
    exact ⟨_, s₁, derives_char.2 ⟨h, rfl⟩, ha⟩

theorem derives_skip_one {α : Type} {p : Pattern} {a : Reads α} {x : α} :
    Derives grammar M (Reads.skip (Reads.one p) a) s x s' ↔
      ∃ s₁, p.accept s = some s₁ ∧ Derives grammar M a s₁ x s' := by
  rw [derives_skip]
  constructor
  · rintro ⟨_, s₁, ⟨h, -⟩, ha⟩
    exact ⟨s₁, h, ha⟩
  · rintro ⟨s₁, h, ha⟩
    exact ⟨_, s₁, ⟨h, rfl⟩, ha⟩

/-! ## Chains -/

theorem derives_continued {op : Pattern} {R : Rule} {x : Piece × Tree} :
    Derives grammar M (Reads.continued op R) s x s' ↔
      ∃ s₁, op.accept (skipBlanks s) = some s₁ ∧ x.1 = .between (skipBlanks s) s₁ ∧
        M R (skipBlanks s₁) x.2 s' := by
  rw [Reads.continued, derives_spaced]
  constructor
  · rintro ⟨s₁, ⟨h, e⟩, hR⟩
    exact ⟨s₁, h, e, derives_spaced.1 hR⟩
  · rintro ⟨s₁, h, e, hR⟩
    exact ⟨s₁, ⟨h, e⟩, derives_spaced.2 hR⟩

/-- Operands that `R` reads with operators `op` between them, grouped to the left. -/
inductive Chain (M : RuleReading) (op : Pattern) (R : Rule) :
    List Char → Tree → List Char → Prop where
  | one {s s' : List Char} {t : Tree} : M R s t s' → Chain M op R s t s'
  | more {s s₁ s₂ s' : List Char} {l r : Tree} : Chain M op R s l s₁ →
      op.accept (skipBlanks s₁) = some s₂ → M R (skipBlanks s₂) r s' →
      Chain M op R s (.binary (.between (skipBlanks s₁) s₂) l r) s'

theorem Chain.imp {N : RuleReading} {op : Pattern} {R : Rule} {t : Tree}
    (hMN : ∀ {s t s'}, M R s t s' → N R s t s') (h : Chain M op R s t s') :
    Chain N op R s t s' := by
  induction h with
  | one h => exact .one (hMN h)
  | more _ ho hr ih => exact .more ih ho (hMN hr)

theorem Chain.extend {op : Pattern} {R : Rule} {s₁ : List Char} {xs : List (Piece × Tree)}
    (h : Repeats (Derives grammar M (Reads.continued op R)) (Refuses grammar (Reads.continued op R))
      s₁ xs s') :
    ∀ {t : Tree}, Chain M op R s t s₁ →
      Chain M op R s (xs.foldl (fun l (o, r) => .binary o l r) t) s' ∧
        Refuses grammar (Reads.continued op R) s' := by
  induction h with
  | nil hn => exact fun hc => ⟨hc, hn⟩
  | cons hx _ ih =>
    intro t hc
    obtain ⟨s₂, h, e, hR⟩ := derives_continued.1 hx
    rw [List.foldl_cons]
    simp only [e]
    exact ih (.more hc h hR)

theorem derives_leftChain {op : Pattern} {R : Rule} {t : Tree} :
    Derives grammar M (Reads.leftChain op R) s t s' ↔
      Chain M op R s t s' ∧ Refuses grammar (Reads.continued op R) s' := by
  constructor
  · rintro ⟨⟨first, more⟩, ⟨s₁, hf, hm⟩, rfl⟩
    exact Chain.extend hm (.one hf)
  · rintro ⟨hc, hn⟩
    -- What comes after the part of the chain that is already there may be anything.
    suffices build : ∀ {t s₁}, Chain M op R s t s₁ → ∀ {xs},
        Repeats (Derives grammar M (Reads.continued op R))
          (Refuses grammar (Reads.continued op R)) s₁ xs s' →
        Derives grammar M (Reads.leftChain op R) s
          (xs.foldl (fun l (o, r) => .binary o l r) t) s' from build hc (.nil hn)
    intro t s₁ hc
    induction hc with
    | one hR => exact fun {xs} hx => ⟨(_, xs), ⟨_, hR, hx⟩, rfl⟩
    | @more s₁ s₂ _ l r _ h hR ih =>
      intro xs hx
      have ho : Derives grammar M (Reads.continued op R) s₁
          (.between (skipBlanks s₁) s₂, r) _ := derives_continued.2 ⟨s₂, h, rfl, hR⟩
      exact ih (.cons ho hx)

theorem derives_rightChain {op : Pattern} {R C : Rule} {t : Tree} :
    Derives grammar M (Reads.rightChain op R C) s t s' ↔
      M R s t s' ∧ Refuses grammar (Reads.continued op C) s' ∨
      ∃ l s₁ s₂ r, M R s l s₁ ∧ op.accept (skipBlanks s₁) = some s₂ ∧ M C (skipBlanks s₂) r s' ∧
        t = .binary (.between (skipBlanks s₁) s₂) l r := by
  constructor
  · rintro ⟨⟨first, more⟩, ⟨s₁, hf, hm⟩, rfl⟩
    cases more with
    | none =>
      obtain ⟨hn, rfl⟩ := hm
      exact .inl ⟨hf, hn⟩
    | some x =>
      obtain ⟨o, r⟩ := x
      obtain ⟨s₂, h, rfl, hR⟩ := derives_continued.1 hm
      exact .inr ⟨first, s₁, s₂, r, hf, h, hR, rfl⟩
  · rintro (⟨hf, hn⟩ | ⟨l, s₁, s₂, r, hf, h, hR, rfl⟩)
    · exact ⟨(t, none), ⟨s', hf, hn, rfl⟩, rfl⟩
    · exact ⟨(l, some (_, r)), ⟨s₁, hf, derives_continued.2 ⟨s₂, h, rfl, hR⟩⟩, rfl⟩

theorem derives_prefixed {op : Pattern} {R : Rule} {t : Tree} :
    Derives grammar M (Reads.prefixed op R) s t s' ↔
      ∃ s₁ u, op.accept s = some s₁ ∧ M R (skipBlanks s₁) u s' ∧
        t = .unary (.between s s') (.between s s₁) u := by
  constructor
  · rintro ⟨⟨span, o, u⟩, ⟨⟨s₁, ⟨h, ho⟩, hR⟩, hs⟩, rfl⟩
    obtain rfl : o = _ := ho
    obtain rfl : span = _ := hs
    exact ⟨s₁, u, h, derives_spaced.1 hR, rfl⟩
  · rintro ⟨s₁, u, h, hR, rfl⟩
    exact ⟨(_, _, u), ⟨⟨s₁, ⟨h, rfl⟩, derives_spaced.2 hR⟩, rfl⟩, rfl⟩

/-! ## Brackets -/

/-- A comma and the expression after it. -/
abbrev Reads.commaItem : Reads Tree :=
  Reads.spaced (Reads.skip (Reads.char ',') (Reads.spaced (.rule .assignment)))

theorem derives_commaItem {t : Tree} :
    Derives grammar M Reads.commaItem s t s' ↔
      ∃ s₁, skipBlanks s = ',' :: s₁ ∧ M .assignment (skipBlanks s₁) t s' := by
  rw [derives_spaced, derives_skip_char]
  exact exists_congr fun s₁ => and_congr_right' derives_spaced

/-- Expressions with commas between them. -/
inductive Items (M : RuleReading) : List Char → List Tree → List Char → Prop where
  | nil {s : List Char} : Refuses grammar (.rule .assignment) s → Items M s [] s
  | cons {s s₁ s' : List Char} {t : Tree} {ts : List Tree} : M .assignment s t s₁ →
      Repeats (Derives grammar M Reads.commaItem) (Refuses grammar Reads.commaItem) s₁ ts s' →
      Items M s (t :: ts) s'

theorem derives_items {ts : List Tree} :
    Derives grammar M Reads.items s ts s' ↔ Items M s ts s' := by
  constructor
  · rintro ⟨o, h, rfl⟩
    cases o with
    | none =>
      obtain ⟨hn, rfl⟩ := h
      refine .nil ((refuses_seq.1 hn).resolve_right ?_)
      rintro ⟨_, _, -, hm⟩
      exact not_refuses_many hm
    | some x =>
      obtain ⟨s₁, ht, hm⟩ := h
      exact .cons ht hm
  · intro h
    cases h with
    | nil hn => exact ⟨none, ⟨refuses_seq.2 (.inl hn), rfl⟩, rfl⟩
    | @cons s₁ _ t ts ht hm => exact ⟨some (t, ts), ⟨s₁, ht, hm⟩, rfl⟩

theorem derives_enclosed {opening closing : Char} {ts : List Tree} :
    Derives grammar M (Reads.enclosed opening closing) s ts s' ↔
      ∃ s₁ s₂, s = opening :: s₁ ∧ Items M (skipBlanks s₁) ts s₂ ∧
        skipBlanks s₂ = closing :: s' := by
  rw [Reads.enclosed, derives_skip_char]
  constructor
  · rintro ⟨s₁, rfl, h⟩
    obtain ⟨_, s₂, hi, hc⟩ := derives_keep.1 (derives_spaced.1 h)
    exact ⟨s₁, s₂, rfl, derives_items.1 hi, (derives_char.1 (derives_spaced.1 hc)).1⟩
  · rintro ⟨s₁, s₂, rfl, hi, hc⟩
    have hc' := derives_spaced.2 (derives_char (M := M).2 ⟨hc, rfl⟩)
    exact ⟨s₁, rfl, derives_spaced.2 (derives_keep.2 ⟨_, s₂, derives_items.2 hi, hc'⟩)⟩

theorem derives_group {t : Tree} :
    Derives grammar M Reads.group s t s' ↔
      ∃ s₁ s₂, s = '(' :: s₁ ∧ M .assignment (skipBlanks s₁) t s₂ ∧ skipBlanks s₂ = ')' :: s' := by
  rw [Reads.group, derives_skip_char]
  constructor
  · rintro ⟨s₁, rfl, h⟩
    obtain ⟨_, s₂, ht, hc⟩ := derives_keep.1 (derives_spaced.1 h)
    exact ⟨s₁, s₂, rfl, ht, (derives_char.1 (derives_spaced.1 hc)).1⟩
  · rintro ⟨s₁, s₂, rfl, ht, hc⟩
    have hc' := derives_spaced.2 (derives_char (M := M).2 ⟨hc, rfl⟩)
    exact ⟨s₁, rfl, derives_spaced.2 (derives_keep.2 ⟨_, s₂, ht, hc'⟩)⟩

/-! ## Primary expressions -/

theorem derives_atom {k : AtomKind} {p : Pattern} {t : Tree} :
    Derives grammar M (Reads.atom k p) s t s' ↔
      p.accept s = some s' ∧ t = .atom k (.between s s') := by
  constructor
  · rintro ⟨x, ⟨h, rfl⟩, rfl⟩
    exact ⟨h, rfl⟩
  · rintro ⟨h, rfl⟩
    exact ⟨_, ⟨h, rfl⟩, rfl⟩

/-- A name and what stands in the brackets right after it. -/
theorem derives_headed {opening closing : Char} {f : Piece → Piece → List Tree → Tree} {t : Tree} :
    Derives grammar M (.map (fun (span, head, args) => f span head args)
      (.spanned (.seq (Reads.one .identifier) (Reads.enclosed opening closing)))) s t s' ↔
      ∃ s₁ ts, Pattern.identifier.accept s = some s₁ ∧
        Derives grammar M (Reads.enclosed opening closing) s₁ ts s' ∧
        t = f (.between s s') (.between s s₁) ts := by
  constructor
  · rintro ⟨⟨span, head, ts⟩, ⟨⟨s₁, ⟨h, hh⟩, hts⟩, hs⟩, rfl⟩
    obtain rfl : head = _ := hh
    obtain rfl : span = _ := hs
    exact ⟨s₁, ts, h, hts, rfl⟩
  · rintro ⟨s₁, ts, h, hts, rfl⟩
    exact ⟨(_, _, ts), ⟨⟨s₁, ⟨h, rfl⟩, hts⟩, rfl⟩, rfl⟩

theorem derives_bracketed {opening closing : Char} {f : Piece → List Tree → Tree} {t : Tree} :
    Derives grammar M (.map (fun (span, ts) => f span ts)
      (.spanned (Reads.enclosed opening closing))) s t s' ↔
      ∃ ts, Derives grammar M (Reads.enclosed opening closing) s ts s' ∧
        t = f (.between s s') ts := by
  constructor
  · rintro ⟨⟨span, ts⟩, ⟨hts, hs⟩, rfl⟩
    obtain rfl : span = _ := hs
    exact ⟨ts, hts, rfl⟩
  · rintro ⟨ts, hts, rfl⟩
    exact ⟨(_, ts), ⟨hts, rfl⟩, rfl⟩

theorem derives_branch {x : Tree × Tree} :
    Derives grammar M Reads.branch s x s' ↔
      ∃ s₁ s₂, M .assignment (skipBlanks s) x.1 s₁ ∧
        Pattern.thenWord.accept (skipBlanks s₁) = some s₂ ∧ M .assignment (skipBlanks s₂) x.2 s' := by
  constructor
  · rintro ⟨s₁, hc, hv⟩
    obtain ⟨s₂, ht, hv⟩ := derives_skip_one.1 (derives_spaced.1 hv)
    exact ⟨s₁, s₂, derives_spaced.1 hc, ht, derives_spaced.1 hv⟩
  · rintro ⟨s₁, s₂, hc, ht, hv⟩
    exact ⟨s₁, derives_spaced.2 hc,
      derives_spaced.2 (derives_skip_one.2 ⟨s₂, ht, derives_spaced.2 hv⟩)⟩

/-- A further condition with its value. -/
abbrev Reads.furtherBranch : Reads (Tree × Tree) :=
  Reads.spaced (Reads.skip (Reads.one .elseifWord) Reads.branch)

/-- The value when no condition holds. -/
abbrev Reads.lastValue : Reads Tree :=
  Reads.spaced (Reads.skip (Reads.one .elseWord) (Reads.spaced (.rule .assignment)))

theorem derives_furtherBranch {x : Tree × Tree} :
    Derives grammar M Reads.furtherBranch s x s' ↔
      ∃ s₁, Pattern.elseifWord.accept (skipBlanks s) = some s₁ ∧
        Derives grammar M Reads.branch s₁ x s' := by
  rw [derives_spaced, derives_skip_one]

theorem derives_lastValue {t : Tree} :
    Derives grammar M Reads.lastValue s t s' ↔
      ∃ s₁, Pattern.elseWord.accept (skipBlanks s) = some s₁ ∧
        M .assignment (skipBlanks s₁) t s' := by
  rw [derives_spaced, derives_skip_one]
  exact exists_congr fun s₁ => and_congr_right' derives_spaced

theorem derives_conditional {t : Tree} :
    Derives grammar M Reads.conditional s t s' ↔
      ∃ s₁ s₂ s₃ first more otherwise, Pattern.ifWord.accept s = some s₁ ∧
        Derives grammar M Reads.branch s₁ first s₂ ∧
        Repeats (Derives grammar M Reads.furtherBranch) (Refuses grammar Reads.furtherBranch)
          s₂ more s₃ ∧
        Derives grammar M (.optional Reads.lastValue) s₃ otherwise s' ∧
        t = .conditional (.between s s') first more otherwise := by
  constructor
  · rintro ⟨⟨span, first, more, otherwise⟩, ⟨⟨s₂, hf, s₃, hm, ho⟩, hs⟩, rfl⟩
    obtain rfl : span = _ := hs
    obtain ⟨s₁, hi, hf⟩ := derives_skip_one.1 hf
    exact ⟨s₁, s₂, s₃, first, more, otherwise, hi, hf, hm, ho, rfl⟩
  · rintro ⟨s₁, s₂, s₃, first, more, otherwise, hi, hf, hm, ho, rfl⟩
    exact ⟨(_, first, more, otherwise),
      ⟨⟨s₂, derives_skip_one.2 ⟨s₁, hi, hf⟩, s₃, hm, ho⟩, rfl⟩, rfl⟩

theorem derives_factorial {t : Tree} :
    Derives grammar M Reads.factorial s t s' ↔
      M .primary s t s' ∧ (∀ r, s' ≠ '!' :: r) ∨
      ∃ u, M .primary s u ('!' :: s') ∧ t = .factorial (.between s s') u := by
  constructor
  · rintro ⟨⟨span, u, bang⟩, ⟨⟨s₁, hu, hb⟩, hs⟩, rfl⟩
    obtain rfl : span = _ := hs
    cases bang with
    | none =>
      obtain ⟨hn, rfl⟩ := hb
      refine .inl ⟨hu, ?_⟩
      rintro r rfl
      cases refuses_token.1 hn
    | some x =>
      obtain ⟨rfl, -⟩ := derives_char.1 hb
      exact .inr ⟨u, hu, rfl⟩
  · rintro (⟨hu, hn⟩ | ⟨u, hu, rfl⟩)
    · refine ⟨(_, t, none), ⟨⟨s', hu, refuses_token.2 ?_, rfl⟩, rfl⟩, rfl⟩
      cases h : Terminal.accept (.literal '!') s' with
      | none => exact h
      | some r => exact absurd (accept_literal.1 h) (hn r)
    · exact ⟨(_, u, some _), ⟨⟨_, hu, derives_char.2 ⟨rfl, rfl⟩⟩, rfl⟩, rfl⟩

end AlgebraBatch.Syntax
