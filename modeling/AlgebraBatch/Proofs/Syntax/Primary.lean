import AlgebraBatch.Proofs.Syntax.Climb

/-!
# Primary expressions

What the alternatives of a primary expression read, with what keeps the ones before them out: a
literal is known by its first character, a name is read where no literal and no conditional is, and
a bracket begins only what it encloses.
-/

namespace AlgebraBatch.Syntax

open AlgebraBatch.Text Peg

variable {M : RuleReading} {s s' : List Char} {t : Tree}

/-- The text begins with no literal. -/
structure NoLiteral (s : List Char) : Prop where
  float : Pattern.float.accept s = none
  integer : Pattern.integer.accept s = none
  string : Pattern.string.accept s = none
  boolean : Pattern.boolean.accept s = none

/-- The text begins with no literal, no name and no conditional. -/
structure NoWord (s : List Char) : Prop extends NoLiteral s where
  ifWord : Pattern.ifWord.accept s = none
  identifier : Pattern.identifier.accept s = none

namespace Reads

abbrev bracketed : Reads Tree := .orElse list <| .orElse set group

abbrev named : Reads Tree :=
  .orElse call <| .orElse indexed <| .orElse (atom .identifier .identifier) bracketed

abbrev compound : Reads Tree := .orElse conditional named

end Reads

theorem refuses_atom {k : AtomKind} {p : Pattern} :
    Refuses grammar (Reads.atom k p) s ↔ p.accept s = none := by
  rw [Reads.atom, refuses_map]
  exact refuses_token

/-! ## Literals -/

theorem reads_float (h : Pattern.float.accept s = some s') :
    ReadsAs .primary s (.atom .float (.between s s')) s' :=
  yields_rule_iff.2 (.inl (derives_atom.2 ⟨h, rfl⟩))

theorem reads_integer (hf : Pattern.float.accept s = none)
    (h : Pattern.integer.accept s = some s') :
    ReadsAs .primary s (.atom .integer (.between s s')) s' :=
  yields_rule_iff.2 (.inr ⟨refuses_atom.2 hf, .inl (derives_atom.2 ⟨h, rfl⟩)⟩)

theorem reads_string (hf : Pattern.float.accept s = none) (hi : Pattern.integer.accept s = none)
    (h : Pattern.string.accept s = some s') :
    ReadsAs .primary s (.atom .string (.between s s')) s' :=
  yields_rule_iff.2 (.inr ⟨refuses_atom.2 hf, .inr ⟨refuses_atom.2 hi,
    .inl (derives_atom.2 ⟨h, rfl⟩)⟩⟩)

theorem reads_boolean (hf : Pattern.float.accept s = none) (hi : Pattern.integer.accept s = none)
    (hs : Pattern.string.accept s = none) (h : Pattern.boolean.accept s = some s') :
    ReadsAs .primary s (.atom .boolean (.between s s')) s' :=
  yields_rule_iff.2 (.inr ⟨refuses_atom.2 hf, .inr ⟨refuses_atom.2 hi, .inr ⟨refuses_atom.2 hs,
    .inl (derives_atom.2 ⟨h, rfl⟩)⟩⟩⟩)

theorem derives_primary (h : NoLiteral s) :
    Derives grammar M Reads.primary s t s' ↔ Derives grammar M Reads.compound s t s' := by
  have refused {k : AtomKind} {p : Pattern} (hp : p.accept s = none) :
      ¬ Derives grammar M (Reads.atom k p) s t s' := by
    intro hd
    rw [(derives_atom.1 hd).1] at hp
    cases hp
  constructor
  · rintro (hd | ⟨-, hd | ⟨-, hd | ⟨-, hd | ⟨-, hd⟩⟩⟩⟩)
    · exact absurd hd (refused h.float)
    · exact absurd hd (refused h.integer)
    · exact absurd hd (refused h.string)
    · exact absurd hd (refused h.boolean)
    · exact hd
  · exact fun hd => .inr ⟨refuses_atom.2 h.float, .inr ⟨refuses_atom.2 h.integer,
      .inr ⟨refuses_atom.2 h.string, .inr ⟨refuses_atom.2 h.boolean, hd⟩⟩⟩⟩

theorem refuses_primary (h : NoLiteral s) :
    Refuses grammar (.rule .primary) s ↔ Refuses grammar Reads.compound s := by
  rw [refuses_rule]
  change Refuses grammar Reads.primary s ↔ _
  rw [Reads.primary, refuses_orElse, refuses_orElse, refuses_orElse, refuses_orElse]
  have hf := refuses_atom (k := .float) |>.2 h.float
  have hi := refuses_atom (k := .integer) |>.2 h.integer
  have hs := refuses_atom (k := .string) |>.2 h.string
  have hb := refuses_atom (k := .boolean) |>.2 h.boolean
  exact ⟨fun hr => hr.2.2.2.2, fun hr => ⟨hf, hi, hs, hb, hr⟩⟩

/-! ## Conditionals and names -/

theorem refuses_conditional (h : Pattern.ifWord.accept s = none) :
    Refuses grammar Reads.conditional s :=
  refuses_map.2 (refuses_spanned.2 (refuses_seq.2 (.inl
    (refuses_map.2 (refuses_seq.2 (.inl (refuses_token.2 h)))))))

theorem reads_conditional (h : NoLiteral s) (hc : Derives grammar ReadsAs Reads.conditional s t s') :
    ReadsAs .primary s t s' :=
  yields_rule_iff.2 ((derives_primary h).2 (.inl hc))

theorem refuses_enclosed {opening closing : Char} (h : ∀ r, s ≠ opening :: r) :
    Refuses grammar (Reads.enclosed opening closing) s := by
  refine refuses_map.2 (refuses_seq.2 (.inl (refuses_token.2 ?_)))
  cases e : Terminal.accept (.literal opening) s with
  | none => exact e
  | some r => exact absurd (accept_literal.1 e) (h r)

/-- A name is refused together with its brackets if these do not follow it. -/
theorem refuses_headed {opening closing : Char} {f : Piece → Piece → List Tree → Tree}
    (h : Pattern.identifier.accept s = some s') (hb : ∀ r, s' ≠ opening :: r) :
    Refuses grammar (.map (fun (span, head, args) => f span head args)
      (.spanned (.seq (Reads.one .identifier) (Reads.enclosed opening closing)))) s := by
  refine refuses_map.2 (refuses_spanned.2 (refuses_seq.2 (.inr ⟨.between s s', s', ?_, ?_⟩)))
  · exact yields_of_derives ⟨h, rfl⟩
  · exact refuses_enclosed hb

theorem refuses_headed_of_none {opening closing : Char} {f : Piece → Piece → List Tree → Tree}
    (h : Pattern.identifier.accept s = none) :
    Refuses grammar (.map (fun (span, head, args) => f span head args)
      (.spanned (.seq (Reads.one .identifier) (Reads.enclosed opening closing)))) s :=
  refuses_map.2 (refuses_spanned.2 (refuses_seq.2 (.inl (refuses_token.2 h))))

section Names

variable (h : NoLiteral s) (hc : Refuses grammar Reads.conditional s) {s₁ : List Char}
  (hn : Pattern.identifier.accept s = some s₁)
include h hc hn

theorem reads_call {args : List Tree}
    (ha : Derives grammar ReadsAs (Reads.enclosed '(' ')') s₁ args s') :
    ReadsAs .primary s (.call (.between s s') (.between s s₁) args) s' :=
  yields_rule_iff.2 ((derives_primary h).2
    (.inr ⟨hc, .inl (derives_headed.2 ⟨s₁, args, hn, ha, rfl⟩)⟩))

theorem reads_indexed {indices : List Tree}
    (ha : Derives grammar ReadsAs (Reads.enclosed '[' ']') s₁ indices s') :
    ReadsAs .primary s (.indexed (.between s s') (.between s s₁) indices) s' := by
  obtain ⟨s₂, s₃, rfl, -, -⟩ := derives_enclosed.1 ha
  have hcall : Refuses grammar Reads.call s := refuses_headed hn nofun
  exact yields_rule_iff.2 ((derives_primary h).2
    (.inr ⟨hc, .inr ⟨hcall, .inl (derives_headed.2 ⟨_, indices, hn, ha, rfl⟩)⟩⟩))

theorem reads_identifier (ho : ∀ r, s₁ ≠ '(' :: r) (ho' : ∀ r, s₁ ≠ '[' :: r) :
    ReadsAs .primary s (.atom .identifier (.between s s₁)) s₁ := by
  have hcall : Refuses grammar Reads.call s := refuses_headed hn ho
  have hindexed : Refuses grammar Reads.indexed s := refuses_headed hn ho'
  exact yields_rule_iff.2 ((derives_primary h).2 (.inr ⟨hc, .inr ⟨hcall, .inr ⟨hindexed,
    .inl (derives_atom.2 ⟨hn, rfl⟩)⟩⟩⟩))

end Names

/-! ## Brackets -/

theorem noWord_bracket {c : Char} (hc : c ∈ ['(', '[', '\x7b', ')', ']', '\x7d']) (s : List Char) :
    NoWord (c :: s) := by
  have hc' : c = '(' ∨ c = '[' ∨ c = '\x7b' ∨ c = ')' ∨ c = ']' ∨ c = '\x7d' := by simpa using hc
  rcases hc' with rfl | rfl | rfl | rfl | rfl | rfl <;>
    exact ⟨⟨rfl, rfl, rfl, rfl⟩, rfl, rfl⟩

theorem derives_compound (h : NoWord s) (hd : Derives grammar M Reads.bracketed s t s') :
    Derives grammar M Reads.compound s t s' := by
  have hcall : Refuses grammar Reads.call s := refuses_headed_of_none h.identifier
  have hindexed : Refuses grammar Reads.indexed s := refuses_headed_of_none h.identifier
  exact .inr ⟨refuses_conditional h.ifWord, .inr ⟨hcall, .inr ⟨hindexed,
    .inr ⟨refuses_atom.2 h.identifier, hd⟩⟩⟩⟩

theorem refuses_bracketed {opening closing : Char} {f : Piece → List Tree → Tree}
    (h : ∀ r, s ≠ opening :: r) :
    Refuses grammar (.map (fun (span, ts) => f span ts)
      (.spanned (Reads.enclosed opening closing))) s :=
  refuses_map.2 (refuses_spanned.2 (refuses_enclosed h))

theorem reads_list {ts : List Tree}
    (h : Derives grammar ReadsAs (Reads.enclosed '[' ']') s ts s') :
    ReadsAs .primary s (.list (.between s s') ts) s' := by
  obtain ⟨s₁, -, rfl, -, -⟩ := derives_enclosed.1 h
  have hw : NoWord ('[' :: s₁) := noWord_bracket (by decide) s₁
  exact yields_rule_iff.2 ((derives_primary hw.toNoLiteral).2 (derives_compound hw
    (.inl (derives_bracketed.2 ⟨ts, h, rfl⟩))))

theorem reads_set {ts : List Tree}
    (h : Derives grammar ReadsAs (Reads.enclosed '\x7b' '\x7d') s ts s') :
    ReadsAs .primary s (.set (.between s s') ts) s' := by
  obtain ⟨s₁, -, rfl, -, -⟩ := derives_enclosed.1 h
  have hw : NoWord ('\x7b' :: s₁) := noWord_bracket (by decide) s₁
  have hlist : Refuses grammar Reads.list ('\x7b' :: s₁) := refuses_bracketed nofun
  exact yields_rule_iff.2 ((derives_primary hw.toNoLiteral).2 (derives_compound hw
    (.inr ⟨hlist, .inl (derives_bracketed.2 ⟨ts, h, rfl⟩)⟩)))

theorem reads_group (h : Derives grammar ReadsAs Reads.group s t s') : ReadsAs .primary s t s' := by
  obtain ⟨s₁, -, rfl, -, -⟩ := derives_group.1 h
  have hw : NoWord ('(' :: s₁) := noWord_bracket (by decide) s₁
  have hlist : Refuses grammar Reads.list ('(' :: s₁) := refuses_bracketed nofun
  have hset : Refuses grammar Reads.set ('(' :: s₁) := refuses_bracketed nofun
  exact yields_rule_iff.2 ((derives_primary hw.toNoLiteral).2 (derives_compound hw
    (.inr ⟨hlist, .inr ⟨hset, h⟩⟩)))

theorem refuses_group (h : ∀ r, s ≠ '(' :: r) : Refuses grammar Reads.group s := by
  refine refuses_map.2 (refuses_seq.2 (.inl (refuses_token.2 ?_)))
  cases e : Terminal.accept (.literal '(') s with
  | none => exact e
  | some r => exact absurd (accept_literal.1 e) (h r)

/-- No rule reads anything where no token begins that an expression may begin with. -/
theorem refuses_of_noWord (hw : NoWord s) (ho : ∀ o ∈ ['(', '[', '\x7b'], ∀ r, s ≠ o :: r)
    (hnot : Pattern.notWord.accept s = none) (hsign : Pattern.sign.accept s = none) (R : Rule) :
    Refuses grammar (.rule R) s := by
  have hcall : Refuses grammar Reads.call s := refuses_headed_of_none hw.identifier
  have hindexed : Refuses grammar Reads.indexed s := refuses_headed_of_none hw.identifier
  have hlist : Refuses grammar Reads.list s := refuses_bracketed (ho _ (by decide))
  have hset : Refuses grammar Reads.set s := refuses_bracketed (ho _ (by decide))
  have hgroup : Refuses grammar Reads.group s := refuses_group (ho _ (by decide))
  refine refuses_of_primary ((refuses_primary hw.toNoLiteral).2 ?_) hnot hsign
  exact refuses_orElse.2 ⟨refuses_conditional hw.ifWord, refuses_orElse.2 ⟨hcall,
    refuses_orElse.2 ⟨hindexed, refuses_orElse.2 ⟨refuses_atom.2 hw.identifier,
      refuses_orElse.2 ⟨hlist, refuses_orElse.2 ⟨hset, hgroup⟩⟩⟩⟩⟩⟩

/-- No rule reads anything at a closing bracket. -/
theorem refuses_closing {c : Char} (hc : c ∈ [')', ']', '\x7d']) (R : Rule) (s : List Char) :
    Refuses grammar (.rule R) (c :: s) := by
  have closing : ∀ c ∈ [')', ']', '\x7d'],
      c ∈ ['(', '[', '\x7b', ')', ']', '\x7d'] ∧ c ∉ ['(', '[', '\x7b'] := by decide
  have hc' : c = ')' ∨ c = ']' ∨ c = '\x7d' := by simpa using hc
  refine refuses_of_noWord (noWord_bracket (closing c hc).1 s) ?_ ?_ ?_ R
  · rintro o ho r e
    cases e
    exact (closing c hc).2 ho
  · rcases hc' with rfl | rfl | rfl <;> rfl
  · rcases hc' with rfl | rfl | rfl <;> rfl

end AlgebraBatch.Syntax
