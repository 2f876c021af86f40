import AlgebraBatch.Proofs.Syntax.Accepted
import AlgebraBatch.Proofs.Syntax.Course
import AlgebraBatch.Proofs.Syntax.Printed
import Mathlib

/-!
# A text means the same wherever it stands

What a text means alone, it means between blanks, in parentheses, and as an item of a list, of a set
and of a call. The reason is that an accepted text closes its own brackets and strings (`Shut`), so
the comma or the closing bracket after it ends its last token, and no rule can go on. Only blanks
are read further, up to that character (`Continued`).
-/

namespace AlgebraBatch.Syntax

open AlgebraBatch.Text Peg AlgebraBatch.Expr AlgebraBatch.Syntax.Tree

variable {k s s' u : List Char} {d d' : Nat} {t : Terminal}

/-! ## A text that goes on -/

theorem endsToken_of_skipBlanks (h : EndsToken (skipBlanks k)) : EndsToken k := by
  cases k with
  | nil => trivial
  | cons c k =>
    by_cases hc : isPatternBlank c = true
    · change isEnd c = true
      simp [isEnd, hc]
    · rwa [skipBlanks, List.dropWhile_cons_of_neg hc] at h

theorem skipBlanks_append (s k : List Char) :
    skipBlanks (s ++ k) = if (skipBlanks s).isEmpty then skipBlanks k else skipBlanks s ++ k :=
  List.dropWhile_append

/-- Blanks at the beginning of a text do not count. -/
theorem skipBlanks_append_of_blank {w : List Char} (hw : ∀ c ∈ w, isPatternBlank c = true)
    (k : List Char) : skipBlanks (w ++ k) = skipBlanks k :=
  List.dropWhile_append_of_pos hw

/-- Both texts are at the same place, but `k` comes after the first one in the second. Where the
first ends, the blanks before `k` may have been read in the second. -/
structure Continued (k : List Char) (d : Nat) (s u : List Char) : Prop where
  shut : Shut d s
  rest : u = s ++ k ∨ s = [] ∧ u = skipBlanks k

/-- The second text goes on with the end of a token. -/
theorem Continued.append (h : Continued k d s u) (hk : EndsToken (skipBlanks k)) :
    ∃ r, u = s ++ r ∧ EndsToken r := by
  rcases h.rest with rfl | ⟨rfl, rfl⟩
  · exact ⟨k, rfl, endsToken_of_skipBlanks hk⟩
  · exact ⟨skipBlanks k, rfl, hk⟩

theorem Continued.blanks (h : Continued k d s u) : Continued k d (skipBlanks s) (skipBlanks u) := by
  refine ⟨(shut_of_accept (p := .blanks) rfl).1 h.shut, ?_⟩
  rcases h.rest with rfl | ⟨rfl, rfl⟩
  · rw [skipBlanks_append]
    split
    · next he => exact .inr ⟨List.isEmpty_iff.1 he, rfl⟩
    · exact .inl rfl
  · exact .inr ⟨rfl, List.dropWhile_idempotent _ _⟩

/-! ## Tokens -/

theorem accept_append (ht : t ≠ .pattern .blanks) (hk : EndsToken k)
    (h : grammar.accept t s = some s') : grammar.accept t (s ++ k) = some (s' ++ k) := by
  cases t with
  | literal c =>
    obtain rfl := accept_literal.1 h
    exact accept_literal.2 rfl
  | pattern p =>
    by_cases hp : p = .string
    · subst hp
      exact acceptString_append h k
    · have hb : p ≠ .blanks := fun e => ht (congrArg _ e)
      change p.accept (s ++ k) = _
      rw [Pattern.accept_append hb hp s hk, show p.accept s = some s' from h]
      rfl

/-- A string that does not begin in a text does not begin where the end of a token follows. -/
theorem acceptString_append_none (hs : Shut d s) (hk : EndsToken k) (h : acceptString s = none) :
    acceptString (s ++ k) = none := by
  have hquote : ∀ r, s ≠ '"' :: r := by
    rintro r rfl
    obtain ⟨s', hs', -⟩ := hs.acceptString
    cases h.symm.trans hs'
  have happend := append_ne_cons (by decide) hk hquote
  unfold acceptString
  split
  · next e => exact absurd e (happend _)
  · rfl

/-- A character that does not follow is not the one that ends the text. -/
theorem literal_append_none {c : Char} (hm : course.moves (.literal c) d d') (hs : Shut d s)
    (hk : EndsToken k) (h : ∀ r, s ≠ c :: r) (r : List Char) : s ++ k ≠ c :: r := by
  -- Where a comma or a closing bracket may be read, the text has a bracket to close.
  have inside (hne : s ≠ []) : s ++ k ≠ c :: r := by
    cases s with
    | nil => exact absurd rfl hne
    | cons e s =>
      intro he
      rw [List.cons_append, List.cons.injEq] at he
      exact h s (by rw [he.1])
  cases hm with
  | bang => exact append_ne_cons (by decide) hk h r
  | comma => exact inside hs.ne_nil
  | opening _ hc =>
    have hopen : ∀ c ∈ openings, isEnd c = false := by decide
    exact append_ne_cons (hopen c hc) hk h r
  | closing => exact inside hs.ne_nil

theorem refuse_append (hm : course.moves t d d') (hs : Shut d s) (hk : EndsToken k)
    (h : grammar.accept t s = none) : grammar.accept t (s ++ k) = none := by
  cases t with
  | literal c =>
    have hne : ∀ r, s ≠ c :: r := by
      intro r e
      cases (accept_literal.2 e).symm.trans h
    have happend := literal_append_none hm hs hk hne
    cases e : Terminal.accept (.literal c) (s ++ k) with
    | none => exact e
    | some r => exact absurd (accept_literal.1 e) (happend r)
  | pattern p =>
    by_cases hp : p = .string
    · subst hp
      exact acceptString_append_none hs hk h
    · have hb : p ≠ .blanks := by
        rintro rfl
        cases h
      change p.accept (s ++ k) = none
      rw [Pattern.accept_append hb hp s hk, show p.accept s = none from h]
      rfl

/-- What a token reads has the same text if more comes later. -/
theorem sameText_append (h : s' <:+ s) (k : List Char) :
    SameText (.between s s') (.between (s ++ k) (s' ++ k)) := by
  obtain ⟨w, rfl⟩ := h
  rw [SameText, List.append_assoc, text_between_append, text_between_append]

theorem alike_continued (hk : EndsToken (skipBlanks k)) : Alike grammar course (Continued k) where
  read := by
    intro t d d' s s' u hm h ha
    by_cases ht : t = .pattern .blanks
    · -- The texts do not stay the same here: blanks of `k` are read with those at the end of `s`.
      subst ht
      cases hm
      obtain rfl := Option.some.inj ha
      exact ⟨skipBlanks u, rfl, h.blanks, fun hne => absurd rfl hne⟩
    · obtain ⟨r, rfl, hr⟩ := h.append hk
      have hsuffix := Terminal.accept_suffix ha
      refine ⟨s' ++ r, accept_append ht hr ha, ⟨(shut_of_moves hm ha).1 h.shut, ?_⟩,
        fun _ => sameText_append hsuffix r⟩
      rcases h.rest with e | ⟨rfl, e⟩
      · exact .inl (by rw [List.append_cancel_left e])
      · obtain rfl := List.suffix_nil.1 hsuffix
        exact .inr ⟨rfl, e⟩
  refused := by
    intro t d d' s u hm h ha
    obtain ⟨r, rfl, hr⟩ := h.append hk
    exact refuse_append hm h.shut hr ha

/-! ## A text before the end of a token -/

/-- An expression after blanks. -/
abbrev Reads.expression : Reads Tree := Reads.spaced (.rule .assignment)

/-- What is read up to blanks at the end closes its brackets. -/
theorem shut_of_yields {t : Tree} (h : Yields grammar Reads.expression s t s')
    (hs' : skipBlanks s' = []) : Shut 0 s := by
  have hp : course.Passes 0 0 Tree.Like Reads.expression := passes_spaced .rule
  have hnil : Shut 0 s' :=
    (shut_of_accept (p := .blanks) (show Pattern.blanks.accept s' = some [] from congrArg _ hs')).2
      .nil
  exact (keeps_yields passes_body shut_of_moves hp h).2 hnil

/-- Before the end of a token, a text is read as it is read alone. -/
theorem reads_before {text : String} {e : Expr} (h : parseExpr text = .ok e)
    (hk : EndsToken (skipBlanks k)) :
    ∃ t r, t.Means e ∧ ReadsAs .assignment (skipBlanks (text.toList ++ k)) t r ∧
      skipBlanks r = skipBlanks k := by
  obtain ⟨t, hroot, hd, he⟩ := parseExpr_eq_ok.1 h
  obtain ⟨s', hr, hs'⟩ := yields_root.1 hroot
  have hy : Yields grammar Reads.expression text.toList t s' :=
    yields_iff.2 (derives_spaced.2 hr)
  have hp : course.Passes 0 0 Tree.Like Reads.expression := passes_spaced .rule
  -- The run that reads the text alone is repeated with `k` after it.
  obtain ⟨v, r, hv, hlike, hrest⟩ := agrees_yields (alike_continued hk) passes_body hp
    ⟨shut_of_yields hy hs', .inl rfl⟩ hy
  refine ⟨v, r, Like.means hlike ⟨he, hd⟩, derives_spaced.1 (yields_iff.1 hv), ?_⟩
  rcases hrest.rest with rfl | ⟨-, rfl⟩
  · rw [skipBlanks_append, hs']
    rfl
  · exact List.dropWhile_idempotent _ _

/-! ## Items -/

/-- A text with blanks before and after it. -/
structure Padded where
  before : String
  text : String
  after : String
  before_blank : ∀ c ∈ before.toList, isPatternBlank c = true
  after_blank : ∀ c ∈ after.toList, isPatternBlank c = true

namespace Padded

/-- The text as it is written, with its blanks. -/
def written (p : Padded) : String := p.before ++ p.text ++ p.after

/-- The text means the expression. -/
def Means (p : Padded) (e : Expr) : Prop := parseExpr p.text = .ok e

/-- Texts with commas between them. -/
def items (ps : List Padded) : String := joinWith "," (ps.map written)

variable {p : Padded} {ps : List Padded} {e : Expr} {es : List Expr}

theorem Means.reads (h : p.Means e) (hk : EndsToken (skipBlanks k)) :
    ∃ t r, t.Means e ∧ ReadsAs .assignment (skipBlanks (p.written.toList ++ k)) t r ∧
      skipBlanks r = skipBlanks k := by
  have hafter := skipBlanks_append_of_blank p.after_blank k
  rw [← hafter] at hk ⊢
  have hwritten : p.written.toList ++ k =
      p.before.toList ++ (p.text.toList ++ (p.after.toList ++ k)) := by
    simp [written]
  rw [hwritten, skipBlanks_append_of_blank p.before_blank]
  exact reads_before h hk

/-- The texts after the first one, each with its comma. -/
def further (ps : List Padded) : List Char := ps.flatMap fun p => ',' :: p.written.toList

theorem toList_items_cons (p : Padded) (ps : List Padded) :
    (items (p :: ps)).toList = p.written.toList ++ further ps := by
  induction ps generalizing p with
  | nil => simp [items, joinWith, further]
  | cons q ps ih =>
    have ih : (joinWith "," (q.written :: ps.map written)).toList = _ := ih q
    simp [items, joinWith, further, ih]

section Brackets

variable {c : Char} (hc : c ∈ closings)
include hc

theorem endsToken_further (ps : List Padded) (rest : List Char) :
    EndsToken (skipBlanks (further ps ++ c :: rest)) := by
  have hclose : ∀ c ∈ closings, isPatternBlank c = false ∧ isEnd c = true := by decide
  cases ps with
  | nil =>
    change EndsToken (skipBlanks (c :: rest))
    rw [skipBlanks_bracket hc]
    exact (hclose c hc).2
  | cons p ps => exact (by decide : isEnd ',' = true)

/-- After an item the further ones are read, up to the closing bracket. -/
theorem repeats_further (h : List.Forall₂ Means ps es) {rest r : List Char}
    (hr : skipBlanks r = skipBlanks (further ps ++ c :: rest)) :
    ∃ ts s', MeansAll ts es ∧ Repeats (Derives grammar ReadsAs Reads.commaItem)
      (Refuses grammar Reads.commaItem) r ts s' ∧ skipBlanks s' = c :: rest := by
  induction h generalizing r with
  | nil =>
    have hr : skipBlanks r = c :: rest := hr.trans (skipBlanks_bracket hc rest)
    refine ⟨[], r, .nil, .nil (refuses_spaced.2 ?_), hr⟩
    have hrefused := refuses_spaced.1 (refuses_commaItem hc rest)
    rwa [skipBlanks_bracket hc, ← hr] at hrefused
  | @cons p e ps es hp _ ih =>
    obtain ⟨t, r', ht, hread, hr'⟩ := hp.reads (endsToken_further hc ps rest)
    obtain ⟨ts, s', hts, hrepeat, hs'⟩ := ih hr'
    have hcomma : skipBlanks r = ',' :: (p.written.toList ++ (further ps ++ c :: rest)) := by
      rw [hr, further, List.flatMap_cons, List.cons_append, List.cons_append, List.append_assoc]
      rfl
    exact ⟨t :: ts, s', .cons ht hts, .cons (derives_commaItem.2 ⟨_, hcomma, hread⟩) hrepeat, hs'⟩

/-- The brackets of a list, of a set and of a call read the items in them. -/
theorem derives_enclosed_items (h : List.Forall₂ Means ps es) (opening : Char) (rest : List Char) :
    ∃ ts, MeansAll ts es ∧ Derives grammar ReadsAs (Reads.enclosed opening c)
      (opening :: ((items ps).toList ++ c :: rest)) ts rest := by
  cases h with
  | nil =>
    have hclose := skipBlanks_bracket hc rest
    refine ⟨[], .nil, derives_enclosed.2 ⟨_, c :: rest, rfl, ?_, hclose⟩⟩
    rw [show (items []).toList = [] from rfl, List.nil_append, hclose]
    exact .nil (refuses_closing hc _ _)
  | @cons p e ps es hp hps =>
    obtain ⟨t, r, ht, hread, hr⟩ := hp.reads (endsToken_further hc ps rest)
    obtain ⟨ts, s', hts, hrepeat, hs'⟩ := repeats_further hc hps hr
    refine ⟨t :: ts, .cons ht hts, derives_enclosed.2 ⟨_, s', rfl, ?_, hs'⟩⟩
    rw [toList_items_cons, List.append_assoc]
    exact .cons hread hrepeat

end Brackets

/-- The text in parentheses is read as the text. -/
theorem Means.derives_group (h : p.Means e) (rest : List Char) :
    ∃ t, t.Means e ∧
      Derives grammar ReadsAs Reads.group ('(' :: (p.written.toList ++ ')' :: rest)) t rest := by
  have hend : EndsToken (skipBlanks (')' :: rest)) := (by decide : isEnd ')' = true)
  obtain ⟨t, r, ht, hread, hr⟩ := h.reads hend
  exact ⟨t, ht, Syntax.derives_group.2 ⟨_, r, rfl, hread, hr⟩⟩

end Padded

/-! ## Whole texts -/

/-- A text that a primary expression fills is accepted. -/
theorem parseExpr_of_primary {text : String} (hs : text.toList = s) {t : Tree} {e : Expr}
    (ht : t.Means e) (hr : ReadsAs .primary s t []) (hb : Begins .primary s)
    (hnot : Refuses grammar Reads.notForm s) : parseExpr text = .ok e := by
  have hne : Rule.primary ≠ .exponent := nofun
  have hread : ReadsAs .assignment s t [] :=
    reads_of_rank_le hne (Nat.zero_le _) hr (Closes.stops (.inl rfl) _) (fun _ _ => hnot)
      fun _ => hb.sign (by decide)
  refine parseExpr_eq_ok.2 ⟨t, yields_root.2 ⟨[], ?_, rfl⟩, ht.2, ht.1⟩
  rwa [hs, hb.opens.skipBlanks]

/-- So is one that begins with an opening bracket. -/
theorem parseExpr_of_bracket {text : String} {o : Char} (ho : o ∈ openings)
    (hs : text.toList = o :: s) {t : Tree} {e : Expr} (ht : t.Means e)
    (hr : ReadsAs .primary (o :: s) t []) : parseExpr text = .ok e := by
  have all : ∀ o ∈ openings, o ∈ ['.', '"', '(', '[', '\x7b', '+', '-', '\''] ∧
      o ∉ ['\'', '-', '+'] ∧ o ≠ 'n' := by decide
  obtain ⟨hbegin, hsign, hn⟩ := all o ho
  exact parseExpr_of_primary hs ht hr (.of_cons (.inr (.inr hbegin)) hsign)
    (refuses_notForm_of_ne hn s)

namespace Padded

variable {p : Padded} {ps : List Padded} {e : Expr} {es : List Expr}

theorem Means.written (h : p.Means e) : parseExpr p.written = .ok e := by
  obtain ⟨t, r, ht, hread, hr⟩ := h.reads (k := []) trivial
  rw [List.append_nil] at hread
  exact parseExpr_eq_ok.2 ⟨t, yields_root.2 ⟨r, hread, hr⟩, ht.2, ht.1⟩

theorem Means.group (h : p.Means e) : parseExpr ("(" ++ p.written ++ ")") = .ok e := by
  obtain ⟨t, ht, hd⟩ := h.derives_group []
  exact parseExpr_of_bracket (by decide) (by simp) ht (reads_group hd)

theorem parseExpr_list (h : List.Forall₂ Means ps es) :
    parseExpr ("[" ++ items ps ++ "]") = .ok (.list es) := by
  obtain ⟨ts, hts, hd⟩ := derives_enclosed_items (by decide : ']' ∈ closings) h '[' []
  exact parseExpr_of_bracket (by decide) (by simp) hts.list (reads_list hd)

theorem parseExpr_set (h : List.Forall₂ Means ps es) :
    parseExpr ("\x7b" ++ items ps ++ "\x7d") = .ok (.set es) := by
  obtain ⟨ts, hts, hd⟩ := derives_enclosed_items (by decide : '\x7d' ∈ closings) h '\x7b' []
  exact parseExpr_of_bracket (by decide) (by simp) hts.set (reads_set hd)

theorem parseExpr_call {f : String} (hf : IsPlainName f) (h : List.Forall₂ Means ps es) :
    parseExpr (f ++ "(" ++ items ps ++ ")") = .ok (.call (.identifier f) es) := by
  obtain ⟨ts, hts, hd⟩ := derives_enclosed_items (by decide : ')' ∈ closings) h '(' []
  have hends : EndsName ('(' :: ((items ps).toList ++ [')'])) := .inr ⟨_, .inl rfl⟩
  have htext : (f ++ "(" ++ items ps ++ ")").toList =
      f.toList ++ '(' :: ((items ps).toList ++ [')']) := by simp
  have hclear : (Site.mk true (f.toList ++ '(' :: ((items ps).toList ++ [')']))).Clear :=
    IsNamed.clear ⟨f, _, rfl, hf, hends⟩
  have hhead := text_between_append f.toList ('(' :: ((items ps).toList ++ [')']))
  rw [String.ofList_toList] at hhead
  have hname := hf.isReadName
  have hread := reads_call (noLiteral_name hname hends) hclear.conditional
    (acceptIdentifier_append hends hname.1) hd
  exact parseExpr_of_primary htext (hts.call hhead) hread (.name hname _) (hclear.notForm rfl)

/-- Whatever blanks stand around accepted texts, as items of a list, of a set and of a call they
mean what they mean alone, and so does each of them with its blanks, bare or in parentheses. -/
theorem parseExpr_inContext (h : List.Forall₂ Means ps es) :
    parseExpr ("[" ++ items ps ++ "]") = .ok (.list es) ∧
      parseExpr ("\x7b" ++ items ps ++ "\x7d") = .ok (.set es) ∧
      (∀ f, IsPlainName f →
        parseExpr (f ++ "(" ++ items ps ++ ")") = .ok (.call (.identifier f) es)) ∧
      List.Forall₂ (fun p e => parseExpr p.written = .ok e ∧
        parseExpr ("(" ++ p.written ++ ")") = .ok e) ps es :=
  ⟨parseExpr_list h, parseExpr_set h, fun _ hf => parseExpr_call hf h,
    h.imp fun _ _ hp => ⟨hp.written, hp.group⟩⟩

/-- A string of brackets and a negation, with blanks of several kinds. -/
def pair : List Padded :=
  [⟨" ", "\"],\"", "\t", by decide, by decide⟩, ⟨"", "not x ", "\n", by decide, by decide⟩]

theorem parseExpr_pair :
    items pair = " \"],\"\t,not x \n" ∧ IsPlainName "f" ∧
      List.Forall₂ Means pair [.string "],", .prefixed "not" (.identifier "x")] ∧
      parseExpr ("f" ++ "(" ++ items pair ++ ")") =
        .ok (.call (.identifier "f") [.string "],", .prefixed "not" (.identifier "x")]) := by
  have hstring : parseExpr "\"],\"" = .ok (.string "],") := by cbv
  have hnot : parseExpr "not x " = .ok (.prefixed "not" (.identifier "x")) := by cbv
  have hf : IsPlainName "f" := by decide
  have h : List.Forall₂ Means pair [.string "],", .prefixed "not" (.identifier "x")] :=
    .cons hstring (.cons hnot .nil)
  have hwritten : items pair = " \"],\"\t,not x \n" := by simp [items, pair, joinWith, written]
  exact ⟨hwritten, hf, h, (parseExpr_inContext h).2.2.1 "f" hf⟩

end Padded

end AlgebraBatch.Syntax
