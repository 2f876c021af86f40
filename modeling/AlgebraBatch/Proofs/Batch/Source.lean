import AlgebraBatch.Batch.Statement
import AlgebraBatch.Proofs.Syntax.Place
import AlgebraBatch.Proofs.Syntax.Record
import Mathlib

/-!
# Any text as a source

What becomes of a text that somebody hands in: it is parsed, checked, or made the source of a
statement. Each of these either gives a result or reports a syntax error, unless the grammar accepts
the text and it holds an integer with too many digits (`handled_iff`). That one fault is passed on by
all of them.
-/

namespace AlgebraBatch.Batch

open AlgebraBatch.Text AlgebraBatch.Syntax Peg

variable {text : String} {t : Tree}

/-! ## What becomes of a text -/

/-- Parsing gives an expression or reports a syntax error, checking answers, and every kind of
statement can be made of the text, with any context. -/
structure Handled (text : String) : Prop where
  parsed : (∃ e, Statement.parseSource (.str text) = .ok e) ∨
    ∃ message position, Statement.parseSource (.str text) = .error (.syntaxError message position)
  checked : ∃ answer, Statement.validateSource (.str text) = .ok answer
  made : ∀ kind context, ∃ s, Statement.make kind (.str text) context = .ok s

/-- Parsing, checking and making a statement all fail with the fault. -/
structure Escapes (text : String) (f : Fault) : Prop where
  parsed : Statement.parseSource (.str text) = .error f
  checked : Statement.validateSource (.str text) = .error f
  made : ∀ kind context, Statement.make kind (.str text) context = .error f

/-- The grammar accepts the text, and an integer in it has too many digits. -/
def HoldsOverlong (text : String) : Prop :=
  ∃ t p, parseTree text.toList = .ok t ∧ .atom .integer p ∈ t.nodes ∧
    Numeral.maxDigits < p.text.length

/-- The expression of an accepted text is what its tree is converted to. -/
theorem parseSource_eq (h : parseTree text.toList = .ok t) :
    Statement.parseSource (.str text) = converted t.nodes t.expr := by
  rw [Statement.parseSource, parseExpr, parse, h, converted]
  simp only [Tree.overlong?]
  cases t.nodes.findSome? Tree.tooManyDigits? with
  | some n => rfl
  | none => rfl

theorem parseSource_rejected {why : Rejection} (h : parseTree text.toList = .error why) :
    ∃ message position,
      Statement.parseSource (.str text) = .error (.syntaxError message position) := by
  rw [Statement.parseSource, parseExpr, parse, h]
  exact ⟨_, _, rfl⟩

theorem handled_of_ok {e : Expr} (h : Statement.parseSource (.str text) = .ok e) :
    Handled text where
  parsed := .inl ⟨e, h⟩
  checked := ⟨(true, "success"), by rw [Statement.validateSource, h]⟩
  made kind context := by
    rw [Statement.make, h]
    exact ⟨_, rfl⟩

theorem handled_of_syntaxError {message : String} {position : Option (Nat × Nat)}
    (h : Statement.parseSource (.str text) = .error (.syntaxError message position)) :
    Handled text where
  parsed := .inr ⟨message, position, h⟩
  checked := ⟨(false, message), by rw [Statement.validateSource, h]⟩
  made kind context := by
    rw [Statement.make, h]
    exact ⟨_, rfl⟩

theorem escapes_of_numeral {f : NumeralFault}
    (h : Statement.parseSource (.str text) = .error (.numeral f)) : Escapes text (.numeral f) where
  parsed := h
  checked := by rw [Statement.validateSource, h]
  made kind context := by rw [Statement.make, h]

/-- A text of which a fault escapes that is no syntax error is not handled. -/
theorem Escapes.not_handled {f : NumeralFault} (h : Escapes text (.numeral f)) :
    ¬ Handled text := by
  intro hh
  obtain ⟨answer, ha⟩ := hh.checked
  rw [h.checked] at ha
  cases ha

/-! ## Integers with too many digits -/

theorem tooManyDigits?_eq_some {d : Tree} {n : Nat} :
    d.tooManyDigits? = some n ↔
      ∃ p, d = .atom .integer p ∧ n = p.text.length ∧ Numeral.maxDigits < p.text.length := by
  constructor
  · intro h
    unfold Tree.tooManyDigits? at h
    split at h
    · next p =>
      split at h
      · next hlt =>
        cases h
        exact ⟨p, rfl, rfl, hlt⟩
      · cases h
    · cases h
  · rintro ⟨p, rfl, rfl, hlt⟩
    rw [Tree.tooManyDigits?, if_pos hlt]

theorem holdsOverlong_iff (h : parseTree text.toList = .ok t) :
    HoldsOverlong text ↔ ∃ n, t.nodes.findSome? Tree.tooManyDigits? = some n ∧
      Numeral.maxDigits < n := by
  constructor
  · rintro ⟨t', p, ht, hp, hlt⟩
    obtain rfl : t = t' := Except.ok.inj (h.symm.trans ht)
    have hsome : (t.nodes.findSome? Tree.tooManyDigits?).isSome = true :=
      List.findSome?_isSome_iff.2
        ⟨_, hp, by rw [tooManyDigits?_eq_some.2 ⟨p, rfl, rfl, hlt⟩]; rfl⟩
    obtain ⟨n, hn⟩ := Option.isSome_iff_exists.1 hsome
    obtain ⟨d, -, hd⟩ := List.exists_of_findSome?_eq_some hn
    obtain ⟨q, -, rfl, hq⟩ := tooManyDigits?_eq_some.1 hd
    exact ⟨_, hn, hq⟩
  · rintro ⟨n, hn, hlt⟩
    obtain ⟨d, hd, hdn⟩ := List.exists_of_findSome?_eq_some hn
    obtain ⟨p, rfl, rfl, -⟩ := tooManyDigits?_eq_some.1 hdn
    exact ⟨t, p, h, hd, hlt⟩

/-- An accepted text has an expression, or an integer in it has too many digits. -/
theorem parseSource_accepted (h : parseTree text.toList = .ok t) :
    ¬ HoldsOverlong text ∧ Statement.parseSource (.str text) = .ok t.expr ∨
      HoldsOverlong text ∧ ∃ n, Numeral.maxDigits < n ∧
        Statement.parseSource (.str text) = .error (.numeral (.tooManyDigits n)) := by
  rw [parseSource_eq h, holdsOverlong_iff h, converted]
  cases hn : t.nodes.findSome? Tree.tooManyDigits? with
  | none =>
    refine .inl ⟨?_, rfl⟩
    rintro ⟨n, he, -⟩
    cases he
  | some n =>
    obtain ⟨d, -, hd⟩ := List.exists_of_findSome?_eq_some hn
    obtain ⟨p, -, rfl, hlt⟩ := tooManyDigits?_eq_some.1 hd
    exact .inr ⟨⟨_, rfl, hlt⟩, _, hlt, rfl⟩

/-- Every text is handled, or an integer in it has too many digits and that fault escapes. -/
theorem handled_or_escapes (text : String) :
    Handled text ∧ ¬ HoldsOverlong text ∨
      HoldsOverlong text ∧ ∃ n, Numeral.maxDigits < n ∧
        Escapes text (.numeral (.tooManyDigits n)) := by
  cases h : parseTree text.toList with
  | error why =>
    obtain ⟨message, position, hp⟩ := parseSource_rejected h
    refine .inl ⟨handled_of_syntaxError hp, ?_⟩
    rintro ⟨t, p, ht, -⟩
    rw [h] at ht
    cases ht
  | ok t =>
    rcases parseSource_accepted h with ⟨hl, hp⟩ | ⟨hl, n, hlt, hp⟩
    · exact .inl ⟨handled_of_ok hp, hl⟩
    · exact .inr ⟨hl, n, hlt, escapes_of_numeral hp⟩

/-- A text is handled exactly if it holds no integer with too many digits; otherwise that fault
escapes. Parsing an accepted text gives what assembling any record of its tree gives: a root with one
item, or the fault. -/
theorem handled_iff (text : String) :
    (Handled text ↔ ¬ HoldsOverlong text) ∧
    (HoldsOverlong text → ∃ n, Numeral.maxDigits < n ∧
      Escapes text (.numeral (.tooManyDigits n))) ∧
    ∀ t d, parseTree text.toList = .ok t → t.IsRootRecord d →
      assemble d = (Statement.parseSource (.str text)).map fun e => .ofExpr (.root [e]) := by
  refine ⟨?_, ?_, fun t d ht hd => ?_⟩
  · rcases handled_or_escapes text with ⟨hh, hl⟩ | ⟨hl, n, -, he⟩
    · exact iff_of_true hh hl
    · exact iff_of_false he.not_handled (not_not_intro hl)
  · rcases handled_or_escapes text with ⟨-, hl⟩ | ⟨-, h⟩
    · exact fun h => absurd h hl
    · exact fun _ => h
  · rw [parseSource_eq ht, converted_map, assemble_root hd (lexical_of_parseTree ht)]

/-- The tree of `(2.5b0)!`. -/
def groupedTree : Tree :=
  .factorial ⟨8, "(2.5b0)!"⟩ (.atom .float ⟨7, "2.5b0"⟩)

/-- A record of it, with a group for the parentheses and a child that does not stand in a list. -/
def groupedRecord : Datum :=
  let number := Datum.map [(.str "tag", .str "float"), (.str "text", .str "2.5b0")]
  let group := Datum.map [(.str "tag", .str "group"), (.str "children", .list [number])]
  let factorial := Datum.map [(.str "tag", .str "factorial"), (.str "children", group)]
  .map [(.str "tag", .str "root"), (.str "line", .int 1), (.str "children", .list [factorial])]

theorem parseTree_groupedTree : parseTree "(2.5b0)!".toList = .ok groupedTree := by
  cbv

theorem isRootRecord_groupedRecord : groupedTree.IsRootRecord groupedRecord :=
  ⟨rfl, _, rfl, .bare ⟨rfl, _, rfl, .group rfl rfl (.bare ⟨rfl, rfl⟩)⟩⟩

theorem assemble_groupedRecord :
    parseTree "(2.5b0)!".toList = .ok groupedTree ∧ groupedTree.IsRootRecord groupedRecord ∧
      assemble groupedRecord = .ok (.ofExpr (.root [groupedTree.expr])) := by
  refine ⟨parseTree_groupedTree, isRootRecord_groupedRecord, ?_⟩
  rw [(handled_iff "(2.5b0)!").2.2 _ _ parseTree_groupedTree isRootRecord_groupedRecord,
    parseSource_eq parseTree_groupedTree]
  rfl

/-! ## Digits -/

/-- Digits, and nothing else, are read as one integer. -/
theorem parseTree_digits {ds : List Char} (hne : ds ≠ [])
    (h : ∀ c ∈ ds, isDecimalDigit c = true) :
    parseTree ds = .ok (.atom .integer (.between ds [])) := by
  have hf := acceptFloat_digits h (r := []) trivial
  have hi := acceptInteger_digits hne h (r := []) trivial
  rw [List.append_nil] at hf hi
  cases ds with
  | nil => exact absurd rfl hne
  | cons c cs =>
    have hb : Begins .primary (c :: cs) := .digit (h c List.mem_cons_self)
    have hn : c ≠ 'n' := by
      rintro rfl
      exact absurd (h 'n' List.mem_cons_self) (by decide)
    have hr : ReadsAs .assignment (c :: cs) (.atom .integer (.between (c :: cs) [])) [] :=
      reads_of_rank_le (Q := .primary) nofun (by decide) (reads_integer hf hi)
        (Closes.stops (.inl rfl) _) (fun _ _ => refuses_notForm_of_ne hn cs) hb.sign
    refine parseTree_eq_ok.2 (yields_root.2 ⟨[], ?_, rfl⟩)
    rwa [hb.opens.skipBlanks]

/-- Digits of which there are too many are accepted by the grammar all the same. -/
theorem holdsOverlong_digits {ds : List Char} (h : ∀ c ∈ ds, isDecimalDigit c = true)
    (hlt : Numeral.maxDigits < ds.length) : HoldsOverlong (String.ofList ds) := by
  have hne : ds ≠ [] := List.ne_nil_of_length_pos (Nat.zero_lt_of_lt hlt)
  have htext : (Piece.between ds []).text = String.ofList ds := by
    have := text_between_append ds []
    rwa [List.append_nil] at this
  refine ⟨.atom .integer (.between ds []), .between ds [], ?_, List.mem_cons_self, ?_⟩
  · rw [String.toList_ofList, parseTree_digits hne h]
  · rwa [htext, String.length_ofList]

/-- The digit seven, more often than an integer may have digits. -/
def longInteger : String := String.ofList (List.replicate 4301 '7')

theorem holdsOverlong_longInteger : HoldsOverlong longInteger := by
  refine holdsOverlong_digits (fun c hc => ?_) ?_
  · rw [List.eq_of_mem_replicate hc]
    decide
  · rw [List.length_replicate]
    decide

theorem not_handled_longInteger : ¬ Handled longInteger := by
  rcases handled_or_escapes longInteger with ⟨-, hl⟩ | ⟨-, n, -, he⟩
  · exact absurd holdsOverlong_longInteger hl
  · exact he.not_handled

end AlgebraBatch.Batch
