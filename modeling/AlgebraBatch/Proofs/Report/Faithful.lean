import AlgebraBatch.Proofs.Batch.Source
import AlgebraBatch.Proofs.Report.Comments
import AlgebraBatch.Proofs.Syntax.Edges
import AlgebraBatch.Proofs.Text.Lines

/-!
# What is read from the lines of a file

A line is blank, a comment, or an accepted text with blanks around it and terminators after it
(`Line.Writes`). Trimming knows nothing of expressions, but it takes from such a text only what the
grammar skips, so each expression of a file gives a valid statement with its tree and the number of
its line, unless an integer has too many digits: then the whole file cannot be read
(`isFaithful_iff`).
-/

namespace AlgebraBatch.StatementFile

open AlgebraBatch.Text AlgebraBatch.Syntax AlgebraBatch.Batch

/-! ## Lines -/

/-- What a line holds. -/
inductive Line where
  | blank
  | comment
  | expression (text : String)

def Line.text? : Line → Option String
  | expression text => some text
  | _ => none

inductive Line.Writes : Line → List Char → Prop where
  | blank {blanks : List Char} : AllBlank blanks → Writes .blank blanks
  | comment {lead body trail : List Char} : AllBlank lead → AllBlank trail →
      Writes .comment (lead ++ (['/', '*'] ++ (body ++ ['*', '/']) ++ trail))
  | expression {text : String} {tree : Tree} {lead space terminators trail : List Char} :
      parseTree text.toList = .ok tree → AllBlank lead → AllBlank space →
      (∀ c ∈ terminators, isTerminator c = true) → AllBlank trail →
      Writes (.expression text) (lead ++ (text.toList ++ (space ++ (terminators ++ trail))))

/-- An accepted text alone is a line. -/
theorem Line.Writes.bare {text : String} {tree : Tree} (h : parseTree text.toList = .ok tree) :
    Writes (.expression text) text.toList := by
  have hline := @Line.Writes.expression text tree [] [] [] [] h nofun nofun nofun nofun
  rwa [List.nil_append, List.append_nil, List.append_nil, List.append_nil] at hline

/-- The texts of the expressions, with the numbers of their lines. -/
def expressions (lines : List Line) : List (String × Nat) :=
  (lines.zipIdx 1).filterMap fun entry => entry.1.text?.map fun text => (text, entry.2)

/-- The statement is valid and means what the text means alone, and its context is the line. -/
structure IsRead (name : String) (entry : String × Nat) (s : Statement) : Prop where
  valid : s.valid = true
  expr : ∃ e, parseExpr entry.1 = .ok e ∧ s.expr = some e
  context : s.context = contextOf name entry.2

/-- The file gives one statement for each expression, in order. -/
def IsFaithful (name contents : String) (lines : List Line) : Prop :=
  ∃ statements, read name contents = .ok statements ∧
    List.Forall₂ (IsRead name) (expressions lines) statements

variable {name contents text : String} {t : Tree} {cs lead space terminators trail : List Char}
  {lines : List Line} {n : Nat}

/-! ## Trimmed texts -/

theorem parseSource_eq_ok {e : Expr} :
    Statement.parseSource (.str text) = .ok e ↔ parseExpr text = .ok e := by
  rw [Statement.parseSource]
  cases parseExpr text with
  | ok e' => exact ⟨fun h => congrArg _ (Except.ok.inj h), fun h => congrArg _ (Except.ok.inj h)⟩
  | error f =>
    constructor
    all_goals
      intro h
      cases h

def trimmed (text : String) : String := String.ofList (strip text.toList)

/-- An accepted text means the same without the blanks at its ends. -/
theorem parseSource_trimmed (h : parseTree text.toList = .ok t) :
    Statement.parseSource (.str (trimmed text)) = Statement.parseSource (.str text) := by
  obtain ⟨u, hu, hlike⟩ := parseTree_strip h
  have htrimmed : parseTree (trimmed text).toList = .ok u := by
    rw [trimmed, String.toList_ofList, hu]
  have hdigits : t.nodes.findSome? Tree.tooManyDigits? = u.nodes.findSome? Tree.tooManyDigits? := by
    have := congrArg (List.findSome? id) hlike.digits
    rwa [List.findSome?_map, List.findSome?_map] at this
  rw [parseSource_eq h, parseSource_eq htrimmed, converted, converted, hdigits, hlike.expr]

theorem not_isBlank_of_isTerminator {c : Char} (h : isTerminator c = true) : isBlank c = false := by
  have hc : c = ';' ∨ c = '$' := by simpa [isTerminator] using h
  rcases hc with rfl | rfl <;> rfl

/-- Terminators are dropped, and then the blanks before them. -/
theorem sourceOf_terminated {c : Char} (hb : isBlank c = false) (ht : isTerminator c = false)
    (hspace : AllBlank space) (hterminators : ∀ c ∈ terminators, isTerminator c = true) :
    sourceOf (cs ++ [c] ++ (space ++ terminators)) = String.ofList (cs ++ [c]) := by
  have hkept : ∀ c ∈ space, isTerminator c = false := by
    intro c hc
    by_contra h
    have := not_isBlank_of_isTerminator (Bool.eq_true_of_not_eq_false h)
    rw [hspace c hc] at this
    cases this
  have hdrop : dropRightWhile isTerminator (cs ++ [c] ++ (space ++ terminators)) =
      cs ++ [c] ++ space := by
    rw [← List.append_assoc, dropRightWhile_append_all _ hterminators, List.append_assoc,
      List.singleton_append, dropRightWhile_append_cons ht, dropRightWhile_of_forall hkept]
  rw [sourceOf, hdrop, stripRight, dropRightWhile_append_all _ hspace]
  exact congrArg String.ofList (dropRightWhile_append_cons hb cs [])

/-! ## What becomes of a line -/

/-- Trimming the line of an accepted text leaves the trimmed text and what ends the statement. -/
theorem strip_expression (h : HasEdges cs) (hlead : AllBlank lead) (hspace : AllBlank space)
    (hterminators : ∀ c ∈ terminators, isTerminator c = true) (htrail : AllBlank trail) :
    ∃ blanks, AllBlank blanks ∧ strip (lead ++ (cs ++ (space ++ (terminators ++ trail)))) =
      strip cs ++ (blanks ++ terminators) := by
  obtain ⟨⟨front, back, hsplit, hfront, hback⟩, hhead, hlast⟩ := trims_strip cs
  obtain ⟨c, r, hcons, -⟩ := h.head
  have hhead' (rest : List Char) : ∀ d ∈ (strip cs ++ rest).head?, isBlank d = false := by
    rw [hcons] at hhead ⊢
    exact hhead
  have hpad (rest : List Char) : lead ++ (cs ++ rest) =
      lead ++ front ++ (strip cs ++ (back ++ rest)) := by
    nth_rewrite 1 [hsplit]
    simp
  have hlead' : AllBlank (lead ++ front) := List.forall_mem_append.2 ⟨hlead, hfront⟩
  have hspace' : AllBlank (back ++ space) := List.forall_mem_append.2 ⟨hback, hspace⟩
  rcases List.eq_nil_or_concat terminators with rfl | ⟨ts, d, rfl⟩
  · refine ⟨[], nofun, strip_eq_iff.2 ⟨⟨lead ++ front, back ++ (space ++ trail), ?_, hlead', ?_⟩,
      hhead' _, ?_⟩⟩
    · simpa using hpad (space ++ trail)
    · exact List.forall_mem_append.2 ⟨hback, List.forall_mem_append.2 ⟨hspace, htrail⟩⟩
    · simpa using hlast
  · refine ⟨back ++ space, hspace', strip_eq_iff.2 ⟨⟨lead ++ front, trail, ?_, hlead', htrail⟩,
      hhead' _, ?_⟩⟩
    · simpa using hpad (space ++ (ts.concat d ++ trail))
    · intro e he
      rw [List.concat_eq_append, ← List.append_assoc, ← List.append_assoc,
        List.getLast?_concat] at he
      obtain rfl := Option.some.inj he
      refine not_isBlank_of_isTerminator (hterminators d ?_)
      simp

theorem Line.Writes.skipped {line : Line} (h : line.Writes cs) (ht : line.text? = none) :
    isSkipped (strip cs) = true := by
  cases h with
  | blank hb =>
    have hnil : strip cs = [] :=
      strip_eq_iff.2 ⟨⟨[], cs, rfl, nofun, hb⟩, nofun, nofun⟩
    rw [hnil]
    rfl
  | @comment lead body trail hlead htrail =>
    have hstrip : strip (lead ++ (['/', '*'] ++ (body ++ ['*', '/']) ++ trail)) =
        ['/', '*'] ++ (body ++ ['*', '/']) := by
      obtain ⟨-, hhead, hlast⟩ := strip_eq_iff.1
        (strip_enclosed (by decide : isBlank '/' = false) (by decide : isBlank '/' = false)
          ('*' :: (body ++ ['*'])))
      refine strip_eq_iff.2 ⟨⟨lead, trail, rfl, hlead, htrail⟩, hhead, ?_⟩
      simpa using hlast
    have hsuffix : ['*', '/'] <:+ ['/', '*'] ++ (body ++ ['*', '/']) :=
      (List.suffix_append body _).trans (List.suffix_append _ _)
    rw [hstrip, isSkipped, isComment, List.isSuffixOf_iff_suffix.2 hsuffix]
    rfl
  | expression => cases ht

theorem Line.Writes.kept (h : (Line.expression text).Writes cs) :
    isSkipped (strip cs) = false ∧ sourceOf (strip cs) = trimmed text := by
  cases h with
  | @expression _ tree lead space terminators trail htree hlead hspace hterminators htrail =>
    have hedges := hasEdges_of_parseTree htree
    obtain ⟨blanks, hblanks, hstrip⟩ :=
      strip_expression hedges hlead hspace hterminators htrail
    obtain ⟨c, r, hcons, hslash⟩ := hedges.head
    obtain ⟨r', d, hlast, hsemicolon, hdollar⟩ := hedges.last
    have hblank : isBlank d = false := by
      have := (trims_strip text.toList).last
      rw [hlast, List.getLast?_concat] at this
      exact this d rfl
    have hterminator : isTerminator d = false := by
      rw [isTerminator, beq_false_of_ne hsemicolon, beq_false_of_ne hdollar]
      rfl
    rw [hstrip]
    constructor
    · rw [hcons, isSkipped, isComment]
      simp [List.isPrefixOf, Ne.symm hslash]
    · rw [hlast, sourceOf_terminated hblank hterminator hblanks hterminators, trimmed, hlast]

/-! ## Files -/

theorem Line.eq_of_text? {line : Line} (h : line.text? = some text) : line = .expression text := by
  cases line with
  | expression t => exact congrArg _ (Option.some.inj h)
  | blank => cases h
  | comment => cases h

/-- Every expression has the number of its line. -/
theorem mem_expressions :
    (∃ n, (text, n) ∈ expressions lines) ↔ Line.expression text ∈ lines := by
  simp only [expressions, List.mem_filterMap, Option.map_eq_some_iff, Prod.exists]
  constructor
  · rintro ⟨n, line, m, hmem, t, ht, he⟩
    cases he
    rw [← Line.eq_of_text? ht]
    exact List.fst_mem_of_mem_zipIdx hmem
  · intro hmem
    rw [← List.zipIdx_map_fst 1 lines] at hmem
    obtain ⟨⟨line, n⟩, hmem, rfl⟩ := List.mem_map.1 hmem
    exact ⟨n, _, n, hmem, text, rfl, rfl⟩

/-- A file holds the trimmed texts of its expressions. -/
theorem sources_eq {text : String} (h : List.Forall₂ Line.Writes lines (splitLines text.toList)) :
    sources text = (expressions lines).map fun entry => (trimmed entry.1, entry.2) := by
  rw [sources, numberedLines, expressions]
  generalize splitLines text.toList = raw at h
  generalize 1 = n
  induction h generalizing n with
  | nil => rfl
  | @cons line cs lines raw hw _ ih =>
    rw [List.map_cons, List.zipIdx_cons, List.zipIdx_cons]
    cases ht : line.text? with
    | none =>
      rw [List.filter_cons_of_neg (by simpa using hw.skipped ht),
        List.filterMap_cons_none (by rw [ht]; rfl)]
      exact ih (n + 1)
    | some text =>
      obtain rfl := Line.eq_of_text? ht
      obtain ⟨hkept, hsource⟩ := hw.kept
      rw [List.filter_cons_of_pos (by simpa using hkept)]
      exact congrArg₂ List.cons (Prod.ext hsource rfl) (ih (n + 1))

/-- An expression is accepted wherever it is written. -/
theorem accepted_of_mem {raw : List (List Char)} (h : List.Forall₂ Line.Writes lines raw)
    (hmem : Line.expression text ∈ lines) : ∃ t, parseTree text.toList = .ok t := by
  obtain ⟨j, hj⟩ := List.mem_iff_getElem?.1 hmem
  obtain ⟨cs, -, hw⟩ := getElem?_of_forall₂ h hj
  cases hw with
  | expression htree => exact ⟨_, htree⟩

/-- The statement of an expression is valid, and it means what the expression means alone. -/
theorem make_trimmed (h : parseTree text.toList = .ok t) (hl : ¬ HoldsOverlong text) :
    ∃ s, Statement.make .display (.str (trimmed text)) (contextOf name n) = .ok s ∧
      IsRead name (text, n) s := by
  have hsource := (parseSource_accepted h).resolve_right fun hr => hl hr.1
  have hmake : Statement.parseSource (.str (trimmed text)) = .ok t.expr :=
    (parseSource_trimmed h).trans hsource.2
  rw [Statement.make, hmake]
  exact ⟨_, rfl, rfl, ⟨t.expr, parseSource_eq_ok.1 hsource.2, rfl⟩, rfl⟩

/-- There is no statement of an expression with an integer that has too many digits. -/
theorem make_overlong (h : parseTree text.toList = .ok t) (hl : HoldsOverlong text) :
    ∃ n, Numeral.maxDigits < n ∧ ∀ context,
      Statement.make .display (.str (trimmed text)) context =
        .error (.numeral (.tooManyDigits n)) := by
  obtain ⟨-, n, hn, hsource⟩ := (parseSource_accepted h).resolve_left fun hr => hr.1 hl
  refine ⟨n, hn, fun context => ?_⟩
  rw [Statement.make, (parseSource_trimmed h).trans hsource]

section Reading

variable (h : List.Forall₂ Line.Writes lines (splitLines (fileText contents).toList))
include h

theorem read_eq : read name contents = (expressions lines).mapM fun entry =>
    Statement.make .display (.str (trimmed entry.1)) (contextOf name entry.2) := by
  rw [read, sources_eq h, List.mapM_map]
  simp only [Function.comp_def]

theorem isFaithful (hl : ∀ text, Line.expression text ∈ lines → ¬ HoldsOverlong text) :
    IsFaithful name contents lines := by
  rw [IsFaithful, read_eq h]
  refine exists_mapM fun entry hmem => ?_
  have hline : Line.expression entry.1 ∈ lines := mem_expressions.1 ⟨entry.2, hmem⟩
  obtain ⟨t, ht⟩ := accepted_of_mem h hline
  exact make_trimmed ht (hl _ hline)

/-- No statement is read from a file with an integer that has too many digits. -/
theorem read_overlong (hmem : Line.expression text ∈ lines) (hl : HoldsOverlong text) :
    ∃ n, Numeral.maxDigits < n ∧ read name contents = .error (.numeral (.tooManyDigits n)) := by
  cases hread : read name contents with
  | ok statements =>
    -- The statement of this expression cannot have been made.
    rw [read_eq h] at hread
    obtain ⟨m, hentry⟩ := mem_expressions.2 hmem
    obtain ⟨j, hj⟩ := List.mem_iff_getElem?.1 hentry
    obtain ⟨s, -, hmake⟩ := getElem?_of_forall₂ (mapM_eq_ok.1 hread) hj
    obtain ⟨t, ht⟩ := accepted_of_mem h hmem
    obtain ⟨n, -, herror⟩ := make_overlong ht hl
    cases hmake.symm.trans (herror _)
  | error f =>
    rw [read_eq h] at hread
    obtain ⟨entry, hentry, hmake⟩ := mapM_eq_error hread
    obtain ⟨t, ht⟩ := accepted_of_mem h (mem_expressions.1 ⟨entry.2, hentry⟩)
    by_cases hl : HoldsOverlong entry.1
    · obtain ⟨n, hn, herror⟩ := make_overlong ht hl
      cases hmake.symm.trans (herror _)
      exact ⟨n, hn, rfl⟩
    · obtain ⟨s, hs, -⟩ := @make_trimmed name entry.1 t entry.2 ht hl
      cases hmake.symm.trans hs

/-- A file gives one valid statement for each of its expressions, in order, each with the tree of its
text and the number of its line, exactly if no integer in them has too many digits; otherwise that
fault is all it gives. -/
theorem isFaithful_iff :
    (IsFaithful name contents lines ↔
      ∀ text, Line.expression text ∈ lines → ¬ HoldsOverlong text) ∧
    ∀ text, Line.expression text ∈ lines → HoldsOverlong text →
      ∃ n, Numeral.maxDigits < n ∧ read name contents = .error (.numeral (.tooManyDigits n)) := by
  refine ⟨⟨?_, isFaithful h⟩, fun text => read_overlong h⟩
  rintro ⟨statements, hread, -⟩ text hmem hl
  obtain ⟨n, -, herror⟩ := read_overlong h hmem hl
  cases hread.symm.trans herror

end Reading

/-- Two statements with a comment and a blank line between them, the first with terminators in a
string. -/
def mixedFile : String := "x : \";$\" ;$ \r\n/* y; */\n\t\n y$"

def mixedFileLines : List Line :=
  [.expression "x : \";$\"", .comment, .blank, .expression "y"]

theorem isFaithful_mixedFile :
    List.Forall₂ Line.Writes mixedFileLines (splitLines (fileText mixedFile).toList) ∧
      IsFaithful "a.mac" mixedFile mixedFileLines := by
  have hsplit : splitLines (fileText mixedFile).toList =
      [[] ++ ("x : \";$\"".toList ++ ([' '] ++ ([';', '$'] ++ [' ']))),
        [] ++ (['/', '*'] ++ (" y; ".toList ++ ['*', '/']) ++ []), ['\t'],
        [' '] ++ ("y".toList ++ ([] ++ (['$'] ++ [])))] := by decide
  have hx : parseTree "x : \";$\"".toList = .ok (.binary ⟨6, ":"⟩ (.atom .identifier ⟨8, "x"⟩)
      (.atom .string ⟨4, "\";$\""⟩)) := by cbv
  have hy : parseTree "y".toList = .ok (.atom .identifier ⟨1, "y"⟩) := by cbv
  have hwrites : List.Forall₂ Line.Writes mixedFileLines
      (splitLines (fileText mixedFile).toList) := by
    rw [hsplit]
    refine .cons (.expression hx ?_ ?_ ?_ ?_) (.cons (.comment ?_ ?_) (.cons (.blank ?_)
      (.cons (.expression hy ?_ ?_ ?_ ?_) .nil)))
    all_goals decide
  have short {text : String} {t : Tree} (h : parseTree text.toList = .ok t)
      (ht : t.overlong? = none) : ¬ HoldsOverlong text := by
    rw [holdsOverlong_iff h]
    rintro ⟨n, hn, -⟩
    cases ht.symm.trans hn
  refine ⟨hwrites, (isFaithful_iff hwrites).1.2 fun text hmem => ?_⟩
  have htext : text = "x : \";$\"" ∨ text = "y" := by simpa [mixedFileLines] using hmem
  rcases htext with rfl | rfl
  · exact short hx rfl
  · exact short hy rfl

/-- Digits are a line of their own. -/
theorem writes_digits {ds : List Char} (hne : ds ≠ []) (h : ∀ c ∈ ds, c.isDigit = true) :
    List.Forall₂ Line.Writes [.expression (String.ofList ds)]
      (splitLines (fileText (String.ofList ds)).toList) := by
  have htree := parseTree_digits hne fun c hc => isDecimalDigit_of_isDigit (h c hc)
  rw [← String.toList_ofList (l := ds)] at htree
  have hbreak : ∀ c ∈ ds, isLineBreak c = false := by
    intro c hc
    have := isDigit_iff.1 (h c hc)
    simp only [isLineBreak, Bool.or_eq_false_iff, Bool.and_eq_false_iff, decide_eq_false_iff_not,
      beq_eq_false_iff_ne]
    omega
  have hreturn : '\r' ∉ ds := fun hc => absurd (h _ hc) (by decide)
  rw [fileText, String.toList_ofList, String.toList_ofList, unifyNewlines_of_not_mem hreturn,
    splitLines_of_forall hne hbreak]
  have hline := Line.Writes.bare htree
  rw [String.toList_ofList] at hline
  exact .cons hline .nil

/-- The digits of `longInteger` are an accepted text, but a file with this line is not read. -/
theorem not_isFaithful_longInteger :
    List.Forall₂ Line.Writes [.expression longInteger]
      (splitLines (fileText longInteger).toList) ∧
    ¬ IsFaithful "a.mac" longInteger [.expression longInteger] := by
  have hwrites : List.Forall₂ Line.Writes [.expression longInteger]
      (splitLines (fileText longInteger).toList) := by
    refine writes_digits ?_ fun c hc => ?_
    · rw [Ne, List.replicate_eq_nil_iff]
      decide
    · rw [List.eq_of_mem_replicate hc]
      decide
  refine ⟨hwrites, ?_⟩
  rintro ⟨statements, hread, -⟩
  obtain ⟨n, -, herror⟩ := read_overlong hwrites List.mem_cons_self holdsOverlong_longInteger
  cases hread.symm.trans herror

end AlgebraBatch.StatementFile
