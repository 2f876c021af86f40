import AlgebraBatch.Proofs.Batch.Distribution
import AlgebraBatch.Proofs.Expr.Closed
import AlgebraBatch.Proofs.Syntax.Accepted

/-!
# The block of a program

The items of a program are closed texts, whatever the statements, their contexts, the options and
the seed are, so between the commas of the block stand just the items that were put there
(`block_parts`). The call that evaluates a statement comes apart in the same way, into the
statement's own form, a literal of its context and its position. What comes after the statements is
told of the statements alone: what is collected of each kind of them (`collected`), how the answer is
put together (`packing`) and what is printed (`prints`).
-/

namespace AlgebraBatch.Statement

/-- The statement is valid and as it was made, except for what batches have brought it. -/
def Accepted (s : Statement) : Prop :=
  ∃ made, make s.kind s.source s.context = .ok made ∧ made.valid = true ∧ s.expr = made.expr

theorem Accepted.expr {s : Statement} (h : s.Accepted) :
    ∃ e, parseSource s.source = .ok e ∧ s.expr = some e := by
  obtain ⟨made, hm, hv, he⟩ := h
  unfold make at hm
  split at hm
  · next e hp =>
    cases hm
    exact ⟨e, hp, he⟩
  · cases hm
    cases hv
  · cases hm

theorem readable_of_parseSource {source : Datum} {e : Expr} (h : parseSource source = .ok e) :
    e.Readable := by
  cases source with
  | str text =>
    rw [parseSource] at h
    cases hp : Syntax.parseExpr text with
    | ok e' =>
      rw [hp] at h
      cases h
      exact Syntax.readable_of_parseExpr hp
    | error f =>
      rw [hp] at h
      cases h
  | _ => cases h

end AlgebraBatch.Statement

namespace AlgebraBatch.Batch

open AlgebraBatch.Text

/-! ## Records -/

theorem planFrom_eq (rs : List Request) : ∀ start,
    planFrom start rs = (rs.zipIdx start).map fun e => Record.ofRequest e.1 e.2 := by
  induction rs with
  | nil => exact fun _ => rfl
  | cons r rs ih =>
    intro start
    rw [planFrom, ih, List.zipIdx_cons, List.map_cons]

theorem plan_statements (statements : List Statement) : plan (statements.map .statement) =
    statements.zipIdx.map fun e => Record.ofRequest (.statement e.1) e.2 := by
  rw [plan, planFrom_eq, List.zipIdx_map, List.map_map]
  rfl

theorem getElem?_plan (statements : List Statement) (i : Nat) :
    (plan (statements.map .statement))[i]? =
      statements[i]?.map fun s => Record.ofRequest (.statement s) i := by
  rw [plan_statements, List.getElem?_map, List.getElem?_zipIdx, Option.map_map, Nat.zero_add]
  rfl

theorem mem_plan {statements : List Statement} {r : Record} :
    r ∈ plan (statements.map .statement) ↔
      ∃ i s, statements[i]? = some s ∧ r = .ofRequest (.statement s) i := by
  rw [List.mem_iff_getElem?]
  constructor
  · rintro ⟨i, hi⟩
    rw [getElem?_plan] at hi
    obtain ⟨s, hs, rfl⟩ := Option.map_eq_some_iff.1 hi
    exact ⟨i, s, hs, rfl⟩
  · rintro ⟨i, s, hs, rfl⟩
    exact ⟨i, by rw [getElem?_plan, hs]; rfl⟩

theorem wantsPresentation_planFrom (statements : List Statement) : ∀ start,
    wantsPresentation (planFrom start (statements.map .statement)) =
      statements.any (·.kind == .display) := by
  induction statements with
  | nil => exact fun _ => rfl
  | cons s ss ih =>
    intro start
    rw [List.any_cons, ← ih (start + 1)]
    rfl

/-! ## Texts with places to fill in -/

open Reader

/-- A closed text may stand wherever its beginning leaves the reader outside of literals. -/
theorem scan_fill {r r' : Reader} {s t u : String} {b : Bool} {ds : List Char}
    (hs : r.scan s.toList = some ⟨.code b, ds⟩) (ht : Closed t.toList)
    (hu : Reader.scan ⟨.code false, ds⟩ u.toList = some r') :
    r.scan (s ++ t ++ u).toList = some r' := by
  rw [String.toList_append, String.toList_append, List.append_assoc, scan_append hs,
    scan_append (ht.within b ds), hu]

theorem closed_quoteText (text : String) : Closed (Literal.quoteText text).toList := by
  rw [Literal.quoteText, String.toList_ofList]
  exact closed_quote _

theorem closed_toString (n : Int) : Closed (toString n).toList := by
  rw [Content.toString_eq_integerText, String.toList_ofList]
  exact Expr.closed_integerText n

theorem closed_position (i : Nat) : Closed (toString i).toList := by
  have hi : toString (i : Int) = toString i := rfl
  rw [← hi]
  exact closed_toString i

theorem closed_key (i : Nat) : Closed (Key.key i).toList := by
  have hstem : Closed Key.stem.toList := by decide
  rw [Key.key, String.toList_append]
  exact hstem.append (closed_toString i)

/-! ## Items of the session -/

theorem closed_openingItems (seed : Int) : ∀ t ∈ openingItems seed, Closed t.toList := by
  have hlocals : Closed "[]".toList := by decide
  have hopen : ∀ b, Reader.scan ⟨.code b, []⟩ "stack_randseed(".toList =
      some ⟨.code false, [')']⟩ := by decide
  rw [openingItems, List.forall_mem_cons, List.forall_mem_singleton]
  exact ⟨hlocals, fun b => scan_fill (hopen b) (closed_toString seed) rfl⟩

theorem closed_literal (value : SettingValue) : Closed (Options.command.literal value).toList := by
  cases value with
  | flag b => cases b <;> decide
  | choice text => exact closed_quoteText text

theorem closed_command (options : Options) (setting : Setting) :
    Closed (" " ++ options.command setting).toList := by
  -- The characters of a literal are at hand, so that its text need not be decoded.
  have hcall : ∀ b, Reader.scan ⟨.code b, []⟩ (" " ++ (setting.engineName ++ "(")).toList =
      some ⟨.code false, [')']⟩ := by
    rw [String.toList_append, String.toList_append]
    cases setting
    all_goals
      rw [Setting.engineName]
      repeat rw [String.toList_ofList]
      decide
  have hassign : Closed (" " ++ (setting.engineName ++ ":")).toList := by
    rw [String.toList_append, String.toList_append]
    cases setting
    all_goals
      rw [Setting.engineName]
      repeat rw [String.toList_ofList]
      decide
  have hvalue := closed_literal (options.get setting)
  unfold Options.command
  split
  · rw [← String.append_assoc, ← String.append_assoc]
    exact fun b => scan_fill (hcall b) hvalue rfl
  · rw [← String.append_assoc, String.toList_append]
    exact hassign.append hvalue

theorem closed_optionItems (options : Options) : ∀ t ∈ optionItems options, Closed t.toList := by
  intro t ht
  obtain ⟨setting, -, rfl⟩ := List.mem_map.1 ht
  exact closed_command options setting

theorem closed_initialItems (presentation : Bool) :
    ∀ t ∈ initialItems presentation, Closed t.toList := by
  rw [initialItems]
  cases presentation
  all_goals
    simp only [Bool.false_eq_true, if_true, if_false, List.cons_append, List.nil_append,
      List.forall_mem_cons]
    repeat rw [String.toList_ofList]
    decide

theorem print_outputBegins :
    "print(\"" ++ outputBegins ++ "\")" = "print(\"STACK-OUTPUT-BEGINS>\")" :=
  rfl

theorem print_outputEnds : "print(\"" ++ outputEnds ++ "\")" = "print(\"<STACK-OUTPUT-ENDS\")" :=
  rfl

theorem closed_closingItems (presentation : Bool) :
    ∀ t ∈ closingItems presentation, Closed t.toList := by
  rw [closingItems, print_outputBegins, print_outputEnds]
  cases presentation
  all_goals
    simp only [Bool.false_eq_true, if_true, if_false, List.cons_append, List.nil_append,
      List.forall_mem_cons]
    repeat rw [String.toList_ofList]
    decide

/-! ## Items of the records -/

section

variable {r : Record}

/-- What is caught: the form, and where something is collected, under the key of the record. -/
def Record.code (r : Record) : String :=
  if r.isExtractor then r.key ++ ":" ++ r.form else r.form

/-- The arguments of the call that evaluates the record. -/
def Record.arguments (r : Record) : List String :=
  ["errcatch(" ++ r.code ++ ")", Literal.quoteText r.context, toString r.index]

theorem Record.evaluation_eq (r : Record) :
    r.evaluation = "_EC(" ++ joinWith "," r.arguments ++ ")" := by
  have he : r.evaluation = "_EC(errcatch(" ++ r.code ++ ")," ++ Literal.quoteText r.context ++
    "," ++ toString r.index ++ ")" := rfl
  have hopens : "_EC(errcatch(" = "_EC(" ++ "errcatch(" := by decide
  have hcloses : ")," = ")" ++ "," := by decide
  rw [he, arguments, hopens, hcloses]
  simp only [joinWith, String.append_assoc]

theorem closed_code (h : Closed r.form.toList) : Closed r.code.toList := by
  have hcolon : Closed ":".toList := by decide
  unfold Record.code
  split
  · rw [String.toList_append, String.toList_append]
    exact ((closed_key r.index).append hcolon).append h
  · exact h

theorem closed_arguments (h : Closed r.form.toList) : ∀ t ∈ r.arguments, Closed t.toList := by
  have hopen : ∀ b, Reader.scan ⟨.code b, []⟩ "errcatch(".toList = some ⟨.code false, [')']⟩ := by
    decide
  rw [Record.arguments, List.forall_mem_cons, List.forall_mem_cons, List.forall_mem_singleton]
  exact ⟨fun b => scan_fill (hopen b) (closed_code h) rfl, closed_quoteText _,
    closed_position r.index⟩

theorem closed_evaluation (h : Closed r.form.toList) : Closed r.evaluation.toList := by
  have hopen : ∀ b, Reader.scan ⟨.code b, []⟩ "_EC(".toList = some ⟨.code false, [')']⟩ := by decide
  rw [Record.evaluation_eq, String.toList_append, String.toList_append, List.append_assoc]
  intro b
  rw [scan_append (hopen b), scan_append (scan_joinWith (closed_arguments h) ')')]
  rfl

/-- The item that keeps the notes of a record's statement. -/
def Record.notesItem (r : Record) : String :=
  "if length(__NOTES) > 0 then _NOTES:stackmap_set(_NOTES," ++ Literal.quoteText r.key ++ ",__NOTES)"

theorem closed_notesItem : Closed r.notesItem.toList := by
  have hopen : ∀ b, Reader.scan ⟨.code b, []⟩
      "if length(__NOTES) > 0 then _NOTES:stackmap_set(_NOTES,".toList =
        some ⟨.code false, [')']⟩ := by rw [String.toList_ofList]; decide
  exact fun b => scan_fill (hopen b) (closed_quoteText r.key) rfl

theorem closed_valueItem : Closed r.valueItem.toList := by
  have hopen : ∀ b, Reader.scan ⟨.code b, []⟩ "_VALUES:stackmap_set(_VALUES,".toList =
      some ⟨.code false, [')']⟩ := by decide
  exact fun b => scan_fill (scan_fill (hopen b) (closed_quoteText r.key) rfl) (closed_key r.index) rfl

theorem closed_presentationItem : Closed r.presentationItem.toList := by
  have hopen : ∀ b, Reader.scan ⟨.code b, []⟩ "_LATEX:stackmap_set(_LATEX,".toList =
      some ⟨.code false, [')']⟩ := by decide
  exact fun b => scan_fill (scan_fill (hopen b) (closed_quoteText r.key) rfl) (closed_key r.index) rfl

theorem closed_statementItems (h : Closed r.form.toList) :
    ∀ t ∈ r.statementItems, Closed t.toList := by
  have hreset : Closed "__NOTES:[]".toList := by decide
  unfold Record.statementItems
  split
  · rw [List.forall_mem_cons, List.forall_mem_cons, List.forall_mem_singleton]
    exact ⟨hreset, closed_evaluation h, closed_notesItem⟩
  · exact List.forall_mem_singleton.2 (closed_evaluation h)

end

theorem closed_collectionItems (records : List Record) :
    ∀ t ∈ collectionItems records, Closed t.toList := by
  intro t ht
  rcases List.mem_append.1 ht with ht | ht
  · obtain ⟨r, -, rfl⟩ := List.mem_map.1 ht
    exact closed_valueItem
  · obtain ⟨r, -, rfl⟩ := List.mem_map.1 ht
    exact closed_presentationItem

theorem closed_blockItems (options : Options) (seed : Int) {records : List Record}
    (h : ∀ r ∈ records, Closed r.form.toList) :
    ∀ t ∈ items options seed records, Closed t.toList := by
  have hstatements : ∀ t ∈ records.flatMap Record.statementItems, Closed t.toList := by
    intro t ht
    obtain ⟨r, hr, ht⟩ := List.mem_flatMap.1 ht
    exact closed_statementItems (h r hr) t ht
  simp only [items, List.forall_mem_append]
  exact ⟨⟨⟨⟨⟨closed_openingItems seed, closed_optionItems options⟩, closed_initialItems _⟩,
    hstatements⟩, closed_collectionItems records⟩, closed_closingItems _⟩

/-! ## What comes after the statements -/

/-- The item that gives a map of the engine a member. -/
def setMember (map name value : String) : String :=
  map ++ ":stackmap_set(" ++ map ++ "," ++ Literal.quoteText name ++ "," ++ value ++ ")"

/-- The items that collect what a function makes of the statements of some kinds, under the keys of
their positions. -/
def collected (map function : String) (p : StatementKind → Bool) (statements : List Statement) :
    List String :=
  (statements.zipIdx.filter fun e => p e.1.kind).map fun e =>
    setMember map (Key.key e.2) (function ++ "(" ++ Key.key e.2 ++ ")")

/-- The items that put the answer together. -/
def packing (presentation : Bool) : List String :=
  [setMember "_RESPONSE" "timeout" "false", setMember "_RESPONSE" "values" "_VALUES",
    "if length(_NOTES)>1 then " ++ setMember "_RESPONSE" "answernotes" "_NOTES"] ++
    (if presentation then [setMember "_RESPONSE" "presentation" "_LATEX"] else []) ++
    ["if length(_ERR)>0 then " ++ setMember "_RESPONSE" "errors" "_ERR"]

/-- The items that print the answer between the sentinels. -/
def prints : List String :=
  [Literal.quoteText outputBegins, "stackjson_stringify(_RESPONSE)",
    Literal.quoteText outputEnds].map fun text => "print(" ++ text ++ ")"

/-- The item that collects what a function makes of a key, from its pieces. -/
theorem setMember_eq {map function name opens calls : String}
    (ho : opens = map ++ ":stackmap_set(" ++ map ++ ",") (hc : calls = "," ++ (function ++ "(")) :
    opens ++ Literal.quoteText name ++ calls ++ name ++ "))" =
      setMember map name (function ++ "(" ++ name ++ ")") := by
  have hcloses : "))" = ")" ++ ")" := by decide
  rw [ho, hc, hcloses, setMember]
  simp only [String.append_assoc]

theorem valueItem_eq (r : Record) :
    r.valueItem = setMember "_VALUES" r.key ("string" ++ "(" ++ r.key ++ ")") :=
  setMember_eq (by decide +kernel) (by decide +kernel)

theorem presentationItem_eq (r : Record) :
    r.presentationItem = setMember "_LATEX" r.key ("tex1" ++ "(" ++ r.key ++ ")") :=
  setMember_eq (by decide +kernel) (by decide +kernel)

/-- The values of all statements but the plain ones are collected, and then the typeset forms of the
display statements. -/
theorem collectionItems_plan (statements : List Statement) :
    collectionItems (plan (statements.map .statement)) =
      collected "_VALUES" "string" (· != .plain) statements ++
        collected "_LATEX" "tex1" (· == .display) statements := by
  rw [collectionItems, plan_statements, List.filter_map, List.filter_map, List.map_map, List.map_map,
    collected, collected]
  exact congrArg₂ (· ++ ·)
    (List.map_congr_left fun e _ => valueItem_eq (.ofRequest (.statement e.1) e.2))
    (List.map_congr_left fun e _ => presentationItem_eq (.ofRequest (.statement e.1) e.2))

theorem closingItems_eq (presentation : Bool) :
    closingItems presentation = packing presentation ++ prints := by
  cases presentation with
  | true => decide +kernel
  | false => decide +kernel

/-! ## The whole block -/

/-- The item evaluates a code, and files its errors under a literal of a context and a position. -/
def Evaluates (item code context : String) (position : Nat) : Prop :=
  ∃ args literal, item = "_EC(" ++ args ++ ")" ∧
    parts? args = some ["errcatch(" ++ code ++ ")", literal, toString position] ∧
    Syntax.Pattern.string.IsLexeme literal.toList ∧ Literal.unquote literal.toList = context.toList

theorem evaluates_evaluation {r : Record} (h : Closed r.form.toList) :
    Evaluates r.evaluation r.code r.context r.index := by
  refine ⟨joinWith "," r.arguments, Literal.quoteText r.context, r.evaluation_eq,
    parts?_joinWith (List.cons_ne_nil _ _) (closed_arguments h), ?_, ?_⟩
  · rw [Literal.quoteText, String.toList_ofList, ← List.append_nil (Literal.quote _)]
    exact Syntax.acceptString_quote r.context.toList []
  · rw [Literal.quoteText, String.toList_ofList]
    exact Syntax.unquote_quote r.context.toList

/-- How a statement is planned at a position. -/
structure PlannedAs (s : Statement) (i : Nat) (r : Record) : Prop where
  index : r.index = i
  collectsValue : r.collectsValue = (s.kind != .plain)
  collectsPresentation : r.collectsPresentation = (s.kind == .display)
  items : r.statementItems =
    if s.kind = .plain then [r.evaluation] else ["__NOTES:[]", r.evaluation, r.notesItem]
  evaluates : ∃ e, Statement.parseSource s.source = .ok e ∧
    Evaluates r.evaluation (if s.kind = .plain then e.text else Key.key i ++ ":" ++ e.text)
      s.context i

theorem form_ofRequest {s : Statement} {e : Expr} (h : s.expr = some e) (i : Nat) :
    (Record.ofRequest (.statement s) i).form = e.text := by
  change s.form.display = e.text
  rw [Statement.form, h]
  rfl

theorem isExtractor_ofRequest (s : Statement) (i : Nat) :
    (Record.ofRequest (.statement s) i).isExtractor = (s.kind != .plain) := by
  change (s.kind != .plain || s.kind == .display) = (s.kind != .plain)
  cases s.kind <;> rfl

theorem closed_form {s : Statement} (h : s.Accepted) (i : Nat) :
    Closed (Record.ofRequest (.statement s) i).form.toList := by
  obtain ⟨e, hp, he⟩ := h.expr
  rw [form_ofRequest he, Expr.text, String.toList_ofList]
  exact (Statement.readable_of_parseSource hp).closed

theorem plannedAs_ofRequest {s : Statement} (h : s.Accepted) (i : Nat) :
    PlannedAs s i (.ofRequest (.statement s) i) where
  index := rfl
  collectsValue := rfl
  collectsPresentation := rfl
  items := by
    rw [Record.statementItems, isExtractor_ofRequest]
    cases s.kind <;> rfl
  evaluates := by
    have hevaluates := evaluates_evaluation (closed_form h i)
    obtain ⟨e, hp, he⟩ := h.expr
    refine ⟨e, hp, ?_⟩
    rw [Record.code, isExtractor_ofRequest, form_ofRequest he] at hevaluates
    cases hk : s.kind with
    | plain => rwa [hk] at hevaluates
    | value => rwa [hk] at hevaluates
    | display => rwa [hk] at hevaluates

/-- The block of a batch comes apart into the items that were planned, and each statement stands
there as the call that evaluates it. The items after the statements are those that collect what they
have to give, put the answer together and print it. -/
theorem block_parts (options : Options) (seed : Int) {statements : List Statement}
    (h : ∀ s ∈ statements, s.Accepted) :
    let records := plan (statements.map .statement)
    let presentation := statements.any (·.kind == .display)
    (∃ body, (compile options seed (statements.map .statement)).text =
        errorRecorder ++ feedbackHelper ++ "block(" ++ body ++ ")$" ∧
      parts? body = some (openingItems seed ++ optionItems options ++ initialItems presentation ++
        records.flatMap Record.statementItems ++ collectionItems records ++
        closingItems presentation)) ∧
    records.length = statements.length ∧
    (∀ i s, statements[i]? = some s → ∃ r, records[i]? = some r ∧ PlannedAs s i r) ∧
    collectionItems records = collected "_VALUES" "string" (· != .plain) statements ++
      collected "_LATEX" "tex1" (· == .display) statements ∧
    closingItems presentation = packing presentation ++ prints := by
  intro records presentation
  have hforms : ∀ r ∈ records, Closed r.form.toList := by
    intro r hr
    obtain ⟨i, s, hs, rfl⟩ := mem_plan.1 hr
    exact closed_form (h s (List.mem_of_getElem? hs)) i
  have hwants : wantsPresentation records = presentation := wantsPresentation_planFrom statements 0
  have hne : items options seed records ≠ [] := List.cons_ne_nil _ _
  refine ⟨⟨joinWith "," (items options seed records), rfl, ?_⟩, ?_, fun i s hs => ?_,
    collectionItems_plan statements, closingItems_eq presentation⟩
  · rw [parts?_joinWith hne (closed_blockItems options seed hforms), items, hwants]
  · exact (length_planFrom _ 0).trans (List.length_map _)
  · refine ⟨.ofRequest (.statement s) i, ?_, plannedAs_ofRequest (h s (List.mem_of_getElem? hs)) i⟩
    rw [show records[i]? = _ from getElem?_plan statements i, hs]
    rfl

/-- Commas, brackets and quotes in literals, in a call and in a context. -/
def mixedBatch : List Statement :=
  [{ kind := .plain, source := .str "f(\",)\",x)", context := "a\"),(\\",
     expr := some (.call (.identifier "f") [.string ",)", .identifier "x"]), parseErrors := [] },
   { kind := .display, source := .str "[a,b]", context := "",
     expr := some (.list [.identifier "a", .identifier "b"]), parseErrors := [] }]

set_option maxRecDepth 4000 in
theorem accepted_mixedBatch : ∀ s ∈ mixedBatch, s.Accepted := by
  rw [mixedBatch, List.forall_mem_cons, List.forall_mem_singleton]
  exact ⟨⟨_, rfl, rfl, rfl⟩, ⟨_, rfl, rfl, rfl⟩⟩

theorem block_parts_mixedBatch : (∀ s ∈ mixedBatch, s.Accepted) ∧ ∃ body,
    (compile {} 7 (mixedBatch.map .statement)).text =
      errorRecorder ++ feedbackHelper ++ "block(" ++ body ++ ")$" ∧
    parts? body = some (items {} 7 (plan (mixedBatch.map .statement))) :=
  ⟨accepted_mixedBatch, (block_parts {} 7 accepted_mixedBatch).1⟩

end AlgebraBatch.Batch
