import AlgebraBatch.Proofs.Batch.Block
import AlgebraBatch.Proofs.Expr.Assigned

/-!
# The names that a program keeps its results under

A program collects errors, notes and results in variables of its own, and it assigns the value of
each statement from which something is collected to the key of the statement. Nothing keeps these
names from the statements: an expression may assign them like any other name, and then the batch
reports what that expression has left there. Unless some expression of the batch does so, each of
the names is assigned just where the program itself assigns it (`undisturbed_iff`).
-/

namespace AlgebraBatch.Batch

open AlgebraBatch.Text AlgebraBatch.Syntax AlgebraBatch.Expr Watch

/-- The variables in which a program puts its answer together. -/
def bookkeeping : List String := ["_ERR", "_RESPONSE", "_NOTES", "_VALUES", "_LATEX", "__NOTES"]

/-- A name that the program of the records keeps something under. -/
def IsReserved (records : List Record) (name : String) : Prop :=
  name ∈ bookkeeping ∨ ∃ r ∈ records, r.isExtractor = true ∧ name = r.key

instance (records : List Record) (name : String) : Decidable (IsReserved records name) :=
  inferInstanceAs (Decidable (_ ∨ _))

/-- The texts that a program is put together from. -/
def pieces (options : Options) (seed : Int) (records : List Record) : List String :=
  errorRecorder :: feedbackHelper :: items options seed records

/-- Nothing but the program's own code assigns the names that the program keeps something under:
a key is assigned by the item that evaluates its record, a variable of the answer by no item that
evaluates a record, and none of them within a form. -/
structure Undisturbed (options : Options) (seed : Int) (records : List Record) : Prop where
  keys : ∀ r ∈ records, r.isExtractor = true → ∀ t ∈ pieces options seed records,
    r.key ∈ assignedNames t ↔ t = r.evaluation
  answer : ∀ r ∈ records, ∀ name ∈ bookkeeping, name ∉ assignedNames r.evaluation
  forms : ∀ r ∈ records, ∀ name, IsReserved records name → name ∉ assignedNames r.form

/-! ## Texts with places to fill in -/

section

variable {w w₁ w₂ w₃ : Watch} {ns ns' ns'' : List String} {s t u : String} {r : Record}
  {records : List Record}

theorem watched_append (hs : Watched w s.toList ns w₁) (ht : Watched w₁ t.toList ns' w₂) :
    Watched w (s ++ t).toList (ns ++ ns') w₂ := by
  rw [String.toList_append]
  exact hs.append ht

theorem watched_quoteText (text : String) : Watched fresh (Literal.quoteText text).toList [] fresh := by
  rw [Literal.quoteText, String.toList_ofList]
  exact watched_quote text.toList

theorem watched_toString (n : Int) : Watched fresh (toString n).toList [] (.code .number) := by
  have hminus : Watched fresh ['-'] [] fresh := by decide
  rw [Content.toString_eq_integerText, String.toList_ofList, integerText]
  split
  · exact hminus.after_silent (watched_toDigits _)
  · exact watched_toDigits _

/-! ## Keys -/

theorem toList_toString (i : Nat) : (toString (i : Int)).toList = Nat.toDigits 10 i := by
  rw [Content.toString_eq_integerText, String.toList_ofList, integerText,
    if_neg (Int.not_lt.2 (Int.natCast_nonneg i)), Int.natAbs_natCast]

theorem toList_key (i : Nat) : (Key.key i).toList = Key.stem.toList ++ Nat.toDigits 10 i := by
  rw [Key.key, String.toList_append, toList_toString]

theorem key_injective {i j : Nat} (h : Key.key i = Key.key j) : i = j := by
  have hdigits : Nat.toDigits 10 i = Nat.toDigits 10 j := by
    rw [← List.append_cancel_left_eq Key.stem.toList, ← toList_key, ← toList_key, h]
  rw [← digitsToNat_toDigits i, hdigits, digitsToNat_toDigits]

theorem watched_key (i : Nat) :
    Watched fresh (Key.key i).toList [] (.code (.name (Key.key i).toList)) := by
  have hstem : Watched fresh Key.stem.toList [] (.code (.name Key.stem.toList)) := by decide
  rw [toList_key]
  refine hstem.after_silent (watched_nameTail (fun c hc => ?_) _)
  have hc : c.isDigit = true := Nat.isDigit_of_mem_toDigits (by decide) (by decide) hc
  rw [isNameChar, isAsciiWordChar, Char.isAlphanum, hc]
  simp

theorem key_not_mem_bookkeeping (i : Nat) : Key.key i ∉ bookkeeping := by
  have all : ∀ name ∈ bookkeeping, ¬ Key.stem.toList <+: name.toList := by decide
  intro h
  apply all _ h
  rw [toList_key]
  exact List.prefix_append _ _

/-! ## The program's own code -/

/-- The text assigns no key. -/
def IsOwn (t : String) : Prop :=
  ∃ ns, Settles t ns ∧ ∀ name ∈ ns, ¬ Key.stem.toList <+: name.toList

theorem IsOwn.key_not_mem (h : IsOwn t) (i : Nat) : Key.key i ∉ assignedNames t := by
  obtain ⟨ns, hsettles, hns⟩ := h
  rw [hsettles.assignedNames]
  intro hi
  apply hns _ hi
  rw [toList_key]
  exact List.prefix_append _ _

theorem isOwn_of_watched (h : Watched fresh t.toList ns fresh)
    (hns : ∀ name ∈ ns, ¬ Key.stem.toList <+: name.toList) : IsOwn t :=
  ⟨ns, h.settles, hns⟩

/-- What a fixed text has to satisfy, so that it can be checked. -/
def IsFixed (t : String) : Prop :=
  Watched fresh t.toList (assignedNames t) fresh ∧
    ∀ name ∈ assignedNames t, ¬ Key.stem.toList <+: name.toList

instance : DecidablePred IsFixed := fun _ => inferInstanceAs (Decidable (_ ∧ _))

theorem IsFixed.isOwn (h : IsFixed t) : IsOwn t := isOwn_of_watched h.1 h.2

/-- What is checked depends on the characters, which are at hand for a literal. -/
theorem isFixed_iff : IsFixed t ↔ fresh.after t.toList = fresh ∧
    ∀ name ∈ fresh.names t.toList, ¬ Key.stem.toList <+: name.toList :=
  and_congr_left' ⟨Watched.after, fun h => ⟨rfl, h⟩⟩

theorem isFixed_errorRecorder : IsFixed errorRecorder := by
  rw [isFixed_iff, errorRecorder]
  repeat rw [String.toList_ofList]
  decide +kernel

/-- The definition is read line by line, as it is written. -/
theorem watched_feedbackHelper : Watched fresh feedbackHelper.toList
    ["exprs", "jloop", "exprs", "str", "__NOTES"] fresh := by
  have hlocals : Watched fresh
      "StackAddFeedback(fb,key,[ex]):=block([str,exprs,jloop],exprs:\"\",".toList
      ["exprs"] fresh := by rw [String.toList_ofList]; decide +kernel
  have hloop : Watched fresh "ev(for jloop:1 thru length(ex) do exprs: ".toList
      ["jloop", "exprs"] fresh := by rw [String.toList_ofList]; decide +kernel
  have hjoin : Watched fresh "sconcat(exprs,\" , !quot!\",ex[jloop],\"!quot! \"),simp),".toList
      [] fresh := by rw [String.toList_ofList]; decide +kernel
  have htext : Watched fresh
      "str:sconcat(fb, \"stack_trans('\",key,\"'\", exprs, \"); !NEWLINE!\"),".toList
      ["str"] fresh := by rw [String.toList_ofList]; decide +kernel
  have hnotes : Watched fresh ("__NOTES:append(__NOTES,[sconcat(\"stack_trans('\",key,\"'\", " ++
      "exprs, \");\")]),return(str))$").toList ["__NOTES"] fresh := by
    rw [String.toList_append]
    repeat rw [String.toList_ofList]
    decide +kernel
  exact watched_append (watched_append (watched_append (watched_append hlocals hloop) hjoin) htext)
    hnotes

theorem isFixed_initialItems (presentation : Bool) : ∀ t ∈ initialItems presentation, IsFixed t := by
  rw [initialItems]
  cases presentation
  all_goals
    simp only [Bool.false_eq_true, if_true, if_false, List.cons_append, List.nil_append,
      List.forall_mem_cons, isFixed_iff]
    repeat rw [String.toList_ofList]
    decide +kernel

theorem isFixed_closingItems (presentation : Bool) : ∀ t ∈ closingItems presentation, IsFixed t := by
  rw [closingItems, print_outputBegins, print_outputEnds]
  cases presentation
  all_goals
    simp only [Bool.false_eq_true, if_true, if_false, List.cons_append, List.nil_append,
      List.forall_mem_cons, isFixed_iff]
    repeat rw [String.toList_ofList]
    decide +kernel

theorem isOwn_openingItems (seed : Int) : ∀ t ∈ openingItems seed, IsOwn t := by
  have hlocals : IsFixed "[]" := by decide
  have hopen : Watched fresh "stack_randseed(".toList [] fresh := by decide
  have hclose : Watched (.code .number) ")".toList [] fresh := by decide
  rw [openingItems, List.forall_mem_cons, List.forall_mem_singleton]
  exact ⟨hlocals.isOwn, isOwn_of_watched
    (watched_append (watched_append hopen (watched_toString seed)) hclose) (List.forall_mem_nil _)⟩

theorem settles_literal (value : SettingValue) : Settles (Options.command.literal value) [] := by
  have htrue : Watched fresh "true".toList [] (.code (.name "true".toList)) := by decide
  have hfalse : Watched fresh "false".toList [] (.code (.name "false".toList)) := by decide
  cases value with
  | flag b =>
    cases b with
    | true => exact ⟨_, htrue, rfl⟩
    | false => exact ⟨_, hfalse, rfl⟩
  | choice text => exact (watched_quoteText text).settles

theorem opens_literal (value : SettingValue) : Opens (Options.command.literal value).toList := by
  cases value with
  | flag b =>
    cases b with
    | true => exact ⟨'t', "rue".toList, by decide, .inl (by decide)⟩
    | false => exact ⟨'f', "alse".toList, by decide, .inl (by decide)⟩
  | choice text =>
    rw [Options.command.literal, Literal.quoteText, String.toList_ofList]
    exact ⟨'"', _, rfl, .inr (.inr (by decide))⟩

theorem isOwn_command (options : Options) (setting : Setting) :
    IsOwn (" " ++ options.command setting) := by
  have hname : ¬ Key.stem.toList <+: setting.engineName.toList := by cases setting <;> decide
  have hcall : Watched fresh (" " ++ (setting.engineName ++ "(")).toList [] fresh := by
    rw [String.toList_append, String.toList_append]
    cases setting
    all_goals
      rw [Setting.engineName]
      repeat rw [String.toList_ofList]
      decide
  have hassign : Watched fresh (" " ++ (setting.engineName ++ ":")).toList []
      (.code (Spot.name setting.engineName.toList).assigned) := by
    rw [String.toList_append, String.toList_append]
    cases setting
    all_goals
      rw [Setting.engineName]
      repeat rw [String.toList_ofList]
      decide
  have hclose : IsSeparator ")".toList := by decide
  obtain ⟨spot, hvalue, hsettled⟩ := settles_literal (options.get setting)
  unfold Options.command
  split
  · rw [← String.append_assoc, ← String.append_assoc]
    exact isOwn_of_watched
      (watched_append (watched_append hcall hvalue) (hclose.watched hsettled)) (List.forall_mem_nil _)
  · have hcommand := watched_append hassign
      (watched_after_colon hvalue (opens_literal (options.get setting)))
    rw [Spot.name?, String.ofList_toList] at hcommand
    rw [← String.append_assoc]
    exact ⟨_, ⟨spot, hcommand, hsettled⟩, by simpa using hname⟩

theorem isOwn_optionItems (options : Options) : ∀ t ∈ optionItems options, IsOwn t := by
  intro t ht
  obtain ⟨setting, -, rfl⟩ := List.mem_map.1 ht
  exact isOwn_command options setting

theorem isOwn_notesItem : IsOwn r.notesItem := by
  have hopen : Watched fresh "if length(__NOTES) > 0 then _NOTES:stackmap_set(_NOTES,".toList
      ["_NOTES"] fresh := by rw [String.toList_ofList]; decide
  have hclose : Watched fresh ",__NOTES)".toList [] fresh := by decide
  exact isOwn_of_watched (watched_append (watched_append hopen (watched_quoteText r.key)) hclose)
    (by decide)

/-- What collects something under the key of a record. -/
theorem isOwn_collection {opening call : String} (ho : IsFixed opening)
    (hcall : Watched fresh call.toList [] fresh) :
    IsOwn (opening ++ Literal.quoteText r.key ++ call ++ r.key ++ "))") := by
  have hclose : IsSeparator "))".toList := by decide
  have hquote := (watched_append ho.1 (watched_quoteText r.key))
  have hkey := watched_append (watched_append hquote hcall) (watched_key r.index)
  exact isOwn_of_watched (watched_append hkey (hclose.watched rfl)) (by simpa using ho.2)

theorem isOwn_valueItem : IsOwn r.valueItem := by
  have hopen : IsFixed "_VALUES:stackmap_set(_VALUES," := by decide
  have hcall : Watched fresh ",string(".toList [] fresh := by decide
  exact isOwn_collection hopen hcall

theorem isOwn_presentationItem : IsOwn r.presentationItem := by
  have hopen : IsFixed "_LATEX:stackmap_set(_LATEX," := by decide
  have hcall : Watched fresh ",tex1(".toList [] fresh := by decide
  exact isOwn_collection hopen hcall

theorem isOwn_collectionItems : ∀ t ∈ collectionItems records, IsOwn t := by
  intro t ht
  rcases List.mem_append.1 ht with ht | ht
  · obtain ⟨r, -, rfl⟩ := List.mem_map.1 ht
    exact isOwn_valueItem
  · obtain ⟨r, -, rfl⟩ := List.mem_map.1 ht
    exact isOwn_presentationItem

/-! ## Evaluations -/

/-- A form that may stand after a colon. -/
structure IsForm (t : String) : Prop where
  settles : ∃ ns, Settles t ns
  opens : Opens t.toList

theorem isForm_text {e : Expr} (h : e.Readable) : IsForm e.text := by
  obtain ⟨ns, spot, hnotices, -⟩ := noticed_render h
  have hbegins := begins_render h []
  rw [List.append_nil] at hbegins
  refine ⟨⟨ns, spot, ?_, hnotices.settled⟩, ?_⟩
  · rw [Expr.text, String.toList_ofList]
    exact hnotices.watched
  · rw [Expr.text, String.toList_ofList]
    exact hbegins.opens

/-- The key of a record, if it has one, and what its form assigns. -/
def Record.names (r : Record) : List String :=
  if r.isExtractor then r.key :: assignedNames r.form else assignedNames r.form

theorem settles_code (h : IsForm r.form) : Settles r.code r.names := by
  have hcolon : Watched (.code (.name r.key.toList)) ":".toList []
      (.code (Spot.name r.key.toList).assigned) := ⟨rfl, rfl⟩
  obtain ⟨ns, hsettles⟩ := h.settles
  rw [Record.names, hsettles.assignedNames]
  unfold Record.code
  split
  · obtain ⟨spot, hw, hsettled⟩ := hsettles
    have hcode := watched_append (watched_append (watched_key r.index) hcolon)
      (watched_after_colon hw h.opens)
    refine ⟨spot, ?_, hsettled⟩
    rw [Spot.name?, String.ofList_toList] at hcode
    exact hcode
  · exact hsettles

theorem watched_evaluation (h : IsForm r.form) :
    Watched fresh r.evaluation.toList r.names fresh := by
  have hopen : Watched fresh "_EC(errcatch(".toList [] fresh := by decide
  have hcaught : IsSeparator "),".toList := by decide
  have hcomma : Watched fresh ",".toList [] fresh := by decide
  have hclose : Watched (.code .number) ")".toList [] fresh := by decide
  obtain ⟨spot, hw, hsettled⟩ := settles_code h
  have hcode := watched_append (watched_append hopen hw) (hcaught.watched hsettled)
  have hcontext := watched_append (watched_append hcode (watched_quoteText r.context)) hcomma
  have hposition : Watched fresh (toString r.index).toList [] (.code .number) :=
    watched_toString r.index
  have hindex := watched_append (watched_append hcontext hposition) hclose
  simp only [List.append_nil, List.nil_append] at hindex
  exact hindex

theorem assignedNames_evaluation (h : IsForm r.form) : assignedNames r.evaluation = r.names :=
  (watched_evaluation h).names

/-! ## All pieces -/

theorem isOwn_or_evaluation (options : Options) (seed : Int) :
    ∀ t ∈ pieces options seed records, IsOwn t ∨ ∃ r ∈ records, t = r.evaluation := by
  have hreset : IsFixed "__NOTES:[]" := by decide
  intro t ht
  simp only [pieces, items, List.mem_cons, List.mem_append, List.mem_flatMap] at ht
  rcases ht with rfl | rfl | ((((ht | ht) | ht) | ⟨r, hr, ht⟩) | ht) | ht
  · exact .inl isFixed_errorRecorder.isOwn
  · exact .inl (isOwn_of_watched watched_feedbackHelper (by decide))
  · exact .inl (isOwn_openingItems seed t ht)
  · exact .inl (isOwn_optionItems options t ht)
  · exact .inl (isFixed_initialItems _ t ht).isOwn
  · unfold Record.statementItems at ht
    split at ht
    · simp only [List.mem_cons, List.not_mem_nil, or_false] at ht
      rcases ht with rfl | rfl | rfl
      · exact .inl hreset.isOwn
      · exact .inr ⟨r, hr, rfl⟩
      · exact .inl isOwn_notesItem
    · exact .inr ⟨r, hr, List.mem_singleton.1 ht⟩
  · exact .inl (isOwn_collectionItems t ht)
  · exact .inl (isFixed_closingItems _ t ht).isOwn

/-! ## Programs -/

/-- A program assigns what the texts assign that it is put together from. -/
theorem assignedNames_programText (options : Options) (seed : Int)
    (h : ∀ r ∈ records, IsForm r.form) :
    assignedNames (programText options seed records) =
      (pieces options seed records).flatMap assignedNames := by
  have hitems : ∀ t ∈ items options seed records, ∃ ns, Settles t ns := by
    intro t ht
    have ht : t ∈ pieces options seed records := List.mem_cons_of_mem _ (List.mem_cons_of_mem _ ht)
    rcases isOwn_or_evaluation options seed t ht with ⟨ns, hsettles, -⟩ | ⟨r, hr, rfl⟩
    · exact ⟨ns, hsettles⟩
    · exact ⟨_, (watched_evaluation (h r hr)).settles⟩
  have hopen : Watched fresh "block(".toList [] fresh := by decide
  have hclose : IsSeparator ")$".toList := by decide
  obtain ⟨spot, hbody, hsettled⟩ := settles_joinWith hitems
  have hhead := watched_append isFixed_errorRecorder.1 watched_feedbackHelper
  have hblock := watched_append (watched_append (watched_append hhead hopen) hbody)
    (hclose.watched hsettled)
  have := hblock.settles.assignedNames
  simp only [List.append_nil] at this
  rw [programText, this, pieces, List.flatMap_cons, List.flatMap_cons, List.append_assoc,
    watched_feedbackHelper.settles.assignedNames]

/-- If no form assigns a name of the program, nothing but the program's own code does. -/
theorem undisturbed_of_forms (options : Options) (seed : Int) (h : ∀ r ∈ records, IsForm r.form)
    (hinj : ∀ r ∈ records, ∀ r' ∈ records, r.index = r'.index → r = r')
    (hforms : ∀ r ∈ records, ∀ name, IsReserved records name → name ∉ assignedNames r.form) :
    Undisturbed options seed records where
  keys r hr hx t ht := by
    constructor
    · intro hmem
      rcases isOwn_or_evaluation options seed t ht with hown | ⟨r', hr', rfl⟩
      · exact absurd hmem (hown.key_not_mem r.index)
      · have hnot := hforms r' hr' r.key (.inr ⟨r, hr, hx, rfl⟩)
        rw [assignedNames_evaluation (h r' hr'), Record.names] at hmem
        split at hmem
        · rcases List.mem_cons.1 hmem with hkey | hmem
          · rw [hinj r hr r' hr' (key_injective hkey)]
          · exact absurd hmem hnot
        · exact absurd hmem hnot
    · rintro rfl
      rw [assignedNames_evaluation (h r hr), Record.names, if_pos hx]
      exact List.mem_cons_self
  answer r hr name hname hmem := by
    have hnot := hforms r hr name (.inl hname)
    rw [assignedNames_evaluation (h r hr), Record.names] at hmem
    split at hmem
    · rcases List.mem_cons.1 hmem with rfl | hmem
      · exact key_not_mem_bookkeeping r.index hname
      · exact hnot hmem
    · exact hnot hmem
  forms := hforms

end

/-- In the program of accepted statements, each key is assigned where its record is evaluated and
the variables of the answer by the program's own code only, just if no expression of a statement
assigns one of these names. -/
theorem undisturbed_iff (options : Options) (seed : Int) {statements : List Statement}
    (h : ∀ s ∈ statements, s.Accepted) :
    let program := compile options seed (statements.map .statement)
    (∃ body, program.text = errorRecorder ++ feedbackHelper ++ "block(" ++ body ++ ")$" ∧
      parts? body = some (items options seed program.records)) ∧
    assignedNames program.text = (pieces options seed program.records).flatMap assignedNames ∧
    (Undisturbed options seed program.records ↔
      ∀ s ∈ statements, ∀ e, Statement.parseSource s.source = .ok e →
        ∀ name, e.Assigns name → ¬ IsReserved program.records name) := by
  intro program
  have hform : ∀ r ∈ program.records, ∃ s ∈ statements, ∃ e,
      Statement.parseSource s.source = .ok e ∧ r.form = e.text ∧ e.Readable := by
    intro r hr
    obtain ⟨i, s, hs, rfl⟩ := mem_plan.1 hr
    obtain ⟨e, hp, he⟩ := (h s (List.mem_of_getElem? hs)).expr
    exact ⟨s, List.mem_of_getElem? hs, e, hp, form_ofRequest he i,
      Statement.readable_of_parseSource hp⟩
  have hisForm : ∀ r ∈ program.records, IsForm r.form := by
    intro r hr
    obtain ⟨s, -, e, -, he, hreadable⟩ := hform r hr
    rw [he]
    exact isForm_text hreadable
  have hclosed : ∀ r ∈ program.records, Closed r.form.toList := by
    intro r hr
    obtain ⟨s, -, e, -, he, hreadable⟩ := hform r hr
    rw [he, Expr.text, String.toList_ofList]
    exact hreadable.closed
  have hne : items options seed program.records ≠ [] := List.cons_ne_nil _ _
  refine ⟨⟨_, rfl, parts?_joinWith hne (closed_blockItems options seed hclosed)⟩,
    assignedNames_programText options seed hisForm, ?_, ?_⟩
  · intro hu s hs e hp name ha hreserved
    obtain ⟨i, hi⟩ := List.mem_iff_getElem?.1 hs
    have hnot := hu.forms _ (mem_plan.2 ⟨i, s, hi, rfl⟩) name hreserved
    obtain ⟨e', hp', he⟩ := (h s hs).expr
    obtain rfl : e = e' := Except.ok.inj (hp.symm.trans hp')
    rw [form_ofRequest he i,
      mem_assignedNames_text (Statement.readable_of_parseSource hp)] at hnot
    exact hnot ha
  · intro hs
    refine undisturbed_of_forms options seed hisForm ?_ ?_
    · intro r hr r' hr' hindex
      obtain ⟨i, s, hs, rfl⟩ := mem_plan.1 hr
      obtain ⟨j, s', hs', rfl⟩ := mem_plan.1 hr'
      obtain rfl : i = j := hindex
      rw [Option.some.inj (hs.symm.trans hs')]
    · intro r hr name hreserved hmem
      obtain ⟨s, hs', e, hp, he, hreadable⟩ := hform r hr
      rw [he, mem_assignedNames_text hreadable] at hmem
      exact hs s hs' e hp name hmem hreserved

/-- A sum whose value is collected, and a statement that assigns a name. -/
def assigningBatch (name : String) : List Statement :=
  [{ kind := .value, source := .str "1+1", context := "",
     expr := some (.operation "+" (.integer 1) (.integer 1)), parseErrors := [] },
   { kind := .plain, source := .str (name ++ ":5"), context := "",
     expr := some (.operation ":" (.identifier name) (.integer 5)), parseErrors := [] }]

set_option maxRecDepth 4000 in
theorem accepted_assigningBatch :
    ∀ name ∈ ["__e_smt_0", "__e_smt_1"], ∀ s ∈ assigningBatch name, s.Accepted := by
  simp only [assigningBatch, List.forall_mem_cons]
  exact ⟨⟨⟨_, rfl, rfl, rfl⟩, ⟨_, rfl, rfl, rfl⟩, nofun⟩,
    ⟨⟨_, rfl, rfl, rfl⟩, ⟨_, rfl, rfl, rfl⟩, nofun⟩, nofun⟩

/-- Nothing is collected under the name `__e_smt_1`, since the statement there has no value. -/
theorem undisturbed_unusedKey : (∀ s ∈ assigningBatch "__e_smt_1", s.Accepted) ∧
    Undisturbed {} 7 (plan ((assigningBatch "__e_smt_1").map .statement)) := by
  have haccepted := accepted_assigningBatch "__e_smt_1" (by decide)
  have hreserved : ¬ IsReserved (plan ((assigningBatch "__e_smt_1").map .statement)) "__e_smt_1" := by
    decide
  refine ⟨haccepted, (undisturbed_iff {} 7 haccepted).2.2.2 ?_⟩
  intro s hs e hp name ha
  obtain ⟨e', hp', he⟩ := (haccepted s hs).expr
  obtain rfl : e = e' := Except.ok.inj (hp.symm.trans hp')
  simp only [assigningBatch, List.mem_cons, List.not_mem_nil, or_false] at hs
  rcases hs with rfl | rfl
  · cases he
    simp [Assigns, walk, assignedName?] at ha
  · cases he
    rw [assigns_operation] at ha
    rcases ha with ha | ⟨d, hd, ha⟩ | ⟨d, hd, ha⟩
    · obtain rfl : "__e_smt_1" = name := Option.some.inj ha
      exact hreserved
    · obtain rfl := List.mem_singleton.1 hd
      cases ha
    · obtain rfl := List.mem_singleton.1 hd
      cases ha

/-- The second statement replaces the value that is reported for the first one. -/
theorem not_undisturbed_reusedKey : (∀ s ∈ assigningBatch "__e_smt_0", s.Accepted) ∧
    ¬ Undisturbed {} 7 (plan ((assigningBatch "__e_smt_0").map .statement)) := by
  have hreserved : IsReserved (plan ((assigningBatch "__e_smt_0").map .statement)) "__e_smt_0" := by
    decide
  refine ⟨accepted_assigningBatch "__e_smt_0" (by decide), fun hu => ?_⟩
  have hnot := hu.forms _ (mem_plan.2 ⟨1, _, rfl, rfl⟩) "__e_smt_0" hreserved
  exact hnot (by decide)

end AlgebraBatch.Batch
