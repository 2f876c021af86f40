import AlgebraBatch.CommandLine.Run
import AlgebraBatch.Proofs.Batch.Outcome
import AlgebraBatch.Proofs.Text.Search
import Mathlib

/-!
# What is reported of each line

Two numberings run side by side: a statement is known to the reader of a report by the number of its
line in the file, and to the engine by its position in the batch. `HeldBy` lists the lines that hold
statements in order, and `Row.answered` is the row that an answer means for the statement of a line
at a position, `writtenRow` the map that is written of it. A run that comes to an end reports one such
row for each of these lines, in order (`run_rows`), whatever the engine is and whatever it answers.
-/

namespace AlgebraBatch

open AlgebraBatch.Text

/-- Whatever is at a position of the first list is related to what is there in the second. -/
theorem getElem?_of_forall₂ {α β : Type} {R : α → β → Prop} {xs : List α} {ys : List β}
    (h : List.Forall₂ R xs ys) {j : Nat} {x : α} (hx : xs[j]? = some x) :
    ∃ y, ys[j]? = some y ∧ R x y := by
  induction h generalizing j with
  | nil => cases hx
  | cons hxy _ ih =>
    cases j with
    | zero =>
      cases hx
      exact ⟨_, rfl, hxy⟩
    | succ j => exact ih hx

/-! ## Lines -/

namespace StatementFile

/-- A line of a text, where the first one has the number one. -/
def line? (text : String) : Nat → Option (List Char)
  | 0 => none
  | n + 1 => (splitLines text.toList)[n]?

/-- The line has the number `n`, and it is neither blank nor a comment. -/
def HoldsStatement (text : String) (n : Nat) (line : List Char) : Prop :=
  line? text n = some line ∧ isSkipped (strip line) = false

/-- The numbers are those of the lines that hold statements, in ascending order. -/
structure HeldBy (text : String) (numbers : List Nat) : Prop where
  ascending : numbers.Pairwise (· < ·)
  mem_iff : ∀ n, n ∈ numbers ↔ ∃ line, HoldsStatement text n line

theorem HeldBy.unique {text : String} {numbers numbers' : List Nat} (h : HeldBy text numbers)
    (h' : HeldBy text numbers') : numbers = numbers' :=
  h.ascending.eq_of_mem_iff h'.ascending fun n => (h.mem_iff n).trans (h'.mem_iff n).symm

/-- The source is what is between blanks at the beginning of the line and blanks and terminators at
its end, and no blank is left at its ends. -/
structure IsTrimmed (line source : List Char) : Prop where
  within : ∃ lead trail, line = lead ++ source ++ trail ∧ (∀ c ∈ lead, isBlank c = true) ∧
    ∀ c ∈ trail, isBlank c = true ∨ isTerminator c = true
  head : ∀ c ∈ source.head?, isBlank c = false
  last : ∀ c ∈ source.getLast?, isBlank c = false

theorem getLast?_dropRightWhile (p : Char → Bool) (cs : List Char) :
    ∀ c ∈ (dropRightWhile p cs).getLast?, p c = false := by
  intro c hc
  rw [dropRightWhile, List.getLast?_reverse] at hc
  have := List.head?_dropWhile_not p cs.reverse
  rw [Option.mem_def.1 hc] at this
  simpa using this

theorem head?_of_append_eq {cs ds es : List Char} (h : cs = ds ++ es) {c : Char}
    (hc : c ∈ ds.head?) : c ∈ cs.head? := by
  cases ds with
  | nil => cases hc
  | cons d ds => rw [h]; exact hc

theorem isTrimmed_sourceOf (line : List Char) :
    IsTrimmed line (sourceOf (strip line)).toList := by
  obtain ⟨t₁, h₁, hb₁⟩ := dropRightWhile_append isBlank (stripLeft line)
  obtain ⟨t₂, h₂, hb₂⟩ := dropRightWhile_append isTerminator (strip line)
  obtain ⟨t₃, h₃, hb₃⟩ := dropRightWhile_append isBlank (dropRightWhile isTerminator (strip line))
  have hsource : (sourceOf (strip line)).toList =
      dropRightWhile isBlank (dropRightWhile isTerminator (strip line)) := by
    rw [sourceOf, String.toList_ofList, stripRight]
  have hline : line = line.takeWhile isBlank ++ ((sourceOf (strip line)).toList ++
      (t₃ ++ (t₂ ++ t₁))) := by
    rw [hsource, ← List.append_assoc _ t₃, ← h₃, ← List.append_assoc _ t₂, ← h₂]
    rw [strip, stripRight, ← h₁, stripLeft, List.takeWhile_append_dropWhile]
  constructor
  · refine ⟨line.takeWhile isBlank, t₃ ++ (t₂ ++ t₁), ?_, fun c => List.mem_takeWhile_imp, ?_⟩
    · rw [List.append_assoc]
      exact hline
    · intro c hc
      simp only [List.mem_append] at hc
      obtain hc | hc | hc := hc
      · exact .inl (hb₃ c hc)
      · exact .inr (hb₂ c hc)
      · exact .inl (hb₁ c hc)
  · intro c hc
    rw [hsource] at hc
    have hleft : c ∈ (stripLeft line).head? :=
      head?_of_append_eq h₁ (head?_of_append_eq h₂ (head?_of_append_eq h₃ hc))
    have := List.head?_dropWhile_not isBlank line
    rw [stripLeft, Option.mem_def] at hleft
    rw [hleft] at this
    simpa using this
  · rw [hsource]
    exact getLast?_dropRightWhile isBlank _

theorem mem_sources {text source : String} {n : Nat} :
    (source, n) ∈ sources text ↔
      ∃ line, HoldsStatement text n line ∧ source = sourceOf (strip line) := by
  simp only [sources, numberedLines, List.mem_map, List.mem_filter, Prod.exists,
    List.mk_mem_zipIdx_iff_le_and_getElem?_sub, HoldsStatement]
  constructor
  · rintro ⟨line, m, ⟨⟨hm, hline⟩, hskip⟩, he⟩
    obtain ⟨rfl, rfl⟩ := Prod.mk.inj he
    obtain ⟨k, rfl⟩ := Nat.exists_eq_add_of_le' hm
    rw [Nat.add_sub_cancel, List.getElem?_map, Option.map_eq_some_iff] at hline
    obtain ⟨raw, hraw, rfl⟩ := hline
    exact ⟨raw, ⟨hraw, by simpa using hskip⟩, rfl⟩
  · rintro ⟨raw, ⟨hraw, hskip⟩, rfl⟩
    cases n with
    | zero => cases hraw
    | succ k =>
      refine ⟨strip raw, k + 1, ⟨⟨Nat.succ_pos k, ?_⟩, by simpa using hskip⟩, rfl⟩
      rw [Nat.add_sub_cancel, List.getElem?_map, show (splitLines text.toList)[k]? = some raw
        from hraw, Option.map_some]

theorem heldBy_sources (text : String) : HeldBy text ((sources text).map Prod.snd) := by
  constructor
  · have hsub : List.Sublist ((sources text).map Prod.snd) ((numberedLines text).map Prod.snd) := by
      rw [sources, List.map_map]
      exact List.filter_sublist.map Prod.snd
    refine List.Pairwise.sublist hsub ?_
    rw [numberedLines, List.zipIdx_map_snd]
    exact List.pairwise_lt_range'
  · intro n
    rw [List.mem_map]
    constructor
    · rintro ⟨⟨source, m⟩, hm, rfl⟩
      obtain ⟨line, hline, -⟩ := mem_sources.1 hm
      exact ⟨line, hline⟩
    · rintro ⟨line, hline⟩
      exact ⟨_, mem_sources.2 ⟨line, hline, rfl⟩, rfl⟩

/-- The statements of a file are made of the sources in it, one by one. -/
theorem read_eq_ok {name contents : String} {statements : List Statement}
    (h : read name contents = .ok statements) :
    statements.length = (sources (fileText contents)).length ∧
    ∀ (j : Nat) (s : Statement), statements[j]? = some s → ∃ source n,
      (sources (fileText contents))[j]? = some (source, n) ∧
      Statement.make .display (.str source) (contextOf name n) = .ok s := by
  have hall : List.Forall₂ (fun entry s =>
      Statement.make .display (.str entry.1) (contextOf name entry.2) = .ok s)
      (sources (fileText contents)) statements := mapM_eq_ok.1 h
  refine ⟨hall.length_eq.symm, fun j s hj => ?_⟩
  obtain ⟨⟨source, n⟩, hentry, hmake⟩ := getElem?_of_forall₂ hall.flip hj
  exact ⟨source, n, hentry, hmake⟩

end StatementFile

/-! ## Statements as they were made -/

namespace Statement

/-- The statement before any batch. -/
def origin (s : Statement) : Statement :=
  { kind := s.kind, source := s.source, context := s.context, expr := s.expr,
    parseErrors := s.parseErrors }

theorem make_cases {kind : StatementKind} {source : Datum} {context : String} {s : Statement}
    (h : make kind source context = .ok s) :
    s.kind = kind ∧ s.source = source ∧ s.context = context ∧
      (s.valid = true → s.parseErrors = []) := by
  unfold make at h
  split at h
  · cases h
    exact ⟨rfl, rfl, rfl, fun _ => rfl⟩
  · cases h
    exact ⟨rfl, rfl, rfl, nofun⟩
  · cases h

end Statement

/-- What was made, if the request is a statement. -/
def Request.origin? : Request → Option Statement
  | .statement s => some s.origin
  | .probe _ => none

theorem Batch.handTo_origin? (d : Batch.Delivery) (r : Request) :
    (d.handTo r).1.origin? = r.origin? := by
  cases r with
  | probe p => cases d <;> rfl
  | statement s =>
    cases d with
    | status errors notes =>
      simp only [Batch.Delivery.handTo, Request.setStatus, Batch.setStatus_list]
      cases notes.elements? <;> rfl
    | value e =>
      simp only [Batch.Delivery.handTo, Request.setValue, Statement.setValue]
      split <;> rfl
    | presentation text => rfl

/-! ## Rows -/

namespace Report

open AlgebraBatch.Batch AlgebraBatch.Engine

open Addressed in
/-- What is reported of a statement at a position in the batch, for an answer. -/
def Row.answered (context : String) (source : Datum) (i : Nat) (bag : Bag) : Row :=
  if bag.isTimedOut then
    { context, source, value := .null, presentation := .null, errors := [.str "TIMEDOUT"],
      notes := [] }
  else
    { context, source
      value := ((value? i bag).bind readable?).elim .null fun e => .str e.text
      presentation := ((presentation? i bag).bind Datum.text?).elim .null .str
      errors := (records i bag).flatMap messages ++ (unreadables i bag).map unreadableMessage
      notes := ((Addressed.notes i bag).getLast?.bind Datum.elements?).getD [] }

/-- What is written of a statement at a position in the batch, for an answer. -/
def writtenRow (context source : String) (i : Nat) (bag : Bag) : Datum :=
  let row := Row.answered context (.str source) i bag
  .map [(.str "context", .str context), (.str "source", .str source), (.str "value", row.value),
    (.str "presentation", row.presentation), (.str "errors", .list row.errors),
    (.str "answernotes", .list row.notes)]

theorem toDatum_answered (context source : String) (i : Nat) (bag : Bag) :
    (Row.answered context (.str source) i bag).toDatum = writtenRow context source i bag := by
  unfold writtenRow Row.answered
  split <;> rfl

theorem valueText_ofExpr {s : Statement} {o : Option Expr} (h : s.value = o.map .ofExpr) :
    s.valueText = .ok (o.elim .null fun e => .str e.text) := by
  rw [Statement.valueText, h]
  cases o with
  | none => rfl
  | some e => exact Content.print_ofExpr e

open Addressed in
/-- The outcome of an answer is reported as the row of the answer. -/
theorem ofStatement_eq {s : Statement} {i : Nat} {bag : Bag}
    (ho : s.outcome = Outcome.of .display i bag) (hp : s.parseErrors = [])
    (hone : (records i bag).length ≤ 1) :
    Row.ofStatement s = .ok (Row.answered s.context s.source i bag) := by
  have hvalue : s.value = (Outcome.of .display i bag).value := by rw [← ho]; rfl
  have hpresentation : s.presentation = (Outcome.of .display i bag).presentation := by
    rw [← ho]
    rfl
  have herrors : s.allErrors = (Outcome.of .display i bag).errors := by
    rw [Statement.allErrors, hp, ← ho]
    rfl
  have hnotes : s.notes = (Outcome.of .display i bag).notes := by rw [← ho]; rfl
  cases ht : bag.isTimedOut with
  | true =>
    rw [Outcome.of, if_pos ht] at hvalue hpresentation herrors hnotes
    rw [Row.ofStatement, valueText_ofExpr (o := none) hvalue, hpresentation, herrors, hnotes,
      Row.answered, if_pos ht]
    rfl
  | false =>
    rw [Outcome.errors_of ht hone] at herrors
    rw [Outcome.of, if_neg (ne_true_of_eq_false ht)] at hvalue hpresentation hnotes
    rw [Row.ofStatement, valueText_ofExpr hvalue, hpresentation, herrors, hnotes, Row.answered,
      if_neg (ne_true_of_eq_false ht)]
    rfl

/-- A report has a row for each member, in order, if all members are statements with a row. -/
theorem ofSession_eq {session : Session} {store : Store} {completed : Bool} {P : Nat → Row → Prop}
    (h : ∀ m ∈ session.members, ∃ s row, store.request m = .statement s ∧
      Row.ofStatement s = .ok row ∧ P m row) :
    ∃ rows, Report.ofSession session store completed =
        .ok { seed := session.seed, status := .of session completed, rows } ∧
      List.Forall₂ P session.members rows := by
  have hrows : ∀ ms : List Nat, (∀ m ∈ ms, ∃ s row, store.request m = .statement s ∧
      Row.ofStatement s = .ok row ∧ P m row) →
      ∃ rows, ((ms.map store.request).filterMap Row.ofRequest?).mapM id = .ok rows ∧
        List.Forall₂ P ms rows := by
    intro ms
    induction ms with
    | nil => exact fun _ => ⟨[], rfl, .nil⟩
    | cons m ms ih =>
      intro h
      obtain ⟨⟨s, row, hs, hrow, hP⟩, hms⟩ := List.forall_mem_cons.1 h
      obtain ⟨rows, hrows, hall⟩ := ih hms
      have hsome : Row.ofRequest? (.statement s) = some (.ok row) := congrArg some hrow
      refine ⟨row :: rows, ?_, .cons hP hall⟩
      rw [List.map_cons, hs, List.filterMap_cons_some hsome, List.mapM_cons, hrows]
      rfl
  obtain ⟨rows, heq, hall⟩ := hrows _ h
  refine ⟨rows, ?_, hall⟩
  rw [Report.ofSession, Session.requests, heq]
  rfl

end Report

/-! ## Runs -/

namespace CommandLine

open AlgebraBatch.Batch AlgebraBatch.Engine Report StatementFile

/-- The evaluation that a run makes of its statements. -/
def evaluation (statements : List Statement) (connector : Connector) (session : Session)
    (host : Host) : Session.Evaluation :=
  session.instantiate (.ofList (statements.map .statement)) fun program =>
    (connector.call program host).output

variable {files : Files} {host : Host} {clock : Int} {argv : List String} {args : Arguments}
  {text : String} {statements : List Statement} {connector : Connector} {session : Session}
  {completed : Bool}

theorem request_ofList {i : Nat} {s : Statement} (h : statements[i]? = some s) :
    (Store.ofList (statements.map .statement)).request i = .statement s := by
  rw [Store.ofList]
  simp [List.getElem?_map, h]

theorem members_prepare (h : prepare files clock args statements = .ok (connector, session)) :
    session.members = List.range statements.length ∧ session.instantiated = false := by
  unfold prepare at h
  obtain ⟨options, -, h⟩ := bind_eq_ok.1 h
  obtain ⟨connector', -, h⟩ := bind_eq_ok.1 h
  obtain ⟨session', hs, h⟩ := bind_eq_ok.1 h
  cases h
  cases hmake : Session.make ((List.range statements.length).map .inl) (.inl options)
      (args.seed.elim .null .int) clock with
  | error fault => rw [hmake] at hs; cases hs
  | ok made =>
    rw [hmake] at hs
    cases hs
    unfold Session.make at hmake
    obtain ⟨members, hm, hmake⟩ := bind_eq_ok.1 hmake
    obtain ⟨options', -, hmake⟩ := bind_eq_ok.1 hmake
    obtain ⟨seed, -, hmake⟩ := bind_eq_ok.1 hmake
    cases hmake
    exact ⟨(List.map_injective_iff.2 (fun _ _ => Sum.inl.inj) (World.enlist_ok hm)).symm, rfl⟩

/-- An evaluation that returns keeps the members of its session. -/
theorem members_evaluation : (evaluation statements connector session host).session.members =
    session.members := by
  rcases session.instantiate_cases (.ofList (statements.map .statement))
    (fun program => (connector.call program host).output) with ⟨-, he⟩ | ⟨_, -, -, -, he⟩ | q
  · rw [evaluation, he]
  · rw [evaluation, he]
  · have hs := q.settled
    rw [evaluation]
    revert hs
    generalize (session.instantiate _ _).session = s'
    rintro (_ | _ | _) <;> rfl

/-- What the statement at a position is left with, once the engine has answered. -/
theorem statement_evaluation {program : String} {bag : Bag} {j : Nat} {s : Statement}
    (hm : session.members = List.range statements.length)
    (hasked : (evaluation statements connector session host).asked = some program)
    (hret : (evaluation statements connector session host).result = .ok completed)
    (hbag : answered (connector.call program host).output = .ok bag)
    (hs : statements[j]? = some s) (hk : s.kind = .display) :
    ∃ t, (evaluation statements connector session host).store.request j = .statement t ∧
      t.outcome = Outcome.of .display j bag ∧ t.origin = s.origin := by
  have hn : session.members.Nodup := hm ▸ List.nodup_range
  obtain ⟨bag', hbag', -, houtcome⟩ := outcome_instantiate hn hasked hret
  obtain rfl : bag' = bag := Except.ok.inj (hbag'.symm.trans hbag)
  have hj : session.members[j]? = some j := by
    rw [hm, List.getElem?_range (List.getElem?_eq_some_iff.1 hs).1]
  obtain ⟨t, ht, ho⟩ := houtcome j j s hj (request_ofList hs)
  have horigin : (Request.statement t).origin? = (Request.statement s).origin? := by
    rw [← ht, ← request_ofList hs]
    exact Session.instantiate_invariant handTo_origin? session _ _ j
  exact ⟨t, ht, hk ▸ ho, Option.some.inj horigin⟩

theorem parseErrors_of_origin {s t : Statement} (h : t.origin = s.origin) :
    t.parseErrors = s.parseErrors := by
  show t.origin.parseErrors = s.origin.parseErrors
  rw [h]

open Addressed in
/-- What is reported of the statement at a position, once the engine has answered. -/
theorem row_evaluation {program : String} {bag : Bag} {j : Nat} {s : Statement}
    (hm : session.members = List.range statements.length)
    (hasked : (evaluation statements connector session host).asked = some program)
    (hret : (evaluation statements connector session host).result = .ok completed)
    (hbag : answered (connector.call program host).output = .ok bag)
    (hone : (records j bag).length ≤ 1) (hs : statements[j]? = some s) (hk : s.kind = .display)
    (hp : s.parseErrors = []) :
    ∃ t, (evaluation statements connector session host).store.request j = .statement t ∧
      Row.ofStatement t = .ok (Row.answered s.context s.source j bag) := by
  obtain ⟨t, ht, ho, horigin⟩ := statement_evaluation hm hasked hret hbag hs hk
  have hcontext : t.context = s.context := by
    show t.origin.context = s.origin.context
    rw [horigin]
  have hsource : t.source = s.source := by
    show t.origin.source = s.origin.source
    rw [horigin]
  refine ⟨t, ht, ?_⟩
  rw [← hcontext, ← hsource]
  exact ofStatement_eq ho ((parseErrors_of_origin horigin).trans hp) hone

/-- An evaluation of statements asks the engine if it returns, and then they are all valid. -/
theorem asked_evaluation (hne : statements ≠ [])
    (hm : session.members = List.range statements.length) (hfresh : session.instantiated = false)
    (hret : (evaluation statements connector session host).result = .ok completed) :
    (∃ program bag, (evaluation statements connector session host).asked = some program ∧
      answered (connector.call program host).output = .ok bag ∧ completed = !bag.isTimedOut) ∧
    ∀ s ∈ statements, s.valid = true := by
  have hmembers : session.members ≠ [] := by
    rw [hm]
    simpa using hne
  rcases session.instantiate_cases (.ofList (statements.map .statement))
    (fun program => (connector.call program host).output) with ⟨h, -⟩ | ⟨_, -, -, -, he⟩ | q
  · simp [hmembers, hfresh] at h
  · rw [evaluation, he] at hret
    cases hret
  · refine ⟨?_, fun s hs => ?_⟩
    · obtain ⟨bag, hbag, hc, -⟩ := outcome_instantiate (hm ▸ List.nodup_range) q.asked hret
      exact ⟨_, bag, q.asked, hbag, hc⟩
    · obtain ⟨j, hj⟩ := List.mem_iff_getElem?.1 hs
      have hv := List.all_eq_true.1 q.valid (.statement s) ?_
      · exact hv
      · rw [Session.requests, hm, List.mem_map]
        exact ⟨j, List.mem_range.2 (List.getElem?_eq_some_iff.1 hj).1, request_ofList hj⟩

/-- The valid statements of a file have no errors of parsing. -/
theorem parseErrors_read {name : String} {s : Statement}
    (hread : StatementFile.read name text = .ok statements) (hs : s ∈ statements)
    (hv : s.valid = true) : s.kind = .display ∧ s.parseErrors = [] := by
  obtain ⟨j, hj⟩ := List.mem_iff_getElem?.1 hs
  obtain ⟨source, n, -, hmake⟩ := (StatementFile.read_eq_ok hread).2 j s hj
  obtain ⟨hk, -, -, hp⟩ := Statement.make_cases hmake
  exact ⟨hk, hp hv⟩

open Addressed in
/-- The report of an evaluation has a row for each statement, for the answer and the position of the
statement. -/
theorem report_evaluation {program : String} {bag : Bag}
    (hread : ∀ s ∈ statements, s.kind = .display ∧ s.parseErrors = [])
    (hm : session.members = List.range statements.length)
    (hasked : (evaluation statements connector session host).asked = some program)
    (hret : (evaluation statements connector session host).result = .ok completed)
    (hbag : answered (connector.call program host).output = .ok bag)
    (hone : ∀ i, (records i bag).length ≤ 1) :
    ∃ report, Report.ofSession (evaluation statements connector session host).session
        (evaluation statements connector session host).store completed = .ok report ∧
      List.Forall₂ (fun j row => ∃ s, statements[j]? = some s ∧
        row = Row.answered s.context s.source j bag) (List.range statements.length) report.rows := by
  have hmembers := (@members_evaluation host statements connector session).trans hm
  obtain ⟨rows, hreport, hall⟩ := @ofSession_eq
    (evaluation statements connector session host).session
    (evaluation statements connector session host).store completed
    (fun j row => ∃ s, statements[j]? = some s ∧ row = Row.answered s.context s.source j bag) (by
      rw [hmembers]
      intro j hj
      have hs := List.getElem?_eq_getElem (List.mem_range.1 hj)
      obtain ⟨hk, hp⟩ := hread _ (List.mem_of_getElem? hs)
      obtain ⟨t, ht, hr⟩ := row_evaluation hm hasked hret hbag (hone j) hs hk hp
      exact ⟨t, _, ht, hr, _, hs, rfl⟩)
  rw [hmembers] at hall
  exact ⟨_, hreport, hall⟩

/-- The report of a batch without statements has no rows. -/
theorem report_nil (hm : session.members = List.range 0) :
    ∃ report, Report.ofSession (evaluation [] connector session host).session
        (evaluation [] connector session host).store completed = .ok report ∧
      report.rows = [] := by
  obtain ⟨rows, hreport, hall⟩ := @ofSession_eq
    (evaluation [] connector session host).session (evaluation [] connector session host).store
    completed (fun _ _ => True) (by rw [members_evaluation, hm]; exact nofun)
  rw [members_evaluation, hm] at hall
  exact ⟨_, hreport, List.forall₂_nil_left_iff.1 hall⟩

/-- A line that holds a statement has its row at the position of the line among these lines. -/
theorem written_of_answered {name : String} {bag : Bag} {rows : List Row} {j n : Nat}
    (hread : StatementFile.read name text = .ok statements)
    (hall : List.Forall₂ (fun j row => ∃ s, statements[j]? = some s ∧
      row = Row.answered s.context s.source j bag) (List.range statements.length) rows)
    (hj : ((sources (fileText text)).map Prod.snd)[j]? = some n) :
    ∃ line, HoldsStatement (fileText text) n line ∧ IsTrimmed line (sourceOf (strip line)).toList ∧
      (rows.map Row.toDatum)[j]? =
        some (writtenRow (name ++ ":" ++ toString n) (sourceOf (strip line)) j bag) := by
  obtain ⟨hlength, hsources⟩ := StatementFile.read_eq_ok hread
  have hlt : j < statements.length := by
    have := (List.getElem?_eq_some_iff.1 hj).1
    rwa [List.length_map, ← hlength] at this
  obtain ⟨row, hrow, s, hs, rfl⟩ := getElem?_of_forall₂ hall (List.getElem?_range hlt)
  obtain ⟨source, n', hsource, hmake⟩ := hsources j s hs
  obtain rfl : n' = n := by
    rw [List.getElem?_map, hsource] at hj
    exact Option.some.inj hj
  obtain ⟨line, hline, rfl⟩ := mem_sources.1 (List.mem_of_getElem? hsource)
  obtain ⟨-, hs', hc', -⟩ := Statement.make_cases hmake
  refine ⟨line, hline, isTrimmed_sourceOf line, ?_⟩
  rw [List.getElem?_map, hrow, hs', hc', contextOf, Option.map_some, toDatum_answered]

/-- What a run writes and how it exits, once its evaluation has returned and is reported. -/
theorem run_reported {report : Report} (hargs : Arguments.parse argv = .ok args)
    (htext : files.read (tidyPath args.statements) = .ok text)
    (hread : StatementFile.read (baseName args.statements) text = .ok statements)
    (hprepare : prepare files clock args statements = .ok (connector, session))
    (hret : (evaluation statements connector session host).result = .ok completed)
    (hreport : Report.ofSession (evaluation statements connector session host).session
      (evaluation statements connector session host).store completed = .ok report) :
    (run files host clock argv).exit =
      ((write (.str args.format.name) report.toDatum).map fun _ =>
        if completed then 0 else 1).mapError .fault ∧
    (run files host clock argv).stdout =
      (write (.str args.format.name) report.toDatum).toOption.getD "" := by
  unfold evaluation at hret hreport
  simp only [run, hargs, htext, hread, evaluate, hprepare, hret, conclude, hreport, Except.bind]
  cases write (.str args.format.name) report.toDatum with
  | error fault => exact ⟨rfl, rfl⟩
  | ok out => exact ⟨rfl, rfl⟩

open Addressed in
/-- A run that comes to an end writes the report of its evaluation, with one row for each line that
holds a statement, in the order of the lines. The row of a line names the line by its number in the
file, and tells what the engine has answered for the position of the line among these lines. -/
theorem run_rows (hargs : Arguments.parse argv = .ok args)
    (htext : files.read (tidyPath args.statements) = .ok text)
    (hread : StatementFile.read (baseName args.statements) text = .ok statements)
    (hprepare : prepare files clock args statements = .ok (connector, session))
    (hret : (evaluation statements connector session host).result = .ok completed)
    (hone : ∀ program bag, (evaluation statements connector session host).asked = some program →
      answered (connector.call program host).output = .ok bag → ∀ i, (records i bag).length ≤ 1) :
    ∃ (report : Report) (numbers : List Nat) (rows : List Datum),
      Report.ofSession (evaluation statements connector session host).session
        (evaluation statements connector session host).store completed = .ok report ∧
      (run files host clock argv).exit =
        ((write (.str args.format.name) report.toDatum).map fun _ =>
          if completed then 0 else 1).mapError .fault ∧
      (run files host clock argv).stdout =
        (write (.str args.format.name) report.toDatum).toOption.getD "" ∧
      report.toDatum = .map [(.str "seed", .int report.seed),
        (.str "status", .str report.status.name), (.str "statements", .list rows)] ∧
      HeldBy (fileText text) numbers ∧ rows.length = numbers.length ∧
      (numbers ≠ [] → ∃ program bag,
        (evaluation statements connector session host).asked = some program ∧
        answered (connector.call program host).output = .ok bag ∧ completed = !bag.isTimedOut ∧
        ∀ j n, numbers[j]? = some n → ∃ line, HoldsStatement (fileText text) n line ∧
          IsTrimmed line (sourceOf (strip line)).toList ∧
          rows[j]? = some (writtenRow (baseName args.statements ++ ":" ++ toString n)
            (sourceOf (strip line)) j bag)) := by
  obtain ⟨hm, hfresh⟩ := members_prepare hprepare
  obtain ⟨hlength, -⟩ := StatementFile.read_eq_ok hread
  have hcount : statements.length = ((sources (fileText text)).map Prod.snd).length := by
    rw [List.length_map, hlength]
  by_cases hne : statements = []
  · subst hne
    obtain ⟨report, hreport, hrows⟩ := report_nil hm
    obtain ⟨hexit, hstdout⟩ := run_reported hargs htext hread hprepare hret hreport
    refine ⟨report, _, _, hreport, hexit, hstdout, rfl, heldBy_sources _, ?_, fun h => ?_⟩
    · rw [List.length_map, hrows]
      exact hcount
    · exact absurd (List.length_eq_zero_iff.1 hcount.symm) h
  · obtain ⟨⟨program, bag, hasked, hbag, hc⟩, hvalid⟩ := asked_evaluation hne hm hfresh hret
    have hmade := fun s hs => parseErrors_read hread hs (hvalid s hs)
    obtain ⟨report, hreport, hall⟩ :=
      report_evaluation hmade hm hasked hret hbag (hone program bag hasked hbag)
    obtain ⟨hexit, hstdout⟩ := run_reported hargs htext hread hprepare hret hreport
    refine ⟨report, _, _, hreport, hexit, hstdout, rfl, heldBy_sources _, ?_, fun _ =>
      ⟨program, bag, hasked, hbag, hc, fun _ _ => written_of_answered hread hall⟩⟩
    rw [List.length_map, ← hall.length_eq, List.length_range, hcount]

/-- A file with two statements among lines that hold none. -/
def mixedLines : String := "/* note */\n\n  x; \n\t\n-y $"

def mixedFiles : Files := [("batch.mac", mixedLines)]

/-- An answer with a value that can be read, one that cannot, an error and a note. -/
def mixedOutput : String :=
  "STACK-OUTPUT-BEGINS>\x7b\"values\":\x7b\"__e_smt_0\":\"2\",\"__e_smt_1\":\"(\"\x7d," ++
    "\"presentation\":\x7b\"__e_smt_0\":\"t\"\x7d,\"answernotes\":\x7b\"__e_smt_1\":[\"n\"]\x7d," ++
    "\"errors\":[[[\"m\"],\"c\",1]]\x7d<STACK-OUTPUT-ENDS"

def mixedHost : Host where
  processEnd := .exited 0 (some mixedOutput) none
  response _ := .timedOut

def mixedBag : Bag :=
  [(.str "values", .map [(.str "__e_smt_0", .str "2"), (.str "__e_smt_1", .str "(")]),
    (.str "presentation", .map [(.str "__e_smt_0", .str "t")]),
    (.str "answernotes", .map [(.str "__e_smt_1", .list [.str "n"])]),
    (.str "errors", .list [.list [.list [.str "m"], .str "c", .int 1]]),
    (.str "timeout", .bool false)]

def mixedStatements : List Statement :=
  [{ kind := .display, source := .str "x", context := "batch.mac:3", expr := some (.identifier "x"),
     parseErrors := [] },
   { kind := .display, source := .str "-y", context := "batch.mac:5",
     expr := some (.prefixed "-" (.identifier "y")), parseErrors := [] }]

theorem read_mixedLines : StatementFile.read "batch.mac" mixedLines = .ok mixedStatements := by
  cbv

/-- Without settings, engines are run as processes. -/
theorem ofSettings_null : Connector.ofSettings .null = .ok (.process {}) := by
  have hknown : Connector.refuseUnknown .process [] = .ok () := by
    simp [Connector.refuseUnknown, Connector.unknownSettings]
  have herase : Datum.erase (.str "platform") [] = [] := rfl
  have hlookup : (Datum.lookup (.str "platform") []).getD (.str Connector.Platform.process.name) =
      .str "local" := rfl
  rw [Connector.ofSettings, Connector.ofEntries, hlookup, Connector.Platform.ofSetting, herase]
  show (Connector.refuseUnknown .process [] >>= fun _ => _) = _
  rw [hknown]
  rfl

/-- Without options, settings and a seed, the statements are numbered and the clock gives the seed. -/
theorem prepare_default (files : Files) (clock : Int) (name : String) (statements : List Statement) :
    prepare files clock { statements := name } statements = .ok
      (.process {}, { members := List.range statements.length, options := {}, seed := clock }) := by
  have hmake : Session.make ((List.range statements.length).map .inl) (.inl {}) .null clock =
      .ok { members := List.range statements.length, options := {}, seed := clock } := by
    rw [Session.make, World.enlist_members]
    rfl
  rw [prepare, readConnector, ofSettings_null]
  exact bind_eq_ok.2 ⟨_, rfl, bind_eq_ok.2 ⟨_, rfl, bind_eq_ok.2
    ⟨_, congrArg (Except.mapError Failure.fault) hmake, rfl⟩⟩⟩

def mixedSession : Session := { members := [0, 1], options := {}, seed := 7 }

theorem prepare_mixed : prepare mixedFiles 7 { statements := "batch.mac" } mixedStatements =
    .ok (.process {}, mixedSession) :=
  prepare_default _ _ _ _

theorem result_mixed :
    (evaluation mixedStatements (.process {}) mixedSession mixedHost).result = .ok true := by
  decide +kernel

theorem answered_mixed (program : String) :
    answered ((Connector.process {}).call program mixedHost).output = .ok mixedBag := by
  show answered (.ok (some mixedOutput)) = _
  cbv

theorem heldBy_mixedLines : HeldBy (fileText mixedLines) [3, 5] := by
  have hnumbers : (sources (fileText mixedLines)).map Prod.snd = [3, 5] := by decide
  rw [← hnumbers]
  exact heldBy_sources _

theorem writtenRow_x : writtenRow "batch.mac:3" "x" 0 mixedBag =
    .map [(.str "context", .str "batch.mac:3"), (.str "source", .str "x"), (.str "value", .str "2"),
      (.str "presentation", .str "t"), (.str "errors", .list []),
      (.str "answernotes", .list [])] := by
  cbv

open Addressed in
theorem writtenRow_y : writtenRow "batch.mac:5" "-y" 1 mixedBag =
    .map [(.str "context", .str "batch.mac:5"), (.str "source", .str "-y"), (.str "value", .null),
      (.str "presentation", .null),
      (.str "errors", .list [.str "m", .str "Could not parse CAS value: ("]),
      (.str "answernotes", .list [.str "n"])] := by
  have hvalue : (value? 1 mixedBag).bind readable? = none := by
    rw [← Option.isNone_iff_eq_none]
    decide +kernel
  have hunread : unreadables 1 mixedBag = ["("] := by decide +kernel
  rw [writtenRow, Row.answered, if_neg (by decide), hvalue, hunread]
  rfl

theorem run_rows_mixedLines : ∃ report : Report,
    Report.ofSession (evaluation mixedStatements (.process {}) mixedSession mixedHost).session
      (evaluation mixedStatements (.process {}) mixedSession mixedHost).store true = .ok report ∧
    (run mixedFiles mixedHost 7 ["batch.mac"]).stdout =
      (write (.str "text") report.toDatum).toOption.getD "" ∧
    report.toDatum = .map [(.str "seed", .int report.seed),
      (.str "status", .str report.status.name), (.str "statements", .list [
        .map [(.str "context", .str "batch.mac:3"), (.str "source", .str "x"),
          (.str "value", .str "2"), (.str "presentation", .str "t"), (.str "errors", .list []),
          (.str "answernotes", .list [])],
        .map [(.str "context", .str "batch.mac:5"), (.str "source", .str "-y"),
          (.str "value", .null), (.str "presentation", .null),
          (.str "errors", .list [.str "m", .str "Could not parse CAS value: ("]),
          (.str "answernotes", .list [.str "n"])]])] := by
  have hone : ∀ program bag,
      (evaluation mixedStatements (.process {}) mixedSession mixedHost).asked = some program →
      answered ((Connector.process {}).call program mixedHost).output = .ok bag →
      ∀ i, (Addressed.records i bag).length ≤ 1 := by
    intro program bag _ hbag i
    obtain rfl := Except.ok.inj ((answered_mixed program).symm.trans hbag)
    have hcount : (Addressed.errorRecords mixedBag).length = 1 := rfl
    exact (List.length_filter_le _ _).trans hcount.le
  obtain ⟨report, numbers, rows, hreport, -, hstdout, hwritten, hheld, hlength, hrows⟩ :=
    @run_rows mixedFiles mixedHost 7 ["batch.mac"] { statements := "batch.mac" } mixedLines
      mixedStatements (.process {}) mixedSession true rfl rfl read_mixedLines prepare_mixed
      result_mixed hone
  obtain rfl := hheld.unique heldBy_mixedLines
  obtain ⟨program, bag, -, hbag, -, hrow⟩ := hrows (List.cons_ne_nil _ _)
  obtain rfl := Except.ok.inj ((answered_mixed program).symm.trans hbag)
  obtain ⟨line₀, hline₀, -, hrow₀⟩ := hrow 0 3 rfl
  obtain ⟨line₁, hline₁, -, hrow₁⟩ := hrow 1 5 rfl
  obtain rfl : "  x; ".toList = line₀ := Option.some.inj ((by decide : _ = _).trans hline₀.1)
  obtain rfl : "-y $".toList = line₁ := Option.some.inj ((by decide : _ = _).trans hline₁.1)
  obtain ⟨row₀, row₁, rfl⟩ := List.length_eq_two.1 hlength
  cases hrow₀
  cases hrow₁
  refine ⟨report, hreport, hstdout, hwritten.trans ?_⟩
  rw [← writtenRow_x, ← writtenRow_y]
  rfl

end CommandLine

end AlgebraBatch
