import AlgebraBatch.Proofs.Report.Rows

/-!
# The status of a report

The status of a batch that was answered in time depends on the engine's error records alone. The
rows of its report also have errors for the values that cannot be read. So the status can be ok
although a row has errors: the theorem `run_isCandid_iff` says when it is not.
-/

namespace AlgebraBatch

open AlgebraBatch.Batch AlgebraBatch.Engine Addressed

/-- What can be iterated over holds if there is something in it. -/
theorem Datum.holds_elements {d : Datum} {items : List Datum} (h : d.elements? = some items) :
    d.holds = false ↔ items = [] := by
  cases d with
  | list items => cases h; simp [holds]
  | map entries => cases h; simp [holds]
  | str s => cases h; simp [holds]
  | _ => cases h

/-- Where an answer can be read, the errors of the batch are its error records. -/
theorem Batch.elements_errors {bag : Bag} {routing : Routing}
    (h : (receive bag).routing = .ok routing) :
    (receive bag).errors.elements? = some (errorRecords bag) := by
  unfold receive at h ⊢
  cases hentries : memberEntries "values" bag with
  | error fault => rw [hentries] at h; cases h
  | ok entries =>
    cases hvalues : readValues entries with
    | mk values fault =>
      simp only [hentries, hvalues] at h ⊢
      cases fault with
      | some fault => cases h
      | none =>
        cases hpresentation : memberEntries "presentation" bag with
        | error fault => simp only [hpresentation] at h; cases h
        | ok presentations =>
          simp only [hpresentation] at h ⊢
          obtain ⟨records, hrecords, -⟩ := bind_eq_ok.1 h
          unfold readErrors at hrecords
          unfold errorRecords
          split at hrecords
          · next items hitems => rw [hitems, Option.getD_some]
          · cases hrecords

/-- After an evaluation that returns, the errors of the session hold if the answer has error
records. -/
theorem Batch.Session.holds_errors {s : Session} {store : Store}
    {call : String → Except Fault (Option String)} {program : String} {bag : Bag}
    (hasked : (s.instantiate store call).asked = some program)
    (hret : (s.instantiate store call).result = .ok true)
    (hbag : answered (call program) = .ok bag) :
    (s.instantiate store call).session.errors.holds = false ↔ errorRecords bag = [] := by
  obtain ⟨bag', calls, hbag', htime, ho, -⟩ := Session.instantiate_answered hasked hret
  obtain rfl : bag' = bag := Except.ok.inj (hbag'.symm.trans hbag)
  have htime : bag'.isTimedOut = false := by simpa using htime
  obtain ⟨routing, hr, -⟩ := routing_of_outgoing htime ho
  rcases s.instantiate_cases store call with ⟨-, he⟩ | ⟨_, -, -, -, he⟩ | q
  · rw [he] at hasked
    cases hasked
  · rw [he] at hasked
    cases hasked
  · obtain rfl := Option.some.inj (q.asked.symm.trans hasked)
    rw [Session.errors_answered q.members q.fresh q.valid q.seed htime hbag]
    exact Datum.holds_elements (elements_errors hr)

namespace Report

/-- A report that is ok has no errors in its rows. -/
def IsCandid (report : Report) : Prop :=
  report.status = .ok → ∀ row ∈ report.rows, row.errors = []

theorem status_of_true (session : Session) :
    Status.of session true = .ok ↔ session.errors.holds = false := by
  rw [Status.of]
  cases session.errors.holds <;> simp

/-- The row of a statement that was made without errors has those of its outcome. -/
theorem ofStatement_errors {t : Statement} {i : Nat} {bag : Bag}
    (ho : t.outcome = Outcome.of .display i bag) (hp : t.parseErrors = []) :
    ∃ row, Row.ofStatement t = .ok row ∧ row.errors = (Outcome.of .display i bag).errors := by
  have hvalue : ∃ o : Option Expr, t.value = o.map .ofExpr := by
    have hv : t.value = (Outcome.of .display i bag).value := by rw [← ho]; rfl
    unfold Outcome.of at hv
    split at hv
    · exact ⟨none, hv⟩
    · exact ⟨_, hv⟩
  obtain ⟨o, hvalue⟩ := hvalue
  refine ⟨_, by rw [Row.ofStatement, valueText_ofExpr hvalue]; rfl, ?_⟩
  rw [← ho]
  show t.allErrors = t.errors
  rw [Statement.allErrors, hp]
  rfl

/-- Without error records, what is wrong with a statement is what of its value cannot be read. -/
theorem errors_eq_nil {kind : StatementKind} {i : Nat} {bag : Bag} (ht : bag.isTimedOut = false)
    (h : errorRecords bag = []) :
    (Outcome.of kind i bag).errors = [] ↔ unreadables i bag = [] := by
  rw [Outcome.of, if_neg (ne_true_of_eq_false ht), records, h]
  exact List.map_eq_nil_iff

end Report

namespace CommandLine

open Report

variable {files : Files} {host : Host} {clock : Int} {argv : List String} {args : Arguments}
  {text : String} {statements : List Statement} {connector : Connector} {session : Session}

/-- The report of an evaluation has a row for each statement with the errors of its outcome, and it
is ok if the answer has no error records. -/
theorem report_errors {program : String} {bag : Bag}
    (hread : ∀ s ∈ statements, s.kind = .display ∧ s.parseErrors = [])
    (hm : session.members = List.range statements.length)
    (hasked : (evaluation statements connector session host).asked = some program)
    (hret : (evaluation statements connector session host).result = .ok true)
    (hbag : answered (connector.call program host).output = .ok bag) :
    ∃ report, Report.ofSession (evaluation statements connector session host).session
        (evaluation statements connector session host).store true = .ok report ∧
      (report.status = .ok ↔ errorRecords bag = []) ∧
      List.Forall₂ (fun j row => row.errors = (Outcome.of .display j bag).errors)
        (List.range statements.length) report.rows := by
  have hmembers := (@members_evaluation host statements connector session).trans hm
  obtain ⟨rows, hreport, hall⟩ := @ofSession_eq
    (evaluation statements connector session host).session
    (evaluation statements connector session host).store true
    (fun j row => row.errors = (Outcome.of .display j bag).errors) (by
      rw [hmembers]
      intro j hj
      have hs := List.getElem?_eq_getElem (List.mem_range.1 hj)
      obtain ⟨hk, hp⟩ := hread _ (List.mem_of_getElem? hs)
      obtain ⟨t, ht, ho, horigin⟩ := statement_evaluation hm hasked hret hbag hs hk
      obtain ⟨row, hrow, herrors⟩ :=
        ofStatement_errors ho ((parseErrors_of_origin horigin).trans hp)
      exact ⟨t, row, ht, hrow, herrors⟩)
  rw [hmembers] at hall
  exact ⟨_, hreport, (status_of_true _).trans (Session.holds_errors hasked hret hbag), hall⟩

/-- A run whose evaluation is answered in time reports candidly exactly if the engine recorded an
error or every value that is meant for one of the statements can be read. -/
theorem run_isCandid_iff (hargs : Arguments.parse argv = .ok args)
    (htext : files.read (tidyPath args.statements) = .ok text)
    (hread : StatementFile.read (baseName args.statements) text = .ok statements)
    (hprepare : prepare files clock args statements = .ok (connector, session))
    (hret : (evaluation statements connector session host).result = .ok true) :
    ∃ report : Report,
      Report.ofSession (evaluation statements connector session host).session
        (evaluation statements connector session host).store true = .ok report ∧
      (run files host clock argv).exit =
        ((write (.str args.format.name) report.toDatum).map fun _ => 0).mapError .fault ∧
      (run files host clock argv).stdout =
        (write (.str args.format.name) report.toDatum).toOption.getD "" ∧
      (report.IsCandid ↔ ∀ program bag,
        (evaluation statements connector session host).asked = some program →
        answered (connector.call program host).output = .ok bag → errorRecords bag = [] →
        ∀ j < statements.length, unreadables j bag = []) := by
  obtain ⟨hm, hfresh⟩ := members_prepare hprepare
  by_cases hne : statements = []
  · subst hne
    obtain ⟨report, hreport, hrows⟩ := report_nil hm
    obtain ⟨hexit, hstdout⟩ := run_reported hargs htext hread hprepare hret hreport
    refine ⟨report, hreport, hexit, hstdout, iff_of_true (fun _ => ?_) fun _ _ _ _ _ => nofun⟩
    rw [hrows]
    exact nofun
  · obtain ⟨⟨program, bag, hasked, hbag, htime⟩, hvalid⟩ := asked_evaluation hne hm hfresh hret
    have htime : bag.isTimedOut = false := by simpa using htime
    have hmade := fun s hs => parseErrors_read hread hs (hvalid s hs)
    obtain ⟨report, hreport, hstatus, hall⟩ := report_errors hmade hm hasked hret hbag
    obtain ⟨hexit, hstdout⟩ := run_reported hargs htext hread hprepare hret hreport
    refine ⟨report, hreport, hexit, hstdout, ?_⟩
    rw [IsCandid, hstatus]
    constructor
    · intro h program' bag' hasked' hbag' hnone j hj
      obtain rfl := Option.some.inj (hasked.symm.trans hasked')
      obtain rfl := Except.ok.inj (hbag.symm.trans hbag')
      obtain ⟨row, hrow, he⟩ := getElem?_of_forall₂ hall (List.getElem?_range hj)
      exact (errors_eq_nil htime hnone).1 (he.symm.trans (h hnone row (List.mem_of_getElem? hrow)))
    · intro h hnone row hrow
      obtain ⟨j, hj⟩ := List.mem_iff_getElem?.1 hrow
      obtain ⟨i, hi, he⟩ := getElem?_of_forall₂ hall.flip hj
      obtain ⟨hlt, rfl⟩ := List.getElem?_eq_some_iff.1 hi
      rw [List.length_range] at hlt
      rw [List.getElem_range] at he
      exact he.trans ((errors_eq_nil htime hnone).2 (h _ _ hasked hbag hnone j hlt))

theorem run_isCandid_mixedLines : ∃ report : Report,
    Report.ofSession (evaluation mixedStatements (.process {}) mixedSession mixedHost).session
      (evaluation mixedStatements (.process {}) mixedSession mixedHost).store true = .ok report ∧
    (run mixedFiles mixedHost 7 ["batch.mac"]).stdout =
      (write (.str "text") report.toDatum).toOption.getD "" ∧ report.IsCandid := by
  obtain ⟨report, hreport, -, hstdout, hiff⟩ := @run_isCandid_iff mixedFiles mixedHost 7
    ["batch.mac"] { statements := "batch.mac" } mixedLines mixedStatements (.process {}) mixedSession
    rfl rfl read_mixedLines prepare_mixed result_mixed
  refine ⟨report, hreport, hstdout, hiff.2 fun program bag _ hbag hnone => ?_⟩
  obtain rfl := Except.ok.inj ((answered_mixed program).symm.trans hbag)
  cases hnone

/-- A file with one statement. -/
def loneFiles : Files := [("a.mac", "x")]

/-- A value that cannot be read. -/
def unreadOutput : String :=
  "STACK-OUTPUT-BEGINS>\x7b\"values\":\x7b\"__e_smt_0\":\"(\"\x7d\x7d<STACK-OUTPUT-ENDS"

def unreadBag : Bag :=
  [(.str "values", .map [(.str "__e_smt_0", .str "(")]), (.str "timeout", .bool false)]

def unreadHost : Host where
  processEnd := .exited 0 (some unreadOutput) none
  response _ := .timedOut

def loneStatements : List Statement :=
  [{ kind := .display, source := .str "x", context := "a.mac:1", expr := some (.identifier "x"),
     parseErrors := [] }]

def loneSession : Session := { members := [0], options := {}, seed := 7 }

theorem answered_unread (program : String) :
    answered ((Connector.process {}).call program unreadHost).output = .ok unreadBag := by
  show answered (.ok (some unreadOutput)) = .ok unreadBag
  cbv

/-- The report of the run is written. -/
theorem isOk_unread : ((Report.ofSession
    (evaluation loneStatements (.process {}) loneSession unreadHost).session
    (evaluation loneStatements (.process {}) loneSession unreadHost).store true).bind fun report =>
      write (.str "text") report.toDatum).isOk = true := by
  decide +kernel

/-- A report is ok although the value of its only statement cannot be read. -/
theorem not_isCandid_unread : ∃ report : Report,
    Report.ofSession (evaluation loneStatements (.process {}) loneSession unreadHost).session
      (evaluation loneStatements (.process {}) loneSession unreadHost).store true = .ok report ∧
    (run loneFiles unreadHost 7 ["a.mac"]).exit = .ok 0 ∧
    (run loneFiles unreadHost 7 ["a.mac"]).stdout =
      (write (.str "text") report.toDatum).toOption.getD "" ∧
    ¬ report.IsCandid := by
  have hread : StatementFile.read "a.mac" "x" = .ok loneStatements := by cbv
  have hprepare : prepare loneFiles 7 { statements := "a.mac" } loneStatements =
      .ok (.process {}, loneSession) := prepare_default _ _ _ _
  have hret : (evaluation loneStatements (.process {}) loneSession unreadHost).result =
      .ok true := by
    decide +kernel
  have hasked := @Session.asked_instantiate loneSession (.ofList (loneStatements.map .statement))
    (List.cons_ne_nil _ _) rfl rfl (by decide +kernel)
    fun program => ((Connector.process {}).call program unreadHost).output
  have hunread : (unreadables 0 unreadBag).isEmpty = false := by decide +kernel
  obtain ⟨report, hreport, hstatus, hall⟩ := @report_errors unreadHost loneStatements (.process {})
    loneSession _ unreadBag (List.forall_mem_singleton.2 ⟨rfl, rfl⟩) rfl hasked hret
    (answered_unread _)
  obtain ⟨hexit, hstdout⟩ := @run_reported loneFiles unreadHost 7 ["a.mac"]
    { statements := "a.mac" } "x" loneStatements (.process {}) loneSession true report rfl rfl hread
    hprepare hret hreport
  have hwritten := isOk_unread
  rw [hreport] at hwritten
  have hzero : (run loneFiles unreadHost 7 ["a.mac"]).exit = .ok 0 := by
    rw [hexit]
    cases hout : write (.str "text") report.toDatum with
    | error fault =>
      simp only [Except.bind, hout] at hwritten
      cases hwritten
    | ok out =>
      show ((write (.str "text") report.toDatum).map _).mapError _ = _
      rw [hout]
      rfl
  refine ⟨report, hreport, hzero, hstdout, fun h => ?_⟩
  obtain ⟨row, hrow, herrors⟩ := getElem?_of_forall₂ hall (List.getElem?_range Nat.one_pos)
  have hnone := herrors.symm.trans (h (hstatus.2 rfl) row (List.mem_of_getElem? hrow))
  rw [errors_eq_nil rfl rfl] at hnone
  cases hunread.symm.trans (List.isEmpty_iff.2 hnone)

end CommandLine

end AlgebraBatch
