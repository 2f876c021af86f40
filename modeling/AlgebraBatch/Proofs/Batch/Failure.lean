import AlgebraBatch.Proofs.Batch.Outcome
import Mathlib

/-!
# Failures that a statement shows

A statement is correctly evaluated if it has a value and no errors. Its value comes from any of the
positions at which it stands, and its errors come from the last of them alone. A record of an error
adds its messages, and it may have none. So a recorded failure does not always show: the theorem
`showsFailures_iff` says when it does.
-/

namespace AlgebraBatch.Batch

open AlgebraBatch.Engine Addressed

/-! ## Statements at several positions -/

/-- The last of the positions at which a member stands. -/
def IsLast (members : List Nat) (m l : Nat) : Prop :=
  members[l]? = some m ∧ ∀ j, members[j]? = some m → j ≤ l

theorem exists_isLast {members : List Nat} {m i : Nat} (h : members[i]? = some m) :
    ∃ l, IsLast members m l := by
  have hlt {j : Nat} (hj : members[j]? = some m) : j ≤ members.length :=
    Nat.le_of_lt (List.getElem?_eq_some_iff.1 hj).1
  exact ⟨Nat.findGreatest (fun j => members[j]? = some m) members.length,
    @Nat.findGreatest_spec _ (fun j => members[j]? = some m) _ _ (hlt h) h,
    fun j hj => Nat.le_findGreatest (hlt hj) hj⟩

section

variable {members : List Nat} {m : Nat} {calls : List (Nat × Delivery)}

theorem received_append (calls later : List (Nat × Delivery)) :
    received members m (calls ++ later) = received members m calls ++ received members m later := by
  rw [received, List.filter_append, List.map_append]
  rfl

theorem mem_received {d : Delivery} :
    d ∈ received members m calls ↔ ∃ j, members[j]? = some m ∧ d ∈ callsAt j calls := by
  simp only [mem_callsAt]
  rw [received, List.mem_map]
  constructor
  · rintro ⟨⟨j, d⟩, hc, rfl⟩
    obtain ⟨hc, hj⟩ := List.mem_filter.1 hc
    exact ⟨j, eq_of_beq hj, hc⟩
  · rintro ⟨j, hj, hc⟩
    exact ⟨(j, d), List.mem_filter.2 ⟨hc, beq_iff_eq.2 hj⟩, rfl⟩

/-- The last status that a member is given is that of the last of its positions. -/
theorem received_statuses (routing : Routing) {l count : Nat} (h : IsLast members m l)
    (hl : l < count) : ∃ before, received members m (routing.statuses count) =
      before ++ [.status (routing.errorsAt l) (routing.notesAt l)] := by
  obtain ⟨k, rfl⟩ := Nat.exists_eq_add_of_le (Nat.succ_le_of_lt hl)
  refine ⟨received members m (routing.statuses l), ?_⟩
  have hsplit : routing.statuses (l + 1 + k) = routing.statuses l ++
      (l, .status (routing.errorsAt l) (routing.notesAt l)) ::
        (List.range k).map fun j => (l + 1 + j,
          .status (routing.errorsAt ↑(l + 1 + j)) (routing.notesAt ↑(l + 1 + j))) := by
    rw [Routing.statuses, List.range_add, List.range_succ, List.append_assoc, List.map_append,
      List.singleton_append, List.map_cons, List.map_map]
    rfl
  rw [hsplit, received_append]
  congr 1
  rw [received, List.filter_cons, if_pos (beq_iff_eq.2 h.1), List.filter_eq_nil_iff.2]
  · rfl
  · intro c hc hm
    obtain ⟨j, -, rfl⟩ := List.mem_map.1 hc
    have := h.2 _ (eq_of_beq hm)
    omega

/-- Of what a member is given, the status of the last of its positions is the last status, and only
results follow it. -/
theorem received_deliveries (routing : Routing) {records : List Record} {l : Nat}
    (h : IsLast members m l) (hl : l < records.length) : ∃ before later,
      received members m (routing.deliveries records) =
        before ++ [.status (routing.errorsAt l) (routing.notesAt l)] ++ later ∧
      (∀ d ∈ later, d.isStatus = false) ∧
      ∀ e, .value e ∈ later ↔ .value e ∈ received members m (routing.deliveries records) := by
  obtain ⟨before, hbefore⟩ := received_statuses routing h hl
  refine ⟨before, received members m (records.flatMap routing.resultsOf), ?_, ?_, fun e => ?_⟩
  · rw [Routing.deliveries, received_append, hbefore]
  · intro d hd
    obtain ⟨j, -, hd⟩ := mem_received.1 hd
    obtain ⟨r, -, hr⟩ := List.mem_flatMap.1 (mem_callsAt.1 hd)
    exact not_isStatus_of_mem_resultsOf hr
  · rw [Routing.deliveries, received_append, List.mem_append]
    refine (or_iff_right fun he => ?_).symm
    obtain ⟨j, -, he⟩ := mem_received.1 he
    obtain ⟨i, -, hi⟩ := List.mem_map.1 (mem_callsAt.1 he)
    cases hi

end

/-! ## Statements after calls -/

/-- Values and typeset forms leave a statement its errors. -/
theorem after_results (later : List Delivery) : ∀ t : Statement,
    (∀ d ∈ later, d.isStatus = false) →
    ∃ t', Request.after (.statement t) later = .statement t' ∧ t'.errors = t.errors ∧
      t'.evaluated = t.evaluated ∧
      (t'.value.isSome = true ↔ t.value.isSome = true ∨ ∃ e, Delivery.value e ∈ later) := by
  induction later with
  | nil => exact fun t _ => ⟨t, rfl, rfl, rfl, by simp⟩
  | cons d later ih =>
    intro t h
    have hlater := fun d hd => h d (List.mem_cons_of_mem _ hd)
    cases d with
    | status errors notes => cases h _ List.mem_cons_self
    | value e =>
      obtain ⟨t', ht', herrors, hevaluated, hvalue⟩ := ih (t.setValue (.ofExpr e)) hlater
      rw [setValue_ofExpr] at herrors hevaluated hvalue
      refine ⟨t', ht', herrors, hevaluated, hvalue.trans ?_⟩
      exact iff_of_true (.inl rfl) (.inr ⟨e, List.mem_cons_self⟩)
    | presentation text =>
      obtain ⟨t', ht', herrors, hevaluated, hvalue⟩ := ih (t.setPresentation (.str text)) hlater
      refine ⟨t', ht', herrors, hevaluated, hvalue.trans ?_⟩
      simp [Statement.setPresentation]

theorem after_statement (calls : List Delivery) : ∀ t : Statement,
    ∃ t', Request.after (.statement t) calls = .statement t' := by
  induction calls with
  | nil => exact fun t => ⟨t, rfl⟩
  | cons d calls ih =>
    intro t
    cases d with
    | status errors notes => exact ih (t.setStatus (.list errors) notes).1
    | value e => exact ih (t.setValue (.ofExpr e))
    | presentation text => exact ih (t.setPresentation (.str text))

/-- The last status and what follows it decide if a statement is correctly evaluated. -/
theorem correctlyEvaluated_after (t : Statement) (before : List Delivery) {errors : List Datum}
    {notes : Datum} {later : List Delivery}
    (hn : (Delivery.status errors notes).fault? = none) (hl : ∀ d ∈ later, d.isStatus = false) :
    ∃ t', Request.after (.statement t) (before ++ [.status errors notes] ++ later) =
        .statement t' ∧
      (t'.correctlyEvaluated = true ↔ errors = [] ∧ ∃ e, Delivery.value e ∈ later) := by
  obtain ⟨listed, hnotes⟩ := fault?_status.1 hn
  obtain ⟨t₁, h₁⟩ := after_statement before t
  have hstatus : ((Delivery.status errors notes).handTo (.statement t₁)).1 =
      .statement { t₁ with errors, notes := listed, evaluated := true, value := none,
                           presentation := .null } := by
    rw [Delivery.handTo, Request.setStatus, setStatus_list, hnotes]
  obtain ⟨t', ht', herrors, hevaluated, hvalue⟩ := after_results later
    { t₁ with errors, notes := listed, evaluated := true, value := none, presentation := .null } hl
  refine ⟨t', ?_, ?_⟩
  · rw [← ht', ← hstatus, ← h₁, Request.after, Request.after, Request.after, List.foldl_append,
      List.foldl_append, List.foldl_cons, List.foldl_nil]
  · rw [Statement.correctlyEvaluated, herrors, hevaluated, Bool.true_and, Bool.and_eq_true, hvalue,
      List.isEmpty_iff]
    simp [and_comm]

/-! ## Evaluations -/

section

variable {bag : Bag} {routing : Routing} (h : Reads bag routing)
include h

/-- A position has no errors if no record there has messages and every value there can be read. -/
theorem Reads.errorsAt_eq_nil {i : Nat} : routing.errorsAt i = [] ↔
    (∀ record ∈ records i bag, messages record = []) ∧ unreadables i bag = [] := by
  rw [h.errorsAt, List.append_eq_nil_iff, List.flatMap_eq_nil_iff, List.map_eq_nil_iff]
  simp only [List.mem_reverse]

end

theorem value_mem_callsFor {q : Request} {i : Nat} {bag : Bag} {e : Expr}
    (ht : ¬ bag.isTimedOut = true) : Delivery.value e ∈ callsFor q i bag ↔
      q.collectsValue = true ∧ (value? i bag).bind readable? = some e := by
  rw [callsFor, if_neg ht]
  generalize (value? i bag).bind readable? = value
  cases q.collectsValue <;> simp

section

variable {s : Session} {store : Store} {call : String → Except Fault (Option String)}
  {program : String}

/-- After an evaluation a statement is correctly evaluated if nothing is wrong at the last of its
positions and it has a value at one of them. -/
theorem correctlyEvaluated_instantiate (hasked : (s.instantiate store call).asked = some program)
    (hret : (s.instantiate store call).result = .ok true) :
    ∃ bag, answered (call program) = .ok bag ∧
      ∀ m l t, IsLast s.members m l → store.request m = .statement t →
        ∃ t', (s.instantiate store call).store.request m = .statement t' ∧
          (t'.correctlyEvaluated = true ↔
            ((∀ record ∈ records l bag, messages record = []) ∧ unreadables l bag = []) ∧
            ∃ e j, s.members[j]? = some m ∧ (Request.statement t).collectsValue = true ∧
              (value? j bag).bind readable? = some e) := by
  obtain ⟨bag, calls, ha, hb, ho, hd, hstore⟩ := Session.instantiate_answered hasked hret
  have htime : ¬ bag.isTimedOut = true := by simpa using hb
  refine ⟨bag, ha, fun m l t hlast ht => ?_⟩
  have hlength : (s.requests store).length = s.members.length := List.length_map _
  obtain ⟨hl, -⟩ := List.getElem?_eq_some_iff.1 hlast.1
  have hat {j : Nat} (hj : s.members[j]? = some m) :
      callsAt j calls = callsFor (.statement t) j bag := by
    have hq : (s.requests store)[j]? = some (.statement t) := by
      rw [Session.requests, List.getElem?_map, hj, Option.map_some, ht]
    rw [← hlength] at ho
    exact callsAt_outgoing hq ho
  obtain ⟨routing, hr, rfl⟩ := routing_of_outgoing (by simpa using hb) ho
  have hcount : (s.program store s.options s.seed).records.length = s.members.length :=
    (length_planFrom _ _).trans hlength
  obtain ⟨before, later, hreceived, hlater, hvalue⟩ :=
    received_deliveries routing hlast (hcount.symm ▸ hl)
  have hstatus : (l, Delivery.status (routing.errorsAt l) (routing.notesAt l)) ∈
      routing.deliveries (s.program store s.options s.seed).records :=
    List.mem_append_left _ (List.mem_map_of_mem (List.mem_range.2 (hcount.symm ▸ hl)))
  obtain ⟨t', ht', hcorrect⟩ :=
    correctlyEvaluated_after t before (deliver_eq_none.1 hd _ hstatus hl) hlater
  refine ⟨t', ?_, hcorrect.trans
    (and_congr (reads_of_receive hr).errorsAt_eq_nil (exists_congr fun e => ?_))⟩
  · rw [hstore, request_deliver hd, ht, hreceived, ht']
  · rw [hvalue, mem_received]
    refine exists_congr fun j => and_congr_right fun hj => ?_
    rw [hat hj, value_mem_callsFor htime]

/-- Every statement with a value that an error record names is not correctly evaluated. -/
def ShowsFailures (members : List Nat) (store : Store) (bag : Bag) : Prop :=
  ∀ i m t, members[i]? = some m → store.request m = .statement t → t.kind ≠ .plain →
    records i bag ≠ [] → t.correctlyEvaluated = false

/-- After an evaluation that returns, the recorded failures show exactly if for every statement with
a value that a record names, at the last of its positions a record has a message or a value cannot be
read, or the answer has no value for it at any of its positions. -/
theorem showsFailures_iff {bag : Bag} (hasked : (s.instantiate store call).asked = some program)
    (hret : (s.instantiate store call).result = .ok true)
    (hbag : answered (call program) = .ok bag) :
    ShowsFailures s.members (s.instantiate store call).store bag ↔
      ∀ i m t l, s.members[i]? = some m → store.request m = .statement t → t.kind ≠ .plain →
        records i bag ≠ [] → IsLast s.members m l →
        (∃ record ∈ records l bag, messages record ≠ []) ∨ unreadables l bag ≠ [] ∨
          ∀ j, s.members[j]? = some m → (value? j bag).bind readable? = none := by
  obtain ⟨bag', hbag', hcorrect⟩ := correctlyEvaluated_instantiate hasked hret
  obtain rfl : bag' = bag := Except.ok.inj (hbag'.symm.trans hbag)
  have hcollects {t : Statement} (hk : t.kind ≠ .plain) :
      (Request.statement t).collectsValue = true := bne_iff_ne.2 hk
  have hkind {m : Nat} {t t' : Statement} (ht : store.request m = .statement t)
      (ht' : (s.instantiate store call).store.request m = .statement t') : t'.kind = t.kind := by
    have := s.instantiate_kind? store call m
    rw [ht, ht'] at this
    exact Option.some.inj this
  constructor
  · intro h i m t l hi ht hk hrecords hlast
    obtain ⟨t', ht', hiff⟩ := hcorrect m l t hlast ht
    have hwrong := h i m t' hi ht' (hkind ht ht' ▸ hk) hrecords
    by_contra hnone
    simp only [not_or, not_exists, not_and, not_not, not_forall] at hnone
    obtain ⟨hmessages, hread, j, hj, hvalue⟩ := hnone
    obtain ⟨e, he⟩ := Option.ne_none_iff_exists'.1 hvalue
    cases hwrong.symm.trans (hiff.2 ⟨⟨hmessages, hread⟩, e, j, hj, hcollects hk, he⟩)
  · intro h i m t' hi ht' hk hrecords
    obtain ⟨l, hlast⟩ := exists_isLast hi
    cases ht : store.request m with
    | probe p =>
      have := s.instantiate_kind? store call m
      rw [ht, ht'] at this
      cases this
    | statement t =>
      obtain ⟨t₁, ht₁, hiff⟩ := hcorrect m l t hlast ht
      obtain rfl : t₁ = t' := Request.statement.inj (ht₁.symm.trans ht')
      rw [Bool.eq_false_iff]
      intro hc
      obtain ⟨⟨hmessages, hread⟩, e, j, hj, -, he⟩ := hiff.1 hc
      rcases h i m t l hi ht (hkind ht ht' ▸ hk) hrecords hlast with
        ⟨record, hr, hne⟩ | hne | hnone
      · exact hne (hmessages record hr)
      · exact hne hread
      · cases (hnone j hj).symm.trans he

end

/-- One statement with a value. -/
def valueStore : Store :=
  .ofList [.statement
    { kind := .value, source := .str "x", context := "", expr := some (.identifier "x"),
      parseErrors := [] }]

def valueSession : Session := { members := [0], options := {}, seed := 1 }

/-- The output of an engine with a value and an error record for the first position. -/
def failureOutput (messages : String) : Except Fault (Option String) :=
  .ok (some ("STACK-OUTPUT-BEGINS>\x7b\"values\":\x7b\"__e_smt_0\":\"2\"\x7d,\"errors\":[[" ++
    messages ++ ",\"c\",0]]\x7d<STACK-OUTPUT-ENDS"))

def failureBag (messages : List Datum) : Bag :=
  [(.str "values", .map [(.str "__e_smt_0", .str "2")]),
    (.str "errors", .list [.list [.list messages, .str "c", .int 0]]), (.str "timeout", .bool false)]

/-- An evaluation with such an answer. -/
def failing (messages : String) : Session.Evaluation :=
  valueSession.instantiate valueStore fun _ => failureOutput messages

theorem asked_failing (messages : String) : (failing messages).asked =
    some (valueSession.program valueStore {} 1).text :=
  Session.asked_instantiate (List.cons_ne_nil _ _) rfl rfl (by decide +kernel) _

theorem showsFailures_message :
    ShowsFailures [0] (failing "[\"m\"]").store (failureBag [.str "m"]) := by
  have hret : (failing "[\"m\"]").result = .ok true := by decide +kernel
  have hbag : answered (failureOutput "[\"m\"]") = .ok (failureBag [.str "m"]) := by cbv
  have hiff := @showsFailures_iff valueSession valueStore (fun _ => failureOutput "[\"m\"]") _ _
    (asked_failing _) hret hbag
  refine hiff.2 fun i m t l _ _ _ _ hlast => ?_
  obtain rfl : l = 0 := Nat.lt_one_iff.1 (List.getElem?_eq_some_iff.1 hlast.1).1
  exact .inl ⟨_, List.mem_singleton_self _, List.cons_ne_nil _ _⟩

/-- A statement with an error record that has no messages passes for correctly evaluated. -/
theorem not_showsFailures_noMessages :
    (failing "[]").result = .ok true ∧ answered (failureOutput "[]") = .ok (failureBag []) ∧
      ¬ ShowsFailures [0] (failing "[]").store (failureBag []) := by
  have hret : (failing "[]").result = .ok true := by decide +kernel
  have hbag : answered (failureOutput "[]") = .ok (failureBag []) := by cbv
  refine ⟨hret, hbag, fun h => ?_⟩
  obtain ⟨bag, hbag', hcorrect⟩ :=
    @correctlyEvaluated_instantiate valueSession valueStore (fun _ => failureOutput "[]") _
      (asked_failing _) hret
  obtain rfl : bag = failureBag [] := Except.ok.inj (hbag'.symm.trans hbag)
  have hlast : IsLast valueSession.members 0 0 :=
    ⟨rfl, fun j hj => Nat.le_of_lt_succ (List.getElem?_eq_some_iff.1 hj).1⟩
  have hrecords : records 0 (failureBag []) = [.list [.list [], .str "c", .int 0]] := rfl
  have hread : (unreadables 0 (failureBag [])).isEmpty = true := by decide +kernel
  have hvalue : ((value? 0 (failureBag [])).bind readable?).isSome = true := by decide +kernel
  obtain ⟨v, hv⟩ := Option.isSome_iff_exists.1 hvalue
  obtain ⟨t, ht, hiff⟩ := hcorrect 0 0 _ hlast rfl
  have hkind : some t.kind = some StatementKind.value :=
    (congrArg Request.kind? ht).symm.trans
      (valueSession.instantiate_kind? valueStore (fun _ => failureOutput "[]") 0)
  have hright : t.correctlyEvaluated = true := by
    refine hiff.2 ⟨⟨?_, List.isEmpty_iff.1 hread⟩, v, 0, rfl, rfl, hv⟩
    rw [hrecords]
    exact List.forall_mem_singleton.2 rfl
  rw [failing] at h
  have hwrong := h 0 0 t rfl ht (by rw [Option.some.inj hkind]; decide)
    (by rw [hrecords]; exact List.cons_ne_nil _ _)
  cases hright.symm.trans hwrong

end AlgebraBatch.Batch
