import AlgebraBatch.Proofs.Batch.Answer
import AlgebraBatch.Proofs.Batch.World

/-!
# What a batch leaves a statement with

A status clears what earlier batches brought, and values and presentations only come after it. So
when an evaluation that asked the engine returns, the outcome of each of its statements depends only
on the kind of the statement, its position and the answer (`World.run_outcome`), whatever happened
before.
-/

namespace AlgebraBatch

open AlgebraBatch.Engine

/-- What batches change in a statement. -/
structure Outcome where
  errors : List Datum
  notes : List Datum
  evaluated : Bool
  value : Option Content
  presentation : Datum

def Statement.outcome (s : Statement) : Outcome :=
  { errors := s.errors, notes := s.notes, evaluated := s.evaluated, value := s.value,
    presentation := s.presentation }

namespace Batch

/-! ## Outcomes of answers -/

/-- The outcome of a timeout. -/
def Outcome.timedOut : Outcome :=
  { errors := [.str "TIMEDOUT"], notes := [], evaluated := true, value := none,
    presentation := .null }

open Addressed in
/-- The outcome that an answer means for a statement at a position. -/
def Outcome.of (kind : StatementKind) (i : Nat) (bag : Bag) : Outcome :=
  if bag.isTimedOut then Outcome.timedOut
  else
    { errors :=
        (records i bag).reverse.flatMap messages ++ (unreadables i bag).map unreadableMessage
      notes := ((notes i bag).getLast?.bind Datum.elements?).getD []
      evaluated := true
      value := if kind = .plain then none else ((value? i bag).bind readable?).map .ofExpr
      presentation :=
        if kind = .display then ((presentation? i bag).bind Datum.text?).elim .null .str else .null }

open Addressed in
/-- Where a position has one record at most, the order of records does not matter. -/
theorem Outcome.errors_of {kind : StatementKind} {i : Nat} {bag : Bag} (ht : bag.isTimedOut = false)
    (h : (records i bag).length ≤ 1) :
    (Outcome.of kind i bag).errors =
      (records i bag).flatMap messages ++ (unreadables i bag).map unreadableMessage := by
  have hone : (records i bag).reverse = records i bag := by
    match hr : records i bag with
    | [] => rfl
    | [_] => rfl
    | _ :: _ :: _ =>
      rw [hr] at h
      simp at h
  rw [Outcome.of, if_neg (ne_true_of_eq_false ht), hone]

theorem setValue_ofExpr (t : Statement) (e : Expr) :
    t.setValue (.ofExpr e) = { t with value := some (.ofExpr e) } := by
  cases e <;> rfl

/-- A status followed by results leaves these results and nothing of what was there before. -/
theorem outcome_after (t : Statement) {errors : List Datum} {notes : Datum} {listed : List Datum}
    (hn : notes.elements? = some listed) (v : Option Expr) (p : Option String) :
    ∃ t', Request.after (.statement t) (.status errors notes ::
        ((v.map .value).toList ++ (p.map .presentation).toList)) = .statement t' ∧
      t'.outcome =
        { errors, notes := listed, evaluated := true, value := v.map .ofExpr,
          presentation := p.elim .null .str } := by
  have hstatus : (Delivery.handTo (.statement t) (.status errors notes)).1 =
      .statement { t with errors, notes := listed, evaluated := true, value := none,
                          presentation := .null } := by
    rw [Delivery.handTo, Request.setStatus, setStatus_list, hn]
  have hvalue (t : Statement) : (v.map Delivery.value).toList.foldl (fun r d => (d.handTo r).1)
      (.statement t) = .statement { t with value := (v.map .ofExpr).or t.value } := by
    cases v with
    | none => rfl
    | some e => exact congrArg Request.statement (setValue_ofExpr t e)
  refine ⟨{ t with errors, notes := listed, evaluated := true, value := v.map .ofExpr,
                   presentation := p.elim .null .str }, ?_, rfl⟩
  rw [Request.after, List.foldl_cons, hstatus, List.foldl_append, hvalue, Option.or_none]
  cases p <;> rfl

/-- What a statement is given for an answer leaves the outcome of the answer. -/
theorem outcome_callsFor (t : Statement) (i : Nat) {bag : Bag}
    (h : ∀ d ∈ callsFor (.statement t) i bag, d.fault? = none) :
    ∃ t', Request.after (.statement t) (callsFor (.statement t) i bag) = .statement t' ∧
      t'.outcome = Outcome.of t.kind i bag := by
  unfold callsFor at h ⊢
  unfold Outcome.of
  split at h
  · next ht =>
    rw [if_pos ht, if_pos ht]
    exact outcome_after t rfl none none
  · next ht =>
    rw [if_neg ht, if_neg ht]
    obtain ⟨listed, hl⟩ := fault?_status.1 (h _ List.mem_cons_self)
    have hnotes : ((Addressed.notes i bag).getLast?.bind Datum.elements?).getD [] = listed := by
      cases hlast : (Addressed.notes i bag).getLast? with
      | none =>
        rw [hlast] at hl
        exact Option.some.inj hl
      | some d =>
        rw [hlast] at hl
        rw [Option.bind_some, show d.elements? = some listed from hl, Option.getD_some]
    obtain ⟨t', ht', ho⟩ := outcome_after t hl
      (if (Request.statement t).collectsValue then
        (Addressed.value? i bag).bind Addressed.readable? else none)
      (if (Request.statement t).collectsPresentation then
        (Addressed.presentation? i bag).bind Datum.text? else none)
    have hvalue : (Request.statement t).collectsValue = (t.kind != .plain) := rfl
    have hpresentation : (Request.statement t).collectsPresentation = (t.kind == .display) := rfl
    refine ⟨t', ht', ho.trans ?_⟩
    rw [hnotes, hvalue, hpresentation]
    cases t.kind <;> rfl

/-- An evaluation that asked the engine and returned had an answer, and it leaves each statement
with the outcome of the answer. -/
theorem outcome_instantiate {s : Session} {store : Store}
    {call : String → Except Fault (Option String)} {program : String} {b : Bool}
    (hn : s.members.Nodup) (hasked : (s.instantiate store call).asked = some program)
    (hret : (s.instantiate store call).result = .ok b) :
    ∃ bag, answered (call program) = .ok bag ∧ b = !bag.isTimedOut ∧
      ∀ i m t, s.members[i]? = some m → store.request m = .statement t →
        ∃ t', (s.instantiate store call).store.request m = .statement t' ∧
          t'.outcome = Outcome.of t.kind i bag := by
  obtain ⟨bag, calls, ha, hb, ho, hd, hstore⟩ := Session.instantiate_answered hasked hret
  refine ⟨bag, ha, hb, fun i m t hi ht => ?_⟩
  have hq : (s.requests store)[i]? = some (.statement t) := by
    rw [Session.requests, List.getElem?_map, hi, Option.map_some, ht]
  have hlength : (s.requests store).length = s.members.length := List.length_map _
  rw [← hlength] at ho
  have hcalls := callsAt_outgoing hq ho
  rw [hstore, request_deliver hd, received_eq_callsAt hn hi, hcalls, ht]
  refine outcome_callsFor t i fun d hd' => ?_
  rw [← hcalls] at hd'
  exact deliver_eq_none.1 hd _ (mem_callsAt.1 hd') (List.getElem?_eq_some_iff.1 hi).1

/-! ## Histories -/

namespace World

theorem act_kind? (w : World) (a : Action) (m : Nat) :
    ((w.act a).1.store.request m).kind? = (w.store.request m).kind? := by
  cases a with
  | construct candidates options seed clock =>
    rw [World.act]
    cases Session.make candidates options seed clock <;> rfl
  | add i candidates atEnd =>
    rcases w.add_cases i candidates atEnd with ⟨-, he⟩ | ⟨s, new, -, -, he⟩ | ⟨s, fault, -, -, -, he⟩
    · rw [he]
    · rw [he]; rfl
    · rw [he]
  | merge i j atEnd =>
    rcases w.merge_cases i j atEnd with ⟨-, he⟩ | ⟨s, target, -, -, he⟩
    · rw [he]
    · rw [he]; rfl
  | instantiate i call =>
    cases hs : w.sessions[i]? with
    | none => rw [World.act, hs]
    | some s =>
      rw [act_instantiate hs]
      exact s.instantiate_kind? w.store call m

theorem run_kind? (actions : List Action) : ∀ (w : World) (m : Nat),
    ((w.run actions).store.request m).kind? = (w.store.request m).kind? := by
  induction actions with
  | nil => exact fun _ _ => rfl
  | cons a actions ih => exact fun w m => (ih _ m).trans (w.act_kind? a m)

open Addressed in
/-- Whatever happened before: when a session has asked the engine and returns, it tells whether there
was an answer in time, and what its statements are left with depends on their kinds, their positions
and that answer alone. Where each position has one error record at most, a statement has the messages
of its own record and then those of its unreadable values. -/
theorem run_outcome {store : Store} {actions : List Action} {w : World}
    (hw : (initial store).run actions = w) {k : Nat} {s : Session} (hs : w.sessions[k]? = some s)
    (hn : s.members.Nodup) {call : String → Except Fault (Option String)} {b : Bool}
    (hasked : (w.act (.instantiate k call)).1.asked ≠ w.asked)
    (hret : (s.instantiate w.store call).result = .ok b) :
    ∃ a bag, (w.act (.instantiate k call)).1.lastAsked? k = some a ∧ answered a.output = .ok bag ∧
      b = !bag.isTimedOut ∧ ∀ i m t, s.members[i]? = some m → store.request m = .statement t →
        ∃ t', (w.act (.instantiate k call)).1.store.request m = .statement t' ∧
          t'.outcome = Outcome.of t.kind i bag ∧
          (bag.isTimedOut = false → (∀ j, (records j bag).length ≤ 1) → t'.errors =
            (records i bag).flatMap messages ++ (unreadables i bag).map unreadableMessage) := by
  rw [act_instantiate hs] at hasked ⊢
  cases hp : (s.instantiate w.store call).asked with
  | none => exact absurd (asked_evaluate_none hp) hasked
  | some program =>
    obtain ⟨bag, ha, hb, houtcome⟩ := outcome_instantiate hn hp hret
    refine ⟨_, bag, lastAsked?_self (asked_evaluate_some hp) rfl, ha, hb, fun i m t hi ht => ?_⟩
    have hkind : (w.store.request m).kind? = some t.kind := by
      rw [← hw, run_kind?, initial, ht, Request.kind?]
    cases hm : w.store.request m with
    | probe p => rw [hm] at hkind; cases hkind
    | statement t₁ =>
      rw [hm] at hkind
      obtain ⟨t', ht', ho⟩ := houtcome i m t₁ hi hm
      rw [Option.some.inj hkind] at ho
      refine ⟨t', ht', ho, fun htime hone => ?_⟩
      rw [← @Outcome.errors_of t.kind i bag htime (hone i), ← ho, Statement.outcome]

/-- A display statement and a plain one. -/
def shiftedStore : Store :=
  let statement (kind : StatementKind) (name : String) : Request := .statement
    { kind, source := .str name, context := "", expr := some (.identifier name), parseErrors := [] }
  .ofList [statement .display "x", statement .plain "y"]

/-- The first statement is evaluated without an answer in time, and the second one is put before
it. -/
def shifting : List Action :=
  [.construct [.inl 0] (.inl {}) (.int 1) 0, .instantiate 0 fun _ => .ok none,
    .add 0 [.inl 1] false]

/-- The session before its evaluation. -/
def unshifted : Session := { members := [0], options := {}, seed := 1 }

/-- The session after that. -/
def shifted : Session :=
  { members := [1, 0], options := {}, seed := 1,
    lastProgram := some (compile {} 1 [shiftedStore.request 0]), lastResults := some Bag.timedOut }

theorem run_shifting : (initial shiftedStore).run shifting =
    { sessions := [shifted], store := (unshifted.giveUp shiftedStore).store,
      asked := [⟨0, (compile {} 1 [shiftedStore.request 0]).text, .ok none⟩] } := by
  have hseed : seedFault? unshifted.seed = none := by decide +kernel
  have he := @Session.instantiate_fresh unshifted shiftedStore (List.cons_ne_nil _ _) rfl rfl hseed
    fun _ => .ok none
  show ((World.evaluate ⟨[unshifted], shiftedStore, []⟩ 0 unshifted fun _ => .ok none).act
    (.add 0 [.inl 1] false)).1 = _
  rw [evaluate, he]
  rfl

/-- An engine that has a value for the second position. -/
def valueAtOne (_ : String) : Except Fault (Option String) :=
  .ok (some
    "STACK-OUTPUT-BEGINS>\x7b\"values\":\x7b\"__e_smt_1\":\"2\"\x7d\x7d<STACK-OUTPUT-ENDS")

theorem run_outcome_shifted :
    let w := (initial shiftedStore).run shifting
    ∃ a bag, (w.act (.instantiate 0 valueAtOne)).1.lastAsked? 0 = some a ∧
      answered a.output = .ok bag ∧ true = !bag.isTimedOut ∧
      ∃ t', (w.act (.instantiate 0 valueAtOne)).1.store.request 0 = .statement t' ∧
        t'.outcome = Outcome.of .display 1 bag := by
  intro w
  have hs : w.sessions[0]? = some shifted := by rw [show w = _ from run_shifting]; rfl
  have hret : (shifted.instantiate w.store valueAtOne).result = .ok true := by decide +kernel
  have hcalls : (w.act (.instantiate 0 valueAtOne)).1.asked.length ≠ w.asked.length := by
    decide +kernel
  have hasked : (w.act (.instantiate 0 valueAtOne)).1.asked ≠ w.asked :=
    fun h => hcalls (congrArg List.length h)
  obtain ⟨a, bag, ha, hb, htime, houtcome⟩ := @run_outcome shiftedStore shifting w rfl 0 shifted hs
    (by decide) valueAtOne true hasked hret
  obtain ⟨t, ht, hk⟩ : ∃ t, shiftedStore.request 0 = .statement t ∧ t.kind = .display :=
    ⟨_, rfl, rfl⟩
  obtain ⟨t', ht', ho, -⟩ := houtcome 1 0 t rfl ht
  rw [hk] at ho
  exact ⟨a, bag, ha, hb, htime, t', ht', ho⟩

end World

end Batch

end AlgebraBatch
