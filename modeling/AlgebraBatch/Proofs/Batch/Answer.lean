import AlgebraBatch.Proofs.Batch.Distribution
import AlgebraBatch.Proofs.Batch.Evaluation

/-!
# What an answer does

An answer is handed out as `Session.outgoing` says, or not at all. A delivery is refused for its
notes alone, whoever it is for, so the calls decide if they can be handed out (`deliver_eq_none`),
and then everybody has received them. A request stays what it is: nothing makes a statement of a
probe or changes the kind of a statement.
-/

namespace AlgebraBatch

open AlgebraBatch.Engine

/-- The kind of a request that is a statement. -/
def Request.kind? : Request → Option StatementKind
  | .statement s => some s.kind
  | .probe _ => none

namespace Batch

/-! ## Refusals -/

/-- What is wrong with a delivery: the notes of a status may be no list. -/
def Delivery.fault? : Delivery → Option Fault
  | status _ notes => if notes.elements?.isSome then none else some .wrongType
  | _ => none

theorem fault?_status {errors : List Datum} {notes : Datum} :
    (Delivery.status errors notes).fault? = none ↔ ∃ listed, notes.elements? = some listed := by
  rw [Delivery.fault?]
  cases notes.elements? with
  | none => exact ⟨nofun, nofun⟩
  | some listed => exact ⟨fun _ => ⟨listed, rfl⟩, fun _ => rfl⟩

theorem setStatus_list (s : Statement) (errors : List Datum) (notes : Datum) :
    s.setStatus (.list errors) notes =
      match notes.elements? with
      | none => ({ s with errors }, some .wrongType)
      | some notes =>
        ({ s with errors, notes, evaluated := true, value := none, presentation := .null }, none) :=
  rfl

theorem handTo_fault (d : Delivery) (r : Request) : (d.handTo r).2 = d.fault? := by
  cases d with
  | status errors notes =>
    cases r with
    | statement s =>
      simp only [Delivery.handTo, Request.setStatus, setStatus_list, Delivery.fault?]
      cases notes.elements? <;> rfl
    | probe p =>
      have he : (Datum.list errors).elements? = some errors := rfl
      simp only [Delivery.handTo, Request.setStatus, Probe.setStatus, Delivery.fault?, he]
      cases notes.elements? <;> rfl
  | value e => rfl
  | presentation text => rfl

theorem handTo_kind? (d : Delivery) (r : Request) : (d.handTo r).1.kind? = r.kind? := by
  cases r with
  | probe p => cases d <;> rfl
  | statement s =>
    cases d with
    | status errors notes =>
      simp only [Delivery.handTo, Request.setStatus, setStatus_list]
      cases notes.elements? <;> rfl
    | value e =>
      simp only [Delivery.handTo, Request.setValue, Statement.setValue]
      split <;> rfl
    | presentation text => rfl

variable {members : List Nat} {calls : List (Nat × Delivery)}

/-- The first delivery with a fault stops the handing out. -/
theorem deliver_fault (members : List Nat) (calls : List (Nat × Delivery)) : ∀ store : Store,
    (store.deliver members calls).2 =
      calls.findSome? fun c => if c.1 < members.length then c.2.fault? else none := by
  induction calls with
  | nil => exact fun _ => rfl
  | cons c calls ih =>
    obtain ⟨position, d⟩ := c
    intro store
    rw [Store.deliver, List.findSome?_cons]
    by_cases hp : position < members.length
    · have hfault := handTo_fault d (store.request members[position])
      rw [List.getElem?_eq_getElem hp, if_pos hp, ← hfault]
      cases hd : d.handTo (store.request members[position]) with
      | mk r fault =>
        cases fault with
        | some fault => simp only [hd]
        | none => simpa only [hd] using ih _
    · rw [List.getElem?_eq_none (Nat.le_of_not_lt hp), if_neg hp]
      exact ih store

theorem deliver_eq_none {store : Store} : (store.deliver members calls).2 = none ↔
    ∀ c ∈ calls, c.1 < members.length → c.2.fault? = none := by
  rw [deliver_fault, List.findSome?_eq_none_iff]
  refine forall₂_congr fun c _ => ?_
  by_cases hc : c.1 < members.length
  · simp only [hc, if_true, forall_const]
  · simp only [hc, if_false, false_implies]

/-- What no single delivery changes in a request is the same after all of them. -/
theorem deliver_invariant {α : Type} {f : Request → α}
    (hf : ∀ (d : Delivery) (r : Request), f (d.handTo r).1 = f r) (members : List Nat)
    (calls : List (Nat × Delivery)) : ∀ (store : Store) (m : Nat),
      f ((store.deliver members calls).1.request m) = f (store.request m) := by
  induction calls with
  | nil => exact fun _ _ => rfl
  | cons c calls ih =>
    obtain ⟨position, d⟩ := c
    intro store m
    rw [Store.deliver]
    split
    · exact ih store m
    · next j _ =>
      have hput : f ((store.put j (d.handTo (store.request j)).1).request m) =
          f (store.request m) := by
        by_cases hm : m = j
        · subst hm
          simp only [Store.put, if_true, hf]
        · simp only [Store.put, if_neg hm]
      cases hd : d.handTo (store.request j) with
      | mk r fault =>
        rw [hd] at hput
        cases fault with
        | some fault => exact hput
        | none => exact (ih _ m).trans hput

theorem mem_callsAt {i : Nat} {d : Delivery} : d ∈ callsAt i calls ↔ (i, d) ∈ calls := by
  rw [callsAt, List.mem_map]
  constructor
  · rintro ⟨c, hc, rfl⟩
    obtain ⟨hc, hi⟩ := List.mem_filter.1 hc
    rwa [← eq_of_beq hi]
  · exact fun h => ⟨(i, d), List.mem_filter.2 ⟨h, beq_self_eq_true i⟩, rfl⟩

/-- A member at one position only receives what is called for there. -/
theorem received_eq_callsAt {i m : Nat} (hn : members.Nodup) (hi : members[i]? = some m)
    (calls : List (Nat × Delivery)) : received members m calls = callsAt i calls := by
  rw [received, callsAt]
  congr 2
  funext c
  rw [Bool.eq_iff_iff, beq_iff_eq, beq_iff_eq]
  constructor
  · intro hc
    obtain ⟨hlt, -⟩ := List.getElem?_eq_some_iff.1 hc
    exact (List.getElem?_inj hlt hn).1 (hc.trans hi.symm)
  · rintro rfl
    exact hi

/-! ## Answers -/

/-- What is handed out for an answer to a number of requests, if the answer can be read. -/
def outgoing (count : Nat) (program : Program) (bag : Bag) : Except Fault (List (Nat × Delivery)) :=
  if bag.isTimedOut then .ok (timeoutDeliveries count)
  else (receive bag).routing.map fun routing => routing.deliveries program.records

theorem outgoing_timedOut {count : Nat} {program : Program} {bag : Bag}
    (ht : bag.isTimedOut = true) :
    outgoing count program bag = .ok (timeoutDeliveries count) :=
  if_pos ht

theorem outgoing_inTime {count : Nat} {program : Program} {bag : Bag}
    (ht : bag.isTimedOut = false) :
    outgoing count program bag =
      (receive bag).routing.map fun routing => routing.deliveries program.records :=
  if_neg (ne_true_of_eq_false ht)

/-- What is handed out for an answer in time is what its routing delivers. -/
theorem routing_of_outgoing {count : Nat} {program : Program} {bag : Bag}
    (ht : bag.isTimedOut = false) (h : outgoing count program bag = .ok calls) :
    ∃ routing, (receive bag).routing = .ok routing ∧
      calls = routing.deliveries program.records := by
  rw [outgoing_inTime ht] at h
  cases hr : (receive bag).routing with
  | error fault => rw [hr] at h; cases h
  | ok routing =>
    rw [hr] at h
    exact ⟨routing, rfl, (Except.ok.inj h).symm⟩

/-- What comes of an answer to the members. -/
structure Brings (members : List Nat) (store : Store) (program : Program) (bag : Bag)
    (store' : Store) (result : Except Fault Bool) : Prop where
  unread : ∀ fault, outgoing members.length program bag = .error fault →
    store' = store ∧ result = .error fault
  read : ∀ calls, outgoing members.length program bag = .ok calls →
    store' = (store.deliver members calls).1 ∧
    result = match (store.deliver members calls).2 with
      | none => .ok (!bag.isTimedOut)
      | some fault => .error fault

open Addressed in
/-- What the request at a position is given for an answer. -/
def callsFor (q : Request) (i : Nat) (bag : Bag) : List Delivery :=
  if bag.isTimedOut then [.status [.str timedOutError] (.list [])]
  else
    let value := if q.collectsValue then (value? i bag).bind readable? else none
    let presentation := if q.collectsPresentation then (presentation? i bag).bind Datum.text? else none
    .status ((records i bag).reverse.flatMap messages ++ (unreadables i bag).map unreadableMessage)
        ((notes i bag).getLast?.getD (.list [])) ::
      ((value.map .value).toList ++ (presentation.map .presentation).toList)

theorem callsAt_outgoing {requests : List Request} {options : Options} {seed : Int} {bag : Bag}
    {i : Nat} {q : Request} (hq : requests[i]? = some q)
    (h : outgoing requests.length (compile options seed requests) bag = .ok calls) :
    callsAt i calls = callsFor q i bag := by
  unfold callsFor
  cases ht : bag.isTimedOut with
  | true =>
    obtain rfl := Except.ok.inj ((outgoing_timedOut ht).symm.trans h)
    rw [if_pos rfl]
    exact callsAt_range _ (List.getElem?_eq_some_iff.1 hq).1
  | false =>
    rw [if_neg Bool.false_ne_true]
    obtain ⟨routing, hr, rfl⟩ := routing_of_outgoing ht h
    have hreads := reads_of_receive hr
    have hkey : (Record.ofRequest q i).key = Key.key i := rfl
    rw [compile, callsAt_deliveries hq, hreads.errorsAt, hreads.notesAt, Routing.resultsOf, hkey,
      hreads.valueAt?, hreads.presentationAt?, List.map_append, ← Option.toList_map,
      ← Option.toList_map, Option.map_map, Option.map_map]
    rfl

namespace Session

variable {s : Session} {store : Store} {program : Program} {bag : Bag}

theorem brings_giveUp (hi : s.instantiated = false) (ht : bag.isTimedOut = true) :
    Brings s.members store program bag (s.giveUp store).store (s.giveUp store).result := by
  have hout : outgoing s.members.length program bag = .ok (timeoutDeliveries s.members.length) :=
    outgoing_timedOut ht
  constructor
  · intro fault h
    rw [hout] at h
    cases h
  · intro calls h
    obtain rfl := Except.ok.inj (hout.symm.trans h)
    unfold giveUp
    cases store.deliver s.members (timeoutDeliveries s.members.length) with
    | mk store' fault =>
      refine ⟨rfl, ?_⟩
      cases fault with
      | some fault => rfl
      | none => simp only [hi, ht, Bool.not_true]

theorem brings_distribute (ht : bag.isTimedOut = false) :
    Brings s.members store program bag (s.distribute store program bag).store
      (s.distribute store program bag).result := by
  have hout : outgoing s.members.length program bag =
      (receive bag).routing.map fun routing => routing.deliveries program.records :=
    outgoing_inTime ht
  cases hr : (receive bag).routing with
  | error fault =>
    rw [hr] at hout
    constructor
    · intro fault' h
      obtain rfl := Except.error.inj (hout.symm.trans h)
      simp only [distribute, hr, and_self]
    · intro calls h
      cases hout.symm.trans h
  | ok routing =>
    rw [hr] at hout
    constructor
    · intro fault h
      cases hout.symm.trans h
    · intro calls h
      obtain rfl := Except.ok.inj (hout.symm.trans h)
      simp only [distribute, hr]
      cases store.deliver s.members (routing.deliveries program.records) with
      | mk store' fault =>
        cases fault with
        | some fault => exact ⟨rfl, rfl⟩
        | none => simp only [ht, Bool.not_false, and_self]

section

variable {call : String → Except Fault (Option String)} (hm : s.members ≠ [])
  (hi : s.instantiated = false) (hv : s.valid store = true) (hseed : seedFault? s.seed = none)
include hm hi hv hseed

/-- An evaluation that has an answer brings what the answer says. -/
theorem brings_instantiate
    (ha : answered (call (s.program store s.options s.seed).text) = .ok bag) :
    Brings s.members store (s.program store s.options s.seed) bag (s.instantiate store call).store
      (s.instantiate store call).result := by
  obtain ⟨text, hc, hb⟩ := bind_eq_ok.1 ha
  let program := s.program store s.options s.seed
  let s' : Session := { s with lastProgram := some program, lastResults := some bag }
  rw [instantiate_fresh hm hi hv hseed]
  simp only [conclude, hc, Except.bind, hb, Except.map]
  cases ht : bag.isTimedOut with
  | true =>
    simp only [if_true]
    exact @brings_giveUp s' store program bag hi ht
  | false =>
    simp only [Bool.false_eq_true, if_false]
    exact @brings_distribute s' store program bag ht

/-- The errors of the batch are what the answer has as errors, whatever it is. -/
theorem errors_answered (ht : bag.isTimedOut = false)
    (ha : answered (call (s.program store s.options s.seed).text) = .ok bag) :
    (s.instantiate store call).session.errors = (receive bag).errors := by
  have hs := (conclude_spec s store (s.program store s.options s.seed)
    (call (s.program store s.options s.seed).text)).1
  rw [instantiate_fresh hm hi hv hseed]
  revert hs
  generalize (conclude _ _ _ _).session = s'
  rintro (hf | ⟨hb, ht'⟩ | ⟨complete, hb, -⟩)
  · cases ha.symm.trans hf
  · obtain rfl := Except.ok.inj (ha.symm.trans hb)
    rw [ht] at ht'
    cases ht'
  · obtain rfl := Except.ok.inj (ha.symm.trans hb)
    rfl

theorem instantiate_unanswered {fault : Fault}
    (ha : answered (call (s.program store s.options s.seed).text) = .error fault) :
    (s.instantiate store call).store = store ∧ (s.instantiate store call).result = .error fault := by
  rw [instantiate_fresh hm hi hv hseed]
  unfold answered at ha
  cases hc : call (s.program store s.options s.seed).text with
  | error fault' =>
    rw [hc] at ha
    simp only [conclude, Except.bind, true_and]
    exact congrArg Except.error (Except.error.inj ha)
  | ok text =>
    rw [hc] at ha
    have hb : Bag.ofOutput text = .error fault := ha
    simp only [conclude, Except.bind, hb, Except.map, and_self]

end

/-- An evaluation that asked the engine and returned had an answer, and it has handed out what the
answer says. -/
theorem instantiate_answered {call : String → Except Fault (Option String)} {text : String} {b : Bool}
    (hasked : (s.instantiate store call).asked = some text)
    (hret : (s.instantiate store call).result = .ok b) :
    ∃ bag calls, answered (call text) = .ok bag ∧ b = !bag.isTimedOut ∧
      outgoing s.members.length (s.program store s.options s.seed) bag = .ok calls ∧
      (store.deliver s.members calls).2 = none ∧
      (s.instantiate store call).store = (store.deliver s.members calls).1 := by
  rcases s.instantiate_cases store call with ⟨-, he⟩ | ⟨_, -, -, -, he⟩ | q
  · rw [he] at hasked
    cases hasked
  · rw [he] at hasked
    cases hasked
  · obtain rfl := Option.some.inj (q.asked.symm.trans hasked)
    cases ha : answered (call (s.program store s.options s.seed).text) with
    | error fault =>
      obtain ⟨-, hr⟩ := instantiate_unanswered q.members q.fresh q.valid q.seed ha
      cases hr.symm.trans hret
    | ok bag =>
      have hbrings := brings_instantiate q.members q.fresh q.valid q.seed ha
      cases ho : outgoing s.members.length (s.program store s.options s.seed) bag with
      | error fault => cases (hbrings.unread fault ho).2.symm.trans hret
      | ok calls =>
        obtain ⟨hstore, hresult⟩ := hbrings.read calls ho
        rw [hresult] at hret
        cases hd : (store.deliver s.members calls).2 with
        | some fault => rw [hd] at hret; cases hret
        | none =>
          rw [hd] at hret
          exact ⟨bag, calls, rfl, (Except.ok.inj hret).symm, ho, hd, hstore⟩

/-- What no single delivery changes in a request is the same after an evaluation. -/
theorem instantiate_invariant {α : Type} {f : Request → α}
    (hf : ∀ (d : Delivery) (r : Request), f (d.handTo r).1 = f r) (s : Session) (store : Store)
    (call : String → Except Fault (Option String)) (m : Nat) :
    f ((s.instantiate store call).store.request m) = f (store.request m) := by
  rcases s.instantiate_cases store call with ⟨-, he⟩ | ⟨_, -, -, -, he⟩ | q
  · rw [he]
  · rw [he]
  · cases ha : answered (call (s.program store s.options s.seed).text) with
    | error fault => rw [(instantiate_unanswered q.members q.fresh q.valid q.seed ha).1]
    | ok bag =>
      have hb := brings_instantiate q.members q.fresh q.valid q.seed ha
      cases ho : outgoing s.members.length (s.program store s.options s.seed) bag with
      | error fault => rw [(hb.unread fault ho).1]
      | ok calls => rw [(hb.read calls ho).1, deliver_invariant hf]

theorem instantiate_kind? (s : Session) (store : Store)
    (call : String → Except Fault (Option String)) (m : Nat) :
    ((s.instantiate store call).store.request m).kind? = (store.request m).kind? :=
  instantiate_invariant handTo_kind? s store call m

end Session

end Batch

end AlgebraBatch
