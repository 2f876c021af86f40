import AlgebraBatch.Proofs.Batch.Answer
import Mathlib

/-!
# Answers in shape

The engine may answer anything. An answer is `InShape` for a batch if it can be gone through, its
error records have messages and positions, its values have no numeral beyond the limit, and the
notes for the batch can be listed. These answers, and no others, are handed out to the end. All
others make the evaluation fail with a fault that is no report of the library, so an evaluation
keeps the promise that it serves everybody or reports a failure and leaves all as it was just for
the answers in shape (`instantiate_iff_inShape`).
-/

namespace AlgebraBatch.Batch

open AlgebraBatch.Engine Addressed

variable {bag : Bag} {name : String}

/-! ## Shapes -/

/-- The member can be gone through: it is missing, does not hold or is a map. -/
def HasEntries (name : String) (bag : Bag) : Prop :=
  ∀ d, bag.member? name = some d → d.holds = true → ∃ es, d = .map es

/-- A value that is a text has no numeral beyond the limit, and is under a text if it cannot be
read. -/
structure FitsValue (key d : Datum) : Prop where
  converts : ∀ text n, d = .str text → Syntax.parseExpr text ≠ .error (.overlong n)
  named : ∀ text rejected why, d = .str text →
    Syntax.parseExpr text = .error (.rejected rejected why) → key.text?.isSome = true

/-- An error record has a first part, and an integer as its third part. -/
structure IsRecord (record : Datum) : Prop where
  messages : ∃ d, recordPart 0 record = .ok d
  position : ∃ i, recordPosition record = .ok i

/-- The bag can be read. -/
structure IsReadable (bag : Bag) : Prop where
  values : HasEntries "values" bag
  fits : ∀ e ∈ entries "values" bag, FitsValue e.1 e.2
  presentation : HasEntries "presentation" bag
  errors : ∃ records, ((bag.member? "errors").getD (.list [])).elements? = some records ∧
    ∀ r ∈ records, IsRecord r
  answernotes : HasEntries "answernotes" bag
  keys : ∀ e ∈ entries "answernotes" bag, e.1.text?.isSome = true

/-- The notes that count for a position can be listed. -/
def IsListable (i : Nat) (bag : Bag) : Prop :=
  ∀ d, (notes i bag).getLast? = some d → ∃ listed, d.elements? = some listed

/-- The bag can be read and handed out to a number of requests. -/
structure InShape (count : Nat) (bag : Bag) : Prop extends IsReadable bag where
  notes : ∀ i < count, IsListable i bag

/-! ## Entries -/

theorem memberEntries_cases (name : String) (bag : Bag) :
    (HasEntries name bag ∧ ∃ es, memberEntries name bag = .ok es) ∨
    (¬ HasEntries name bag ∧ memberEntries name bag = .error .missingMember) := by
  unfold memberEntries HasEntries
  cases hm : bag.member? name with
  | none => exact .inl ⟨nofun, [], rfl⟩
  | some d =>
    cases hd : d.holds with
    | false =>
      refine .inl ⟨fun d' h' ht => ?_, ?_⟩
      · obtain rfl := Option.some.inj h'
        rw [hd] at ht
        cases ht
      · cases d with
        | map es => exact ⟨es, rfl⟩
        | _ => exact ⟨[], if_neg (ne_true_of_eq_false hd)⟩
    | true =>
      cases d with
      | map es =>
        exact .inl ⟨fun d' h' _ => ⟨es, (Option.some.inj h').symm⟩, es, rfl⟩
      | _ =>
        refine .inr ⟨fun h => ?_, if_pos hd⟩
        obtain ⟨es, he⟩ := h _ rfl hd
        cases he

theorem memberEntries_isOk : (∃ es, memberEntries name bag = .ok es) ↔ HasEntries name bag := by
  rcases memberEntries_cases name bag with ⟨h, he⟩ | ⟨h, he⟩
  · exact ⟨fun _ => h, fun _ => he⟩
  · refine ⟨fun ⟨es, hes⟩ => ?_, fun h' => absurd h' h⟩
    cases he.symm.trans hes

theorem memberEntries_fault {fault : Fault} (h : memberEntries name bag = .error fault) :
    fault.isReport = false := by
  rcases memberEntries_cases name bag with ⟨-, es, he⟩ | ⟨-, he⟩
  · cases he.symm.trans h
  · obtain rfl := Except.error.inj (he.symm.trans h)
    rfl

/-! ## Values -/

/-- What a text is as a value. -/
theorem reading_cases (text : String) :
    (∃ e, Syntax.parseExpr text = .ok e ∧ Reading.of (.str text) = .ok (.value e)) ∨
    (∃ rejected why message, Syntax.parseExpr text = .error (.rejected rejected why) ∧
      Reading.of (.str text) = .ok (.unreadable text message)) ∨
    ∃ n, Syntax.parseExpr text = .error (.overlong n) ∧
      Reading.of (.str text) = .error (.numeral (.tooManyDigits n)) := by
  cases hp : Syntax.parseExpr text with
  | ok e =>
    refine .inl ⟨e, rfl, ?_⟩
    simp only [Reading.of, hp]
  | error fault =>
    cases fault with
    | rejected rejected why =>
      refine .inr (.inl ⟨rejected, why, why.message rejected, rfl, ?_⟩)
      simp only [Reading.of, hp, Syntax.ParseFault.toFault]
    | overlong n =>
      refine .inr (.inr ⟨n, rfl, ?_⟩)
      simp only [Reading.of, hp, Syntax.ParseFault.toFault]

/-- What is wrong with an entry of the values. -/
def valueFault? (key d : Datum) : Option Fault :=
  match Reading.of d with
  | .error fault => some fault
  | .ok reading => keyFault? key reading

theorem readValues_fault (es : List (Datum × Datum)) :
    (readValues es).2 = es.findSome? fun e => valueFault? e.1 e.2 := by
  induction es with
  | nil => rfl
  | cons e es ih =>
    obtain ⟨key, d⟩ := e
    rw [readValues, List.findSome?_cons, valueFault?]
    cases Reading.of d with
    | error fault => rfl
    | ok reading =>
      simp only
      cases keyFault? key reading with
      | some fault => rfl
      | none => exact ih

theorem valueFault?_eq_none {key d : Datum} : valueFault? key d = none ↔ FitsValue key d := by
  unfold valueFault?
  cases d with
  | str text =>
    rcases reading_cases text with ⟨e, hp, hr⟩ | ⟨rejected, why, message, hp, hr⟩ | ⟨n, hp, hr⟩
    · rw [hr]
      refine ⟨fun _ => ⟨?_, ?_⟩, fun _ => rfl⟩
      · rintro _ n ⟨⟩ h
        cases hp.symm.trans h
      · rintro _ rejected why ⟨⟩ h
        cases hp.symm.trans h
    · rw [hr]
      have hkey : keyFault? key (.unreadable text message) =
          if key.text?.isNone = true then some .missingMember else none := rfl
      simp only [hkey]
      cases hk : key.text? with
      | none =>
        refine ⟨nofun, fun h => ?_⟩
        have := h.named text rejected why rfl hp
        rw [hk] at this
        cases this
      | some t =>
        refine ⟨fun _ => ⟨?_, fun _ _ _ _ _ => ?_⟩, fun _ => rfl⟩
        · rintro _ n ⟨⟩ h
          cases hp.symm.trans h
        · rw [hk]
          rfl
    · rw [hr]
      exact ⟨nofun, fun h => absurd hp (h.converts text n rfl)⟩
  | _ => exact ⟨fun _ => ⟨nofun, nofun⟩, fun _ => rfl⟩

theorem valueFault?_isReport {key d : Datum} {fault : Fault} (h : valueFault? key d = some fault) :
    fault.isReport = false := by
  unfold valueFault? at h
  split at h
  · next f hr =>
    obtain rfl := Option.some.inj h
    cases d with
    | str text =>
      rcases reading_cases text with ⟨_, -, hr'⟩ | ⟨_, _, _, -, hr'⟩ | ⟨n, -, hr'⟩
      · cases hr.symm.trans hr'
      · cases hr.symm.trans hr'
      · cases hr.symm.trans hr'
        rfl
    | _ => cases hr
  · next reading hr =>
    unfold keyFault? at h
    split at h
    · cases h
      rfl
    · cases h

/-! ## Error records -/

theorem recordPart_fault {i : Nat} {record : Datum} {fault : Fault}
    (h : recordPart i record = .error fault) : fault.isReport = false := by
  unfold recordPart at h
  repeat' split at h
  all_goals cases h
  all_goals rfl

theorem toInteger_fault {d : Datum} {fault : Fault} (h : d.toInteger = .error fault) :
    fault.isReport = false := by
  cases d with
  | str s =>
    rw [Datum.toInteger] at h
    cases hr : Numeral.readInteger s with
    | ok n => rw [hr] at h; cases h
    | error f => rw [hr] at h; cases h; rfl
  | float x =>
    rw [Datum.toInteger] at h
    unfold Binary64.toInteger at h
    split at h
    all_goals cases h
    all_goals rfl
  | _ => cases h <;> rfl

theorem recordMessages_isOk {record : Datum} :
    (∃ ms, recordMessages record = .ok ms) ↔ ∃ d, recordPart 0 record = .ok d := by
  constructor
  · rintro ⟨ms, h⟩
    obtain ⟨d, hd, -⟩ := bind_eq_ok.1 h
    exact ⟨d, hd⟩
  · rintro ⟨d, hd⟩
    cases d with
    | list messages => exact ⟨messages, bind_eq_ok.2 ⟨_, hd, rfl⟩⟩
    | _ => exact ⟨_, bind_eq_ok.2 ⟨_, hd, rfl⟩⟩

theorem recordMessages_fault {record : Datum} {fault : Fault}
    (h : recordMessages record = .error fault) : fault.isReport = false := by
  rcases bind_eq_error.1 h with h | ⟨d, -, h⟩
  · exact recordPart_fault h
  · split at h <;> cases h

theorem readRecord_isOk {record : Datum} : (∃ x, readRecord record = .ok x) ↔ IsRecord record := by
  constructor
  · rintro ⟨x, h⟩
    obtain ⟨ms, hm, h⟩ := bind_eq_ok.1 h
    obtain ⟨part, hp, h⟩ := bind_eq_ok.1 h
    obtain ⟨i, hi, -⟩ := bind_eq_ok.1 h
    exact ⟨recordMessages_isOk.1 ⟨ms, hm⟩, i, bind_eq_ok.2 ⟨part, hp, hi⟩⟩
  · rintro ⟨hm, i, hi⟩
    obtain ⟨ms, hm⟩ := recordMessages_isOk.2 hm
    obtain ⟨part, hp, hi⟩ := bind_eq_ok.1 hi
    exact ⟨(i, ms), bind_eq_ok.2 ⟨ms, hm, bind_eq_ok.2 ⟨part, hp, bind_eq_ok.2 ⟨i, hi, rfl⟩⟩⟩⟩

theorem readRecord_fault {record : Datum} {fault : Fault} (h : readRecord record = .error fault) :
    fault.isReport = false := by
  rcases bind_eq_error.1 h with h | ⟨ms, -, h⟩
  · exact recordMessages_fault h
  · rcases bind_eq_error.1 h with h | ⟨part, -, h⟩
    · exact recordPart_fault h
    · rcases bind_eq_error.1 h with h | ⟨i, -, h⟩
      · exact toInteger_fault h
      · cases h

theorem readErrors_isOk {errors : Datum} : (∃ es, readErrors errors = .ok es) ↔
    ∃ records, errors.elements? = some records ∧ ∀ r ∈ records, IsRecord r := by
  unfold readErrors
  cases errors.elements? with
  | none => exact ⟨fun ⟨_, h⟩ => (nomatch h), fun ⟨_, h, _⟩ => (nomatch h)⟩
  | some records =>
    simp only [mapM_isOk, readRecord_isOk]
    exact ⟨fun h => ⟨records, rfl, h⟩, fun ⟨_, hr, h⟩ => Option.some.inj hr ▸ h⟩

theorem readErrors_fault {errors : Datum} {fault : Fault} (h : readErrors errors = .error fault) :
    fault.isReport = false := by
  unfold readErrors at h
  split at h
  · obtain ⟨r, -, hr⟩ := mapM_eq_error h
    exact readRecord_fault hr
  · cases h
    rfl

/-! ## Bags -/

theorem readNotes_isOk {es : List (Datum × Datum)} :
    (∃ ns, readNotes es = .ok ns) ↔ ∀ e ∈ es, e.1.text?.isSome = true := by
  unfold readNotes
  rw [← List.all_eq_true]
  split
  · next h => exact ⟨fun _ => h, fun _ => ⟨_, rfl⟩⟩
  · next h => exact ⟨fun ⟨_, h'⟩ => (nomatch h'), fun h' => absurd h' h⟩

theorem readNotes_fault {es : List (Datum × Datum)} {fault : Fault}
    (h : readNotes es = .error fault) : fault.isReport = false := by
  unfold readNotes at h
  split at h
  · cases h
  · cases h
    rfl

/-- The values are read to the end just if each of them fits its key. -/
theorem readValues_isOk {es : List (Datum × Datum)} :
    (readValues es).2 = none ↔ ∀ e ∈ es, FitsValue e.1 e.2 := by
  rw [readValues_fault, List.findSome?_eq_none_iff]
  exact forall₂_congr fun e _ => valueFault?_eq_none

theorem receive_isOk : (∃ routing, (receive bag).routing = .ok routing) ↔ IsReadable bag := by
  constructor
  · rintro ⟨routing, h⟩
    unfold receive at h
    split at h
    · cases h
    · next ves hv =>
      split at h
      · cases h
      · next vs hvs =>
        split at h
        · cases h
        · next ps hp =>
          obtain ⟨es, he, h⟩ := bind_eq_ok.1 h
          obtain ⟨nes, hn, h⟩ := bind_eq_ok.1 h
          obtain ⟨ns, hns, -⟩ := bind_eq_ok.1 h
          have hfault : (readValues ves).2 = none := by rw [hvs]
          exact
            { values := memberEntries_isOk.1 ⟨ves, hv⟩
              fits := by
                rw [entries_of_ok hv]
                exact readValues_isOk.1 hfault
              presentation := memberEntries_isOk.1 ⟨ps, hp⟩
              errors := readErrors_isOk.1 ⟨es, he⟩
              answernotes := memberEntries_isOk.1 ⟨nes, hn⟩
              keys := by
                rw [entries_of_ok hn]
                exact readNotes_isOk.1 ⟨ns, hns⟩ }
  · intro h
    obtain ⟨ves, hv⟩ := memberEntries_isOk.2 h.values
    obtain ⟨ps, hp⟩ := memberEntries_isOk.2 h.presentation
    obtain ⟨es, he⟩ := readErrors_isOk.2 h.errors
    obtain ⟨nes, hn⟩ := memberEntries_isOk.2 h.answernotes
    have hkeys := h.keys
    rw [entries_of_ok hn] at hkeys
    obtain ⟨ns, hns⟩ := readNotes_isOk.2 hkeys
    have hfits := h.fits
    rw [entries_of_ok hv] at hfits
    have hfault := readValues_isOk.2 hfits
    cases hvs : readValues ves with
    | mk vs fault =>
      rw [hvs] at hfault
      obtain rfl : fault = none := hfault
      simp only [receive, hv, hvs, hp]
      exact ⟨_, bind_eq_ok.2 ⟨es, he, bind_eq_ok.2 ⟨nes, hn, bind_eq_ok.2 ⟨ns, hns, rfl⟩⟩⟩⟩

theorem receive_fault {fault : Fault} (h : (receive bag).routing = .error fault) :
    fault.isReport = false := by
  unfold receive at h
  split at h
  · next f hv =>
    cases h
    exact memberEntries_fault hv
  · next ves hv =>
    split at h
    · next vs f hvs =>
      cases h
      have hfault : (readValues ves).2 = some fault := by rw [hvs]
      rw [readValues_fault] at hfault
      obtain ⟨e, -, he⟩ := List.exists_of_findSome?_eq_some hfault
      exact valueFault?_isReport he
    · split at h
      · next f hp =>
        cases h
        exact memberEntries_fault hp
      · rcases bind_eq_error.1 h with h | ⟨es, -, h⟩
        · exact readErrors_fault h
        · rcases bind_eq_error.1 h with h | ⟨nes, -, h⟩
          · exact memberEntries_fault h
          · rcases bind_eq_error.1 h with h | ⟨ns, -, h⟩
            · exact readNotes_fault h
            · cases h

/-! ## Handing out -/

section

variable {count : Nat} {program : Program} {members : List Nat} {calls : List (Nat × Delivery)}

theorem outgoing_isOk : (∃ calls, outgoing count program bag = .ok calls) ↔
    bag.isTimedOut = true ∨ IsReadable bag := by
  cases ht : bag.isTimedOut with
  | true => exact ⟨fun _ => .inl rfl, fun _ => ⟨_, outgoing_timedOut ht⟩⟩
  | false =>
    rw [← receive_isOk, outgoing_inTime ht]
    cases (receive bag).routing with
    | ok routing => exact ⟨fun _ => .inr ⟨routing, rfl⟩, fun _ => ⟨_, rfl⟩⟩
    | error fault =>
      refine ⟨fun ⟨_, h⟩ => (nomatch h), fun h => ?_⟩
      rcases h with h | ⟨routing, h⟩
      · cases h
      · cases h

theorem outgoing_fault {fault : Fault} (h : outgoing count program bag = .error fault) :
    fault.isReport = false := by
  unfold outgoing at h
  split at h
  · cases h
  · cases hr : (receive bag).routing with
    | ok routing => rw [hr] at h; cases h
    | error f =>
      rw [hr] at h
      cases h
      exact receive_fault hr

theorem deliver_isReport {store : Store} {fault : Fault}
    (h : (store.deliver members calls).2 = some fault) : fault.isReport = false := by
  rw [deliver_fault] at h
  obtain ⟨⟨i, d⟩, -, hc⟩ := List.exists_of_findSome?_eq_some h
  split at hc
  · unfold Delivery.fault? at hc
    repeat' split at hc
    all_goals cases hc
    rfl
  · cases hc

/-- What a request is given can be handed out if its notes can be listed. -/
theorem callsFor_fault {q : Request} {i : Nat} (ht : bag.isTimedOut = false) :
    (∀ d ∈ callsFor q i bag, d.fault? = none) ↔ IsListable i bag := by
  unfold callsFor IsListable
  rw [if_neg (ne_true_of_eq_false ht), List.forall_mem_cons, fault?_status]
  have hresults : ∀ (v : Option Expr) (p : Option String),
      ∀ d ∈ (v.map Delivery.value).toList ++ (p.map Delivery.presentation).toList,
        d.fault? = none := by
    intro v p d hd
    rcases List.mem_append.1 hd with hd | hd
    · obtain ⟨e, -, rfl⟩ := Option.map_eq_some_iff.1 (Option.mem_toList.1 hd)
      rfl
    · obtain ⟨text, -, rfl⟩ := Option.map_eq_some_iff.1 (Option.mem_toList.1 hd)
      rfl
  constructor
  · rintro ⟨⟨listed, hl⟩, -⟩ d hd
    rw [hd] at hl
    exact ⟨listed, hl⟩
  · refine fun h => ⟨?_, hresults _ _⟩
    cases hlast : (Addressed.notes i bag).getLast? with
    | none => exact ⟨[], rfl⟩
    | some d => exact h d hlast

theorem orderly_timeout (requests : List Request) :
    Orderly requests (timeoutDeliveries requests.length) where
  statuses := by
    refine ⟨_, [], (List.append_nil _).symm, ?_, ?_, nofun⟩
    · rw [timeoutDeliveries, List.map_map]
      exact List.map_id _
    · intro c hc
      obtain ⟨i, -, rfl⟩ := List.mem_map.1 hc
      rfl
  each i q hq :=
    ⟨_, _, none, none, callsAt_range _ (List.getElem?_eq_some_iff.1 hq).1, nofun, nofun⟩
  within := by
    intro c hc
    obtain ⟨i, hi, rfl⟩ := List.mem_map.1 hc
    exact List.mem_range.1 hi

end

section

variable {s : Session} {store : Store} {calls : List (Nat × Delivery)} {options : Options} {seed : Int}
  (ho : outgoing s.members.length (s.program store options seed) bag = .ok calls)
include ho

theorem orderly_outgoing : Orderly (s.requests store) calls := by
  have hlength : (s.requests store).length = s.members.length := List.length_map _
  cases ht : bag.isTimedOut with
  | true =>
    obtain rfl := Except.ok.inj ((outgoing_timedOut ht).symm.trans ho)
    rw [← hlength]
    exact orderly_timeout _
  | false =>
    obtain ⟨routing, -, rfl⟩ := routing_of_outgoing ht ho
    exact orderly_deliveries _

theorem deliver_outgoing : (store.deliver s.members calls).2 = none ↔
    bag.isTimedOut = true ∨ ∀ i < s.members.length, IsListable i bag := by
  have hcalls : ∀ i (hi : i < s.members.length),
      callsAt i calls = callsFor (store.request s.members[i]) i bag := by
    intro i hi
    have hq : (s.requests store)[i]? = some (store.request s.members[i]) := by
      rw [Session.requests, List.getElem?_map, List.getElem?_eq_getElem hi, Option.map_some]
    have hlength : (s.requests store).length = s.members.length := List.length_map _
    exact callsAt_outgoing hq (hlength ▸ ho)
  have hposition : (store.deliver s.members calls).2 = none ↔ ∀ i (hi : i < s.members.length),
      ∀ d ∈ callsFor (store.request s.members[i]) i bag, d.fault? = none := by
    rw [deliver_eq_none]
    constructor
    · intro h i hi d hd
      rw [← hcalls i hi] at hd
      exact h (i, d) (mem_callsAt.1 hd) hi
    · rintro h ⟨i, d⟩ hc hi
      refine h i hi d ?_
      rw [← hcalls i hi]
      exact mem_callsAt.2 hc
  rw [hposition]
  cases ht : bag.isTimedOut with
  | true =>
    refine ⟨fun _ => .inl rfl, fun _ i hi d hd => ?_⟩
    rw [callsFor, if_pos ht, List.mem_singleton] at hd
    rw [hd]
    rfl
  | false =>
    simp only [callsFor_fault ht, Bool.false_eq_true, false_or]

end

/-! ## The promise -/

/-- Everybody gets the one status of the batch, in order, and then what else there is. -/
def Served (s : Session) (store store' : Store) : Prop :=
  ∃ calls, Orderly (s.requests store) calls ∧ store.deliver s.members calls = (store', none)

/-- Nothing has changed in a session and its requests, except for the record of the exchange. -/
structure Untouched (s : Session) (store : Store) (e : Session.Evaluation) : Prop where
  errors : e.session.errors = s.errors
  instantiated : e.session.instantiated = s.instantiated
  requests : ∀ m ∈ s.members, e.store.request m = store.request m

/-- An evaluation either serves everybody and returns or reports a failure and leaves everything as
it was. -/
def KeepsPromise (s : Session) (store : Store) (e : Session.Evaluation) : Prop :=
  ((∃ b, e.result = .ok b) ∧ Served s store e.store) ∨
    ((∃ fault, e.result = .error fault ∧ fault.isReport = true) ∧ Untouched s store e)

/-- Where the promise is kept, a fault is a report. -/
theorem KeepsPromise.isReport {s : Session} {store : Store} {e : Session.Evaluation} {fault : Fault}
    (h : KeepsPromise s store e) (hr : e.result = .error fault) : fault.isReport = true := by
  rcases h with ⟨⟨b, hb⟩, -⟩ | ⟨⟨fault', hf, hreport⟩, -⟩
  · cases hr.symm.trans hb
  · cases hr.symm.trans hf
    exact hreport

section

variable {s : Session} {store : Store} {call : String → Except Fault (Option String)}

/-- A batch without members keeps the promise whatever the engine is. -/
theorem keepsPromise_of_members_nil (hm : s.members = []) :
    KeepsPromise s store (s.instantiate store call) := by
  have he : s.instantiate store call =
      { session := { s with instantiated := true }, store, result := .ok true } := by
    unfold Session.instantiate
    rw [if_pos (by simp [hm])]
  have hrequests : s.requests store = [] := by rw [Session.requests, hm, List.map_nil]
  refine .inl ⟨⟨true, by rw [he]⟩, [], ?_, by rw [he]; rfl⟩
  rw [hrequests]
  exact orderly_timeout []

theorem not_keepsPromise_of_seedFault? {fault : Fault} (hm : s.members ≠ [])
    (hi : s.instantiated = false) (hv : s.valid store = true)
    (hseed : seedFault? s.seed = some fault) : ¬ KeepsPromise s store (s.instantiate store call) := by
  intro h
  have he := Session.instantiate_refused hm hi (.seed hv hseed) call
  have hreport : fault.isReport = true := h.isReport (by rw [he])
  rw [Session.isReport_of_seedFault? hseed] at hreport
  cases hreport

/-- What an answer brings keeps the promise exactly if the answer tells of a timeout or is in
shape. -/
theorem keepsPromise_iff_of_brings {e : Session.Evaluation} (hbrings : Brings s.members store
    (s.program store s.options s.seed) bag e.store e.result) :
    KeepsPromise s store e ↔ bag.isTimedOut = true ∨ InShape s.members.length bag := by
  constructor
  · intro h
    cases ho : outgoing s.members.length (s.program store s.options s.seed) bag with
    | error fault =>
      obtain ⟨-, hr⟩ := hbrings.unread fault ho
      cases (outgoing_fault ho).symm.trans (h.isReport hr)
    | ok calls =>
      obtain ⟨-, hr⟩ := hbrings.read calls ho
      cases hd : (store.deliver s.members calls).2 with
      | some fault =>
        rw [hd] at hr
        cases (deliver_isReport hd).symm.trans (h.isReport hr)
      | none =>
        rcases outgoing_isOk.1 ⟨calls, ho⟩ with ht | hread
        · exact .inl ht
        · exact ((deliver_outgoing ho).1 hd).imp_right fun hnotes => ⟨hread, hnotes⟩
  · intro hserve
    obtain ⟨calls, ho⟩ := outgoing_isOk.2 (hserve.imp_right InShape.toIsReadable)
    obtain ⟨hstore, hr⟩ := hbrings.read calls ho
    have hd := (deliver_outgoing ho).2 (hserve.imp_right InShape.notes)
    rw [hd] at hr
    exact .inl ⟨⟨_, hr⟩, calls, orderly_outgoing ho, Prod.ext hstore.symm hd⟩

end

/-- An answer keeps the promise exactly if it tells of a timeout or is in shape, where the seed can be
written; a batch without members needs neither. -/
theorem instantiate_iff_inShape {s : Session} {store : Store}
    {call : String → Except Fault (Option String)} (hi : s.instantiated = false)
    (hv : s.valid store = true)
    (ha : answered (call (s.program store s.options s.seed).text) = .ok bag) :
    KeepsPromise s store (s.instantiate store call) ↔
      s.members = [] ∨
        seedFault? s.seed = none ∧ (bag.isTimedOut = true ∨ InShape s.members.length bag) := by
  by_cases hm : s.members = []
  · exact iff_of_true (keepsPromise_of_members_nil hm) (.inl hm)
  rw [or_iff_right hm]
  cases hseed : seedFault? s.seed with
  | some fault =>
    refine iff_of_false (not_keepsPromise_of_seedFault? hm hi hv hseed) ?_
    exact fun h => Option.some_ne_none fault h.1
  | none =>
    rw [keepsPromise_iff_of_brings (Session.brings_instantiate hm hi hv hseed ha)]
    exact (and_iff_right rfl).symm

/-- One plain statement. -/
def loneStore : Store :=
  .ofList [.statement
    { kind := .plain, source := .str "x", context := "c", expr := some (.identifier "x"),
      parseErrors := [] }]

def lone : Session := { members := [0], options := {}, seed := 1 }

theorem seedFault?_lone : seedFault? lone.seed = none := by decide +kernel

/-- The output of an engine that answers with error records. -/
def errorOutput (records : String) : Except Fault (Option String) :=
  .ok (some ("STACK-OUTPUT-BEGINS>\x7b\"errors\":" ++ records ++ "\x7d<STACK-OUTPUT-ENDS"))

def errorBag (records : List Datum) : Bag :=
  [(.str "errors", .list records), (.str "timeout", .bool false)]

/-- A record with messages, a context and a position. -/
def wholeRecord : Datum := .list [.list [.str "m"], .str "c", .int 0]

theorem inShape_wholeRecord : InShape 1 (errorBag [wholeRecord]) where
  values := nofun
  fits := nofun
  presentation := nofun
  errors := by
    refine ⟨[wholeRecord], rfl, List.forall_mem_singleton.2 ⟨⟨_, rfl⟩, 0, rfl⟩⟩
  answernotes := nofun
  keys := nofun
  notes := nofun

theorem keepsPromise_wholeRecord :
    KeepsPromise lone loneStore
      (lone.instantiate loneStore fun _ => errorOutput "[[[\"m\"],\"c\",0]]") := by
  have ha : answered (errorOutput "[[[\"m\"],\"c\",0]]") = .ok (errorBag [wholeRecord]) := by cbv
  exact (@instantiate_iff_inShape _ lone loneStore (fun _ => errorOutput _) rfl rfl ha).2
    (.inr ⟨seedFault?_lone, .inr inShape_wholeRecord⟩)

/-- A record without a position. -/
def shortRecord : Datum := .list [.list [.str "m"], .str "c"]

/-- An answer with a record without a position makes the evaluation fail with a fault that is no
report, and the errors of the session have been replaced by then. -/
theorem not_keepsPromise_shortRecord :
    let e := lone.instantiate loneStore fun _ => errorOutput "[[[\"m\"],\"c\"]]"
    e.result = .error .missingIndex ∧ lone.errors = .list [] ∧
      e.session.errors = .list [shortRecord] ∧ ¬ KeepsPromise lone loneStore e := by
  have ha : answered (errorOutput "[[[\"m\"],\"c\"]]") = .ok (errorBag [shortRecord]) := by cbv
  have hresult : (lone.instantiate loneStore fun _ => errorOutput "[[[\"m\"],\"c\"]]").result =
      .error .missingIndex := by decide +kernel
  have herrors : (lone.instantiate loneStore
      fun _ => errorOutput "[[[\"m\"],\"c\"]]").session.errors = .list [shortRecord] := by
    rw [@Session.errors_answered lone loneStore _ (fun _ => errorOutput "[[[\"m\"],\"c\"]]")
      (List.cons_ne_nil _ _) rfl rfl seedFault?_lone rfl ha]
    rfl
  exact ⟨hresult, rfl, herrors, fun h => Bool.false_ne_true (h.isReport hresult)⟩

end AlgebraBatch.Batch
