import AlgebraBatch.Batch.Routing
import AlgebraBatch.Proofs.Except

/-!
# What a bag addresses to a position

A bag names positions in four ways: by the exact key of a value or a presentation, by the position
that a key of an unreadable value or of notes names, and by the third part of an error record.
`Agree i b b'`: two bags have the same for position `i`. What a routing says of a position depends
only on what its bag addresses to it.
-/

namespace AlgebraBatch.Batch

open AlgebraBatch.Engine

namespace Addressed

/-- The entries of a member of a bag, none if it is no map. -/
def entries (name : String) (bag : Bag) : List (Datum × Datum) :=
  match bag.member? name with
  | some (.map es) => es
  | _ => []

/-- The value under the key of a position. -/
def value? (i : Nat) (bag : Bag) : Option Datum :=
  Datum.lookup (.str (Key.key i)) (entries "values" bag)

/-- The presentation under the key of a position. -/
def presentation? (i : Nat) (bag : Bag) : Option Datum :=
  Datum.lookup (.str (Key.key i)) (entries "presentation" bag)

/-- The text that could not be read. -/
def unreadText? : Reading → Option String
  | .unreadable text _ => some text
  | _ => none

/-- The text of a value that is a text and no expression. -/
def unreadable? (d : Datum) : Option String :=
  match Reading.of d with
  | .ok reading => unreadText? reading
  | .error _ => none

/-- The unreadable values whose keys name a position, in order. -/
def unreadables (i : Nat) (bag : Bag) : List String :=
  ((entries "values" bag).filter fun e => position? e.1 == some (i : Int)).filterMap fun e =>
    unreadable? e.2

/-- The position that an error record names. -/
def recordPosition (record : Datum) : Except Fault Int :=
  (recordPart 2 record).bind Datum.toInteger

/-- A record names a position. -/
def names (i : Nat) (record : Datum) : Bool :=
  match recordPosition record with
  | .ok j => j == (i : Int)
  | .error _ => false

/-- The error records of a bag. -/
def errorRecords (bag : Bag) : List Datum :=
  ((bag.member? "errors").getD (.list [])).elements?.getD []

/-- The error records that name a position, in order. -/
def records (i : Nat) (bag : Bag) : List Datum :=
  (errorRecords bag).filter (names i)

/-- The notes whose keys name a position, in order. -/
def notes (i : Nat) (bag : Bag) : List Datum :=
  ((entries "answernotes" bag).filter fun e => position? e.1 == some (i : Int)).map Prod.snd

end Addressed

open Addressed in
/-- Two bags have the same for a position. -/
structure Agree (i : Nat) (b b' : Bag) : Prop where
  value : value? i b = value? i b'
  presentation : presentation? i b = presentation? i b'
  unreadables : unreadables i b = unreadables i b'
  records : records i b = records i b'
  notes : notes i b = notes i b'

/-! ## Reading -/

theorem entries_of_ok {name : String} {bag : Bag} {es : List (Datum × Datum)}
    (h : memberEntries name bag = .ok es) : Addressed.entries name bag = es := by
  unfold memberEntries at h
  unfold Addressed.entries
  cases hm : bag.member? name with
  | none => rw [hm] at h; cases h; rfl
  | some d =>
    rw [hm] at h
    cases d with
    | map entries => cases h; rfl
    | _ =>
      simp only at h
      split at h
      · cases h
      · cases h; rfl

/-- The readings of values, where none of them is at fault. -/
theorem readValues_ok {es : List (Datum × Datum)} {vs : List (Datum × Reading)}
    (h : readValues es = (vs, none)) :
    List.Forall₂ (fun e v => v.1 = e.1 ∧ Reading.of e.2 = .ok v.2) es vs := by
  induction es generalizing vs with
  | nil => cases h; exact .nil
  | cons e es ih =>
    obtain ⟨key, d⟩ := e
    rw [readValues] at h
    split at h
    · cases h
    · next r hr =>
      split at h
      · cases h
      · cases hes : readValues es with
        | mk rs fault =>
          rw [hes] at h
          cases h
          exact .cons ⟨rfl, hr⟩ (ih hes)

/-- A routing holds what the bag says, part by part. -/
structure Reads (bag : Bag) (routing : Routing) : Prop where
  values : List.Forall₂ (fun e v => v.1 = e.1 ∧ Reading.of e.2 = .ok v.2)
    (Addressed.entries "values" bag) routing.values
  presentations : routing.presentations = Addressed.entries "presentation" bag
  errors : List.Forall₂ (fun d r => readRecord d = .ok r) (Addressed.errorRecords bag) routing.errors
  notes : routing.notes = (Addressed.entries "answernotes" bag).filterMap fun e =>
    (position? e.1).map fun i => (i, e.2)

theorem reads_of_receive {bag : Bag} {routing : Routing} (h : (receive bag).routing = .ok routing) :
    Reads bag routing := by
  unfold receive at h
  split at h
  · cases h
  · next ves hv =>
    split at h
    · cases h
    · next vs hvs =>
      split at h
      · cases h
      · next ps hp =>
        obtain ⟨es, he, h⟩ := bind_eq_ok.1 h
        obtain ⟨nes, hn, h⟩ := bind_eq_ok.1 h
        obtain ⟨ns, hns, h⟩ := bind_eq_ok.1 h
        cases h
        refine ⟨?_, (entries_of_ok hp).symm, ?_, ?_⟩
        · rw [entries_of_ok hv]
          exact readValues_ok hvs
        · unfold readErrors at he
          unfold Addressed.errorRecords
          split at he
          · next rs hr =>
            rw [hr]
            exact mapM_eq_ok.1 he
          · cases he
        · unfold readNotes at hns
          rw [entries_of_ok hn]
          split at hns
          · cases hns; rfl
          · cases hns

/-! ## What a routing says of a position -/

namespace Addressed

/-- The expression of a value that is one. -/
def readable? (d : Datum) : Option Expr :=
  match Reading.of d with
  | .ok (.value e) => some e
  | _ => none

/-- The messages of a record. -/
def messages (record : Datum) : List Datum :=
  match recordMessages record with
  | .ok ms => ms
  | .error _ => []

end Addressed

open Addressed

theorem find_value {es : List (Datum × Datum)} {vs : List (Datum × Reading)}
    (h : List.Forall₂ (fun e v => v.1 = e.1 ∧ Reading.of e.2 = .ok v.2) es vs) (key : Datum) :
    ((vs.find? fun v => v.1.equalAtom key).bind fun v => v.2.value?) =
      (Datum.lookup key es).bind readable? := by
  induction h with
  | nil => rfl
  | @cons e v es vs hv _ ih =>
    obtain ⟨k, d⟩ := e
    obtain ⟨k', r⟩ := v
    obtain ⟨hk, hr⟩ := hv
    obtain rfl : k' = k := hk
    rw [List.find?_cons, Datum.lookup]
    cases hkey : k'.equalAtom key with
    | true =>
      simp only [Option.bind_some, if_true]
      rw [readable?, show Reading.of d = .ok r from hr]
      cases r <;> rfl
    | false => simpa using ih

theorem filterMap_unreadable {es : List (Datum × Datum)} {vs : List (Datum × Reading)}
    (h : List.Forall₂ (fun e v => v.1 = e.1 ∧ Reading.of e.2 = .ok v.2) es vs) (i : Int) :
    (vs.filterMap fun (key, reading) =>
      match reading with
      | .unreadable text _ => if position? key == some i then some text else none
      | _ => none) =
      (es.filter fun e => position? e.1 == some i).filterMap fun e => unreadable? e.2 := by
  induction h with
  | nil => rfl
  | @cons e v es vs hv _ ih =>
    obtain ⟨k, d⟩ := e
    obtain ⟨k', r⟩ := v
    obtain ⟨hk, hr⟩ := hv
    obtain rfl : k' = k := hk
    have hu : unreadable? d = unreadText? r := by
      rw [unreadable?, show Reading.of d = .ok r from hr]
    rw [List.filterMap_cons, List.filter_cons, ih]
    cases hp : position? k' == some i with
    | true =>
      simp only [hp, if_true, List.filterMap_cons, hu]
      cases r <;> rfl
    | false =>
      simp only [hp, Bool.false_eq_true, if_false]
      cases r <;> rfl

theorem filter_errors {rs : List Datum} {es : List (Int × List Datum)}
    (h : List.Forall₂ (fun d r => readRecord d = .ok r) rs es) (i : Nat) :
    (es.filter fun (position, _) => position == (i : Int)).map Prod.snd =
      (rs.filter (names i)).map messages := by
  induction h with
  | nil => rfl
  | @cons d r rs es hr _ ih =>
    obtain ⟨position, ms⟩ := r
    obtain ⟨ms', hm, h⟩ := bind_eq_ok.1 hr
    obtain ⟨part, hpart, h⟩ := bind_eq_ok.1 h
    obtain ⟨position', hp, h⟩ := bind_eq_ok.1 h
    cases h
    have hn : names i d = (position == (i : Int)) := by
      have hpos : recordPosition d = .ok position := bind_eq_ok.2 ⟨part, hpart, hp⟩
      rw [names, hpos]
    have hms : messages d = ms := by rw [messages, hm]
    cases hb : position == (i : Int) with
    | true => simp only [List.filter_cons, hn, hb, if_true, List.map_cons, hms, ih]
    | false => simpa only [List.filter_cons, hn, hb, if_false, Bool.false_eq_true] using ih

theorem filter_notes (es : List (Datum × Datum)) (i : Int) :
    ((es.filterMap fun e => (position? e.1).map fun j => (j, e.2)).filter fun (position, _) =>
      position == i).map Prod.snd =
      (es.filter fun e => position? e.1 == some i).map Prod.snd := by
  induction es with
  | nil => rfl
  | cons e es ih =>
    rw [List.filterMap_cons, List.filter_cons]
    cases hp : position? e.1 with
    | none => simpa using ih
    | some j =>
      simp only [Option.map_some, List.filter_cons]
      by_cases hj : j = i
      · simp only [hj, beq_self_eq_true, if_true, List.map_cons, ih]
      · simpa [hj] using ih

section Reads

variable {bag : Bag} {routing : Routing} (h : Reads bag routing) (i : Nat)
include h

theorem Reads.valueAt? : routing.valueAt? (Key.key i) = (value? i bag).bind readable? :=
  find_value h.values _

theorem Reads.presentationAt? :
    routing.presentationAt? (Key.key i) = (presentation? i bag).bind Datum.text? := by
  rw [Routing.presentationAt?, h.presentations]
  rfl

theorem Reads.unreadableAt : routing.unreadableAt i = unreadables i bag :=
  filterMap_unreadable h.values _

/-- The messages at a position, the last record first. -/
theorem Reads.messagesAt : routing.messagesAt i = (records i bag).reverse.flatMap messages := by
  have he := congrArg List.reverse (filter_errors h.errors i)
  rw [← List.map_reverse, ← List.map_reverse, ← List.filter_reverse] at he
  rw [Routing.messagesAt, List.flatMap_def, he, ← List.flatMap_def]
  rfl

theorem Reads.errorsAt : routing.errorsAt i =
    (records i bag).reverse.flatMap messages ++ (unreadables i bag).map unreadableMessage := by
  rw [Routing.errorsAt, h.messagesAt, h.unreadableAt]

theorem Reads.notesAt : routing.notesAt i = (Addressed.notes i bag).getLast?.getD (.list []) := by
  have hn : Addressed.notes i bag =
      (routing.notes.filter fun (position, _) => position == (i : Int)).map Prod.snd := by
    rw [h.notes]
    exact (filter_notes _ _).symm
  rw [hn, List.getLast?_map, Routing.notesAt]
  cases (routing.notes.filter fun (position, _) => position == (i : Int)).getLast? <;> rfl

end Reads

end AlgebraBatch.Batch
