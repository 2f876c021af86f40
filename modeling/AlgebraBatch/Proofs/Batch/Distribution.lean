import AlgebraBatch.Batch.Session
import AlgebraBatch.Proofs.Batch.Addressed

/-!
# Distributing the engine's answer

`Session.handed` is what a session hands out for a bag, in order. A bag is handed out `Orderly`:
first every position gets its status, in order, and then values and presentations come, at most one
of each for a position and only where they are collected. What a set of positions gets depends only
on what the bag addresses to these positions (`filter_deliveries`).
-/

namespace AlgebraBatch.Batch

open AlgebraBatch.Engine Addressed

namespace Delivery

def isStatus : Delivery → Bool
  | status _ _ => true
  | _ => false

end Delivery

/-- The calls to the request at a position, in order. -/
def callsAt (i : Nat) (calls : List (Nat × Delivery)) : List Delivery :=
  (calls.filter fun c => c.1 == i).map Prod.snd

/-- The calls to a member, which may stand at several positions. -/
def received (members : List Nat) (m : Nat) (calls : List (Nat × Delivery)) : List Delivery :=
  (calls.filter fun c => members[c.1]? == some m).map Prod.snd

/-- What a session hands out for a bag. -/
def Session.handed (program : Program) (bag : Bag) : List (Nat × Delivery) :=
  match (receive bag).routing with
  | .ok routing => routing.deliveries program.records
  | .error _ => []

/-! ## Isolation -/

section Isolation

variable {b b' : Bag} {routing routing' : Routing} (hr : Reads b routing) (hr' : Reads b' routing')
include hr hr'

theorem resultsOf_eq {r : Record} (h : Agree r.index b b') :
    routing.resultsOf r = routing'.resultsOf r := by
  have hv : routing.valueAt? r.key = routing'.valueAt? r.key := by
    rw [Record.key, hr.valueAt?, hr'.valueAt?, h.value]
  have hp : routing.presentationAt? r.key = routing'.presentationAt? r.key := by
    rw [Record.key, hr.presentationAt?, hr'.presentationAt?, h.presentation]
  rw [Routing.resultsOf, Routing.resultsOf, hv, hp]

theorem status_eq {i : Nat} (h : Agree i b b') :
    Delivery.status (routing.errorsAt i) (routing.notesAt i) =
      .status (routing'.errorsAt i) (routing'.notesAt i) := by
  rw [hr.errorsAt, hr'.errorsAt, hr.notesAt, hr'.notesAt, h.records, h.unreadables, h.notes]

omit hr hr' in
theorem fst_of_mem_resultsOf {r : Record} {c : Nat × Delivery} (h : c ∈ routing.resultsOf r) :
    c.1 = r.index := by
  unfold Routing.resultsOf at h
  simp only [List.mem_append, Option.mem_toList, Option.map_eq_some_iff] at h
  rcases h with ⟨_, _, rfl⟩ | ⟨_, _, rfl⟩
  · rfl
  · rfl

/-- What a set of positions gets, in order, depends on nothing that is addressed elsewhere. -/
theorem filter_deliveries {P : Nat → Bool} (h : ∀ i, P i = true → Agree i b b')
    (records : List Record) :
    (routing.deliveries records).filter (fun c => P c.1) =
      (routing'.deliveries records).filter fun c => P c.1 := by
  rw [Routing.deliveries, Routing.deliveries, List.filter_append, List.filter_append]
  congr 1
  · rw [Routing.statuses, Routing.statuses, List.filter_map, List.filter_map]
    refine List.map_congr_left fun i hi => ?_
    have hP : P i = true := (List.mem_filter.1 hi).2
    rw [status_eq hr hr' (h i hP)]
  · rw [List.filter_flatMap, List.filter_flatMap]
    congr 1
    funext r
    cases hP : P r.index with
    | true => rw [resultsOf_eq hr hr' (h r.index hP)]
    | false =>
      have none_of (routing : Routing) : (routing.resultsOf r).filter (fun c => P c.1) = [] := by
        refine List.filter_eq_nil_iff.2 fun c hc => ?_
        rw [fst_of_mem_resultsOf hc, hP]
        nofun
      rw [none_of, none_of]

end Isolation

/-! ## Order -/

/-- How results are handed out to the requests of a batch. -/
structure Orderly (requests : List Request) (calls : List (Nat × Delivery)) : Prop where
  /-- Every request gets one status, in the order of the batch, before anything else comes. -/
  statuses : ∃ first later, calls = first ++ later ∧
    first.map Prod.fst = List.range requests.length ∧
    (∀ c ∈ first, c.2.isStatus = true) ∧ ∀ c ∈ later, c.2.isStatus = false
  /-- A request gets its status, at most one value and at most one presentation, and these only if
  they are collected from it. -/
  each : ∀ i q, requests[i]? = some q → ∃ errors notes, ∃ (v : Option Expr) (p : Option String),
    callsAt i calls = .status errors notes ::
      ((v.map Delivery.value).toList ++ (p.map Delivery.presentation).toList) ∧
    (v.isSome → q.collectsValue = true) ∧ (p.isSome → q.collectsPresentation = true)
  within : ∀ c ∈ calls, c.1 < requests.length

theorem callsAt_append (i : Nat) (cs ds : List (Nat × Delivery)) :
    callsAt i (cs ++ ds) = callsAt i cs ++ callsAt i ds := by
  rw [callsAt, List.filter_append, List.map_append]
  rfl

variable {routing : Routing}

theorem callsAt_range (f : Nat → Delivery) {i count : Nat} (h : i < count) :
    callsAt i ((List.range count).map fun j => (j, f j)) = [f i] := by
  have hi : (List.range count).filter (fun j => j == i) = [i] := by
    rw [List.filter_beq, List.nodup_range.count, if_pos (List.mem_range.2 h)]
    rfl
  rw [callsAt, List.filter_map]
  change List.map _ (List.map _ ((List.range count).filter fun j => j == i)) = _
  rw [hi]
  rfl

theorem callsAt_statuses {i count : Nat} (h : i < count) :
    callsAt i (routing.statuses count) = [.status (routing.errorsAt i) (routing.notesAt i)] :=
  callsAt_range (fun j => .status (routing.errorsAt j) (routing.notesAt j)) h

theorem callsAt_resultsOf (i : Nat) (r : Record) :
    callsAt i (routing.resultsOf r) =
      if r.index = i then (routing.resultsOf r).map Prod.snd else [] := by
  unfold callsAt
  split
  · next h =>
    rw [List.filter_eq_self.2 fun c hc => by rw [fst_of_mem_resultsOf hc, h, beq_self_eq_true]]
  · next h =>
    rw [List.filter_eq_nil_iff.2 fun c hc => by rw [fst_of_mem_resultsOf hc]; simpa using h]
    rfl

theorem callsAt_results_lt (rs : List Request) : ∀ {start i : Nat}, i < start →
    callsAt i ((planFrom start rs).flatMap routing.resultsOf) = [] := by
  induction rs with
  | nil => exact fun _ => rfl
  | cons q rs ih =>
    intro start i h
    have hne : (Record.ofRequest q start).index ≠ i := Nat.ne_of_gt h
    rw [planFrom, List.flatMap_cons, callsAt_append, callsAt_resultsOf, if_neg hne,
      ih (Nat.lt_succ_of_lt h)]
    rfl

/-- What the engine brings for a position goes to the request there. -/
theorem callsAt_results (rs : List Request) : ∀ (start k : Nat),
    callsAt (start + k) ((planFrom start rs).flatMap routing.resultsOf) =
      (rs[k]?).elim [] fun q => (routing.resultsOf (.ofRequest q (start + k))).map Prod.snd := by
  induction rs with
  | nil => exact fun _ _ => rfl
  | cons q rs ih =>
    intro start k
    rw [planFrom, List.flatMap_cons, callsAt_append, callsAt_resultsOf]
    cases k with
    | zero =>
      rw [callsAt_results_lt rs (Nat.lt_succ_self _), List.append_nil]
      exact if_pos rfl
    | succ k =>
      have hne : (Record.ofRequest q start).index ≠ start + (k + 1) :=
        Nat.ne_of_lt (Nat.lt_add_of_pos_right (Nat.succ_pos k))
      have hs : start + (k + 1) = start + 1 + k := by omega
      rw [if_neg hne, hs, ih (start + 1) k]
      rfl

theorem length_planFrom (rs : List Request) : ∀ start, (planFrom start rs).length = rs.length := by
  induction rs with
  | nil => exact fun _ => rfl
  | cons r rs ih => exact fun start => congrArg (· + 1) (ih (start + 1))

theorem index_of_mem_planFrom {rs : List Request} {r : Record} : ∀ {start}, r ∈ planFrom start rs →
    r.index < start + rs.length := by
  induction rs with
  | nil => exact nofun
  | cons q rs ih =>
    intro start h
    rw [List.length_cons]
    rcases List.mem_cons.1 h with rfl | h
    · exact Nat.lt_add_of_pos_right (Nat.succ_pos _)
    · have := ih h
      omega

theorem not_isStatus_of_mem_resultsOf {r : Record} {c : Nat × Delivery}
    (h : c ∈ routing.resultsOf r) : c.2.isStatus = false := by
  unfold Routing.resultsOf at h
  simp only [List.mem_append, Option.mem_toList, Option.map_eq_some_iff] at h
  rcases h with ⟨_, _, rfl⟩ | ⟨_, _, rfl⟩
  · rfl
  · rfl

/-- A request gets its status and then what is brought for its record. -/
theorem callsAt_deliveries {requests : List Request} {i : Nat} {q : Request}
    (hq : requests[i]? = some q) :
    callsAt i (routing.deliveries (plan requests)) =
      .status (routing.errorsAt i) (routing.notesAt i) ::
        (routing.resultsOf (.ofRequest q i)).map Prod.snd := by
  have hi : i < requests.length := (List.getElem?_eq_some_iff.1 hq).1
  have hres : callsAt (0 + i) ((planFrom 0 requests).flatMap routing.resultsOf) = _ :=
    callsAt_results requests 0 i
  rw [Nat.zero_add, hq, Option.elim_some] at hres
  rw [Routing.deliveries, callsAt_append, plan, length_planFrom, callsAt_statuses hi, hres,
    List.singleton_append]

theorem orderly_deliveries (requests : List Request) :
    Orderly requests (routing.deliveries (plan requests)) where
  statuses := by
    refine ⟨_, _, rfl, ?_, ?_, ?_⟩
    · rw [Routing.statuses, List.map_map, plan, length_planFrom]
      exact List.map_id _
    · intro c hc
      obtain ⟨i, -, rfl⟩ := List.mem_map.1 hc
      rfl
    · intro c hc
      obtain ⟨r, -, hr⟩ := List.mem_flatMap.1 hc
      exact not_isStatus_of_mem_resultsOf hr
  each i q hq := by
    refine ⟨routing.errorsAt i, routing.notesAt i,
      if q.collectsValue then routing.valueAt? (Key.key i) else none,
      if q.collectsPresentation then routing.presentationAt? (Key.key i) else none, ?_, ?_, ?_⟩
    · rw [callsAt_deliveries hq, Routing.resultsOf, List.map_append, ← Option.toList_map,
        ← Option.toList_map, Option.map_map, Option.map_map]
      rfl
    · intro h
      split at h
      · assumption
      · cases h
    · intro h
      split at h
      · assumption
      · cases h
  within := by
    intro c hc
    rcases List.mem_append.1 hc with hc | hc
    · obtain ⟨i, hi, rfl⟩ := List.mem_map.1 hc
      rw [plan, length_planFrom] at hi
      exact List.mem_range.1 hi
    · obtain ⟨r, hr, hc⟩ := List.mem_flatMap.1 hc
      have := index_of_mem_planFrom hr
      rw [fst_of_mem_resultsOf hc]
      omega

/-! ## Handing out -/

/-- A request after the calls that it received. -/
def Request.after (r : Request) (calls : List Delivery) : Request :=
  calls.foldl (fun r d => (d.handTo r).1) r

/-- Where nothing is refused, every request has received its calls, in order. -/
theorem request_deliver {members : List Nat} {calls : List (Nat × Delivery)} :
    ∀ {store : Store}, (store.deliver members calls).2 = none → ∀ m,
      (store.deliver members calls).1.request m =
        Request.after (store.request m) (received members m calls) := by
  induction calls with
  | nil => exact fun _ _ => rfl
  | cons c calls ih =>
    obtain ⟨position, d⟩ := c
    intro store h m
    rw [Store.deliver] at h ⊢
    rw [received, List.filter_cons]
    split at h
    · next hm =>
      rw [hm, if_neg (show ¬(none == some m) = true from Bool.false_ne_true)]
      exact ih h m
    · next i hm =>
      cases hf : (d.handTo (store.request i)).2 with
      | some fault =>
        rw [show d.handTo (store.request i) = (_, some fault) from Prod.ext rfl hf] at h
        cases h
      | none =>
        have hd : d.handTo (store.request i) = ((d.handTo (store.request i)).1, none) :=
          Prod.ext rfl hf
        rw [hd] at h
        rw [hm, hd]
        refine (ih h m).trans ?_
        by_cases him : i = m
        · subst him
          rw [if_pos (beq_self_eq_true _), Store.put]
          simp only [if_true]
          rfl
        · rw [if_neg (by simpa using him), Store.put]
          simp only [if_neg (Ne.symm him)]
          rfl

/-- A distribution that returns hands out what the bag calls for, to everyone. -/
theorem distribute_ok {s : Session} {store : Store} {program : Program} {bag : Bag} {b : Bool}
    (h : (s.distribute store program bag).result = .ok b) :
    ∃ routing, (receive bag).routing = .ok routing ∧
      Session.handed program bag = routing.deliveries program.records ∧
      (store.deliver s.members (Session.handed program bag)).2 = none ∧
      (s.distribute store program bag).store =
        (store.deliver s.members (Session.handed program bag)).1 := by
  unfold Session.distribute at h ⊢
  unfold Session.handed
  cases hr : (receive bag).routing with
  | error fault =>
    simp only [hr] at h
    cases h
  | ok routing =>
    simp only [hr] at h ⊢
    refine ⟨routing, rfl, rfl, ?_⟩
    cases hd : store.deliver s.members (routing.deliveries program.records) with
    | mk store' fault =>
      rw [hd] at h
      cases fault with
      | some fault => cases h
      | none => exact ⟨rfl, rfl⟩

/-! ## Two bags -/

section Distribution

variable {s : Session} {store : Store} {options : Options} {seed : Int} {b b' : Bag}

/-- The program of a session's batch. -/
abbrev Session.program (s : Session) (store : Store) (options : Options) (seed : Int) : Program :=
  compile options seed (s.requests store)

/-- Where two distributions return, the calls to the request at a position depend only on what the
bags address to the position; both are orderly, and each request ends as its calls leave it. -/
theorem distribute_isolated
    (h : ∃ r, (s.distribute store (s.program store options seed) b).result = .ok r)
    (h' : ∃ r, (s.distribute store (s.program store options seed) b').result = .ok r) :
    (∀ i, Agree i b b' →
      callsAt i (Session.handed (s.program store options seed) b) =
        callsAt i (Session.handed (s.program store options seed) b')) ∧
    (∀ m, (∀ i, s.members[i]? = some m → Agree i b b') →
      received s.members m (Session.handed (s.program store options seed) b) =
        received s.members m (Session.handed (s.program store options seed) b')) ∧
    ∀ c, c = b ∨ c = b' →
      Orderly (s.requests store) (Session.handed (s.program store options seed) c) ∧
      ∀ m, (s.distribute store (s.program store options seed) c).store.request m =
        Request.after (store.request m)
          (received s.members m (Session.handed (s.program store options seed) c)) := by
  obtain ⟨_, h⟩ := h
  obtain ⟨_, h'⟩ := h'
  obtain ⟨routing, hr, hh, hd, hs⟩ := distribute_ok h
  obtain ⟨routing', hr', hh', hd', hs'⟩ := distribute_ok h'
  have hreads := reads_of_receive hr
  have hreads' := reads_of_receive hr'
  refine ⟨fun i hi => ?_, fun m hm => ?_, ?_⟩
  · rw [hh, hh', callsAt, callsAt, filter_deliveries hreads hreads' (P := fun j => j == i)]
    intro j hj
    obtain rfl := eq_of_beq hj
    exact hi
  · rw [hh, hh', received, received,
      filter_deliveries hreads hreads' (P := fun j => s.members[j]? == some m)]
    exact fun j hj => hm j (eq_of_beq hj)
  · rintro c (rfl | rfl)
    · refine ⟨hh ▸ orderly_deliveries _, fun m => ?_⟩
      rw [hs, request_deliver hd]
    · refine ⟨hh' ▸ orderly_deliveries _, fun m => ?_⟩
      rw [hs', request_deliver hd']

end Distribution

/-- Two requests whose values are collected. -/
def twoProbes : Store :=
  let probe (form : String) : Request := .probe
    { form, context := "", key := "", valid := true, collectsValue := true,
      collectsPresentation := false }
  .ofList [probe "1", probe "2"]

def pairSession : Session := { members := [0, 1], options := {}, seed := 0 }

/-- A bag with a value for each of them and with error records. -/
def pairBag (second : String) (errors : List Datum) : Bag :=
  [(.str "values", .map [(.str "__e_smt_0", .str "1"), (.str "__e_smt_1", .str second)]),
    (.str "errors", .list errors)]

/-- The first request does not notice that the second one fails. -/
theorem callsAt_pairBag :
    callsAt 0 (Session.handed (pairSession.program twoProbes {} 0) (pairBag "2" [])) =
      callsAt 0 (Session.handed (pairSession.program twoProbes {} 0)
        (pairBag "(" [.list [.list [.str "failed"], .str "", .int 1]])) :=
  (@distribute_isolated pairSession twoProbes {} 0 _ _ ⟨true, rfl⟩ ⟨true, rfl⟩).1 0
    ⟨rfl, rfl, rfl, rfl, rfl⟩

end AlgebraBatch.Batch
