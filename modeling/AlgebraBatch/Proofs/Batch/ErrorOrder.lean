import AlgebraBatch.Proofs.Batch.Distribution

/-!
# The order of errors

A request is given the messages of all the error records at its position, and after them a message
for each value there that cannot be read; none is lost and none comes twice. The values keep their
order, but the records come with the last one first, since the messages of each record are placed
before those that are there already. So the errors stand in the order of the bag only if the
messages at the position are the same from both ends.
-/

namespace AlgebraBatch.Batch

open AlgebraBatch.Engine Addressed

/-- The errors in a call. -/
def Delivery.errors : Delivery → List Datum
  | status errors _ => errors
  | _ => []

/-- All the errors that the request at a position is given. -/
def givenErrors (i : Nat) (calls : List (Nat × Delivery)) : List Datum :=
  (callsAt i calls).flatMap Delivery.errors

/-- The errors that a bag has for a position, in the order of the bag. -/
def errorsInOrder (i : Nat) (bag : Bag) : List Datum :=
  (records i bag).flatMap messages ++ (unreadables i bag).map unreadableMessage

/-- The first requests are given their errors in the order of the bag. -/
def KeepsOrder (count : Nat) (bag : Bag) (calls : List (Nat × Delivery)) : Prop :=
  ∀ i < count, givenErrors i calls = errorsInOrder i bag

/-- Only the status of a request has errors. -/
theorem errors_resultsOf (routing : Routing) (r : Record) :
    ((routing.resultsOf r).map Prod.snd).flatMap Delivery.errors = [] := by
  refine List.flatMap_eq_nil_iff.2 fun d hd => ?_
  obtain ⟨c, hc, rfl⟩ := List.mem_map.1 hd
  have hstatus := not_isStatus_of_mem_resultsOf hc
  cases hdelivery : c.2 with
  | status errors notes =>
    rw [hdelivery] at hstatus
    cases hstatus
  | _ => rfl

theorem givenErrors_deliveries (routing : Routing) {requests : List Request} {i : Nat}
    (hi : i < requests.length) :
    givenErrors i (routing.deliveries (plan requests)) = routing.errorsAt i := by
  rw [givenErrors, callsAt_deliveries (List.getElem?_eq_getElem hi), List.flatMap_cons,
    errors_resultsOf, List.append_nil, Delivery.errors]

/-- A bag that can be read leaves its own error records with the session. -/
theorem errors_receive {bag : Bag} {routing : Routing} (h : (receive bag).routing = .ok routing) :
    (receive bag).errors = (bag.member? "errors").getD (.list []) := by
  unfold receive at h ⊢
  split at h
  · cases h
  · split at h
    · cases h
    · split at h
      · cases h
      · rfl

section

variable {s : Session} {store : Store} {options : Options} {seed : Int} {bag : Bag} {b : Bool}
  (h : (s.distribute store (s.program store options seed) bag).result = .ok b)
include h

/-- The session keeps the error records in the order of the bag. -/
theorem errors_distribute :
    (s.distribute store (s.program store options seed) bag).session.errors.elements?.getD [] =
      errorRecords bag := by
  obtain ⟨routing, hr, -, -, -⟩ := distribute_ok h
  rw [errorRecords, ← errors_receive hr]
  unfold Session.distribute
  simp only [hr]
  split <;> rfl

/-- A request is given the records of its position from the last to the first, and then the values
that cannot be read from the first to the last. -/
theorem givenErrors_handed {i : Nat} (hi : i < s.members.length) :
    givenErrors i (Session.handed (s.program store options seed) bag) =
      (records i bag).reverse.flatMap messages ++ (unreadables i bag).map unreadableMessage := by
  obtain ⟨routing, hr, hh, -, -⟩ := distribute_ok h
  have hlength : i < (s.requests store).length := by rwa [Session.requests, List.length_map]
  rw [hh, ← (reads_of_receive hr).errorsAt]
  exact givenErrors_deliveries routing hlength

/-- Where a distribution returns, the session keeps the records in the order of the bag, and every
request is given all its errors, none of them lost or repeated. These are in the order of the bag
exactly if for every position the messages of the records are the same with the last record
first. -/
theorem keepsOrder_iff :
    (s.distribute store (s.program store options seed) bag).session.errors.elements?.getD [] =
      errorRecords bag ∧
    (∀ i < s.members.length,
      givenErrors i (Session.handed (s.program store options seed) bag) =
        (records i bag).reverse.flatMap messages ++ (unreadables i bag).map unreadableMessage ∧
      (givenErrors i (Session.handed (s.program store options seed) bag)).Perm
        (errorsInOrder i bag)) ∧
    (KeepsOrder s.members.length bag (Session.handed (s.program store options seed) bag) ↔
      ∀ i < s.members.length,
        (records i bag).reverse.flatMap messages = (records i bag).flatMap messages) := by
  refine ⟨errors_distribute h, fun i hi => ⟨givenErrors_handed h hi, ?_⟩,
    forall₂_congr fun i hi => ?_⟩
  · rw [givenErrors_handed h hi, errorsInOrder]
    exact ((List.reverse_perm _).flatMap_right _).append_right _
  · rw [givenErrors_handed h hi, errorsInOrder]
    exact List.append_left_inj _

end

/-- An error record with one message for the first position. -/
def failureRecord (message : String) : Datum :=
  .list [.list [.str message], .str "c", .int 0]

/-- Where no more than one record names a position, the order is kept. -/
theorem keepsOrder_single :
    (pairSession.distribute twoProbes (pairSession.program twoProbes {} 0)
        (pairBag "(" [failureRecord "a"])).result = .ok true ∧
      KeepsOrder 2 (pairBag "(" [failureRecord "a"])
        (Session.handed (pairSession.program twoProbes {} 0) (pairBag "(" [failureRecord "a"])) := by
  have hret : (pairSession.distribute twoProbes (pairSession.program twoProbes {} 0)
      (pairBag "(" [failureRecord "a"])).result = .ok true := rfl
  refine ⟨hret, (keepsOrder_iff hret).2.2.2 fun i hi => ?_⟩
  have hi : i = 0 ∨ i = 1 := by
    change i < 2 at hi
    omega
  rcases hi with rfl | rfl <;> rfl

/-- Two records of one position are given the other way round. -/
theorem not_keepsOrder_pair :
    (pairSession.distribute twoProbes (pairSession.program twoProbes {} 0)
        (pairBag "2" [failureRecord "a", failureRecord "b"])).result = .ok true ∧
      givenErrors 0 (Session.handed (pairSession.program twoProbes {} 0)
        (pairBag "2" [failureRecord "a", failureRecord "b"])) = [.str "b", .str "a"] ∧
      ¬ KeepsOrder 2 (pairBag "2" [failureRecord "a", failureRecord "b"])
        (Session.handed (pairSession.program twoProbes {} 0)
          (pairBag "2" [failureRecord "a", failureRecord "b"])) := by
  have hgiven : givenErrors 0 (Session.handed (pairSession.program twoProbes {} 0)
      (pairBag "2" [failureRecord "a", failureRecord "b"])) = [.str "b", .str "a"] := rfl
  refine ⟨rfl, hgiven, fun h => ?_⟩
  have horder := h 0 (by decide)
  rw [hgiven] at horder
  exact absurd (Datum.str.inj (List.cons.inj horder).1) (by decide)

end AlgebraBatch.Batch
