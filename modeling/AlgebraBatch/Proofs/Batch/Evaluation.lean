import AlgebraBatch.Batch.Session
import AlgebraBatch.Proofs.Except

/-!
# What an evaluation does

Results that are handed out leave everything alone that a program is compiled from: two stores are
`Alike` if their requests differ only in what a batch brings. `instantiate_cases` says all that an
evaluation can do: nothing, refuse the batch (`Refuses`), or ask the engine once (`Inquiry`).
-/

namespace AlgebraBatch

open AlgebraBatch.Engine

/-- Two requests that ask the same of the engine and collect the same from it. -/
structure Request.Alike (r r' : Request) : Prop where
  form : r'.form = r.form
  context : r'.context = r.context
  key : r'.key = r.key
  valid : r'.valid = r.valid
  collectsValue : r'.collectsValue = r.collectsValue
  collectsPresentation : r'.collectsPresentation = r.collectsPresentation

namespace Request.Alike

theorem refl (r : Request) : Alike r r := ⟨rfl, rfl, rfl, rfl, rfl, rfl⟩

theorem trans {r₁ r₂ r₃ : Request} (h : Alike r₁ r₂) (h' : Alike r₂ r₃) : Alike r₁ r₃ where
  form := h'.form.trans h.form
  context := h'.context.trans h.context
  key := h'.key.trans h.key
  valid := h'.valid.trans h.valid
  collectsValue := h'.collectsValue.trans h.collectsValue
  collectsPresentation := h'.collectsPresentation.trans h.collectsPresentation

theorem setStatus (r : Request) (errors notes : Datum) : Alike r (r.setStatus errors notes).1 := by
  cases r with
  | statement s =>
    simp only [Request.setStatus, Statement.setStatus]
    split
    · exact refl _
    · split <;> exact ⟨rfl, rfl, rfl, rfl, rfl, rfl⟩
  | probe p =>
    simp only [Request.setStatus, Probe.setStatus]
    split
    · exact ⟨rfl, rfl, rfl, rfl, rfl, rfl⟩
    · exact refl _

theorem setValue (r : Request) (c : Content) : Alike r (r.setValue c) := by
  cases r with
  | statement s =>
    simp only [Request.setValue, Statement.setValue]
    split <;> exact ⟨rfl, rfl, rfl, rfl, rfl, rfl⟩
  | probe p => exact ⟨rfl, rfl, rfl, rfl, rfl, rfl⟩

theorem setPresentation (r : Request) (d : Datum) : Alike r (r.setPresentation d) := by
  cases r <;> exact ⟨rfl, rfl, rfl, rfl, rfl, rfl⟩

end Request.Alike

namespace Batch

theorem Delivery.handTo_alike (d : Delivery) (r : Request) : r.Alike (d.handTo r).1 := by
  cases d with
  | status errors notes => exact .setStatus r _ _
  | value e => exact .setValue r _
  | presentation text => exact .setPresentation r _

def Store.Alike (store store' : Store) : Prop :=
  ∀ m, (store.request m).Alike (store'.request m)

namespace Store.Alike

theorem refl (store : Store) : Alike store store := fun _ => .refl _

theorem trans {store₁ store₂ store₃ : Store} (h : Alike store₁ store₂) (h' : Alike store₂ store₃) :
    Alike store₁ store₃ :=
  fun m => (h m).trans (h' m)

theorem put {store : Store} {m : Nat} {r : Request} (h : (store.request m).Alike r) :
    Alike store (store.put m r) := by
  intro j
  by_cases hj : j = m
  · subst hj
    rw [Store.put]
    simpa only [if_true] using h
  · rw [Store.put]
    simpa only [if_neg hj] using .refl _

/-- Handing out results changes nothing that a program is compiled from. -/
theorem deliver (members : List Nat) (calls : List (Nat × Delivery)) :
    ∀ store : Store, Alike store (store.deliver members calls).1 := by
  induction calls with
  | nil => exact refl
  | cons c calls ih =>
    obtain ⟨position, d⟩ := c
    intro store
    rw [Store.deliver]
    split
    · exact ih store
    · next m _ =>
      have hput : Alike store (store.put m (d.handTo (store.request m)).1) :=
        put (d.handTo_alike _)
      cases hd : d.handTo (store.request m) with
      | mk r fault =>
        rw [hd] at hput
        cases fault with
        | some fault => exact hput
        | none => exact hput.trans (ih _)

variable {store store' : Store} (h : Alike store store')
include h

theorem planFrom (members : List Nat) : ∀ start,
    planFrom start (members.map store'.request) = planFrom start (members.map store.request) := by
  induction members with
  | nil => exact fun _ => rfl
  | cons m members ih =>
    intro start
    rw [List.map_cons, List.map_cons, Batch.planFrom, Batch.planFrom, ih, Record.ofRequest,
      Record.ofRequest, (h m).form, (h m).context, (h m).collectsValue, (h m).collectsPresentation]

theorem plan (s : Session) : plan (s.requests store') = plan (s.requests store) :=
  h.planFrom s.members 0

theorem valid (s : Session) : s.valid store' = s.valid store := by
  have hv : (fun m => (store'.request m).valid) = fun m => (store.request m).valid :=
    funext fun m => (h m).valid
  rw [Session.valid, Session.valid, Session.requests, Session.requests, List.all_map, List.all_map]
  exact congrArg (fun f => s.members.all f) hv

end Store.Alike

/-! ## Inquiries -/

/-- The bag in an engine's output. -/
def answered (output : Except Fault (Option String)) : Except Fault Bag :=
  output.bind Bag.ofOutput

namespace Session

/-- What is left of a session when the engine has been asked: a fault leaves only the program, a
timeout also the bag, and a distribution also the errors. -/
inductive Settled (s : Session) (program : Program) (output : Except Fault (Option String)) :
    Session → Prop where
  | fault {fault} : answered output = .error fault →
      Settled s program output { s with lastProgram := some program }
  | timeout {bag} : answered output = .ok bag → bag.isTimedOut = true →
      Settled s program output { s with lastProgram := some program, lastResults := some bag }
  | distribution {bag} (complete : Bool) : answered output = .ok bag → bag.isTimedOut = false →
      Settled s program output
        { s with lastProgram := some program, lastResults := some bag,
                 errors := (receive bag).errors, instantiated := complete || s.instantiated }

section

variable {s : Session} {store : Store} {program : Program}

theorem giveUp_session : (s.giveUp store).session = s := by
  unfold giveUp
  cases store.deliver s.members (timeoutDeliveries s.members.length) with
  | mk store' fault => rfl

theorem giveUp_alike : store.Alike (s.giveUp store).store := by
  have h := Store.Alike.deliver s.members (timeoutDeliveries s.members.length) store
  unfold giveUp
  cases hd : store.deliver s.members (timeoutDeliveries s.members.length) with
  | mk store' fault =>
    rw [hd] at h
    exact h

theorem distribute_session (s : Session) (store : Store) (program : Program) (bag : Bag) :
    ∃ complete, (s.distribute store program bag).session =
      { s with errors := (receive bag).errors, instantiated := complete || s.instantiated } := by
  unfold distribute
  cases hr : (receive bag).routing with
  | error fault =>
    simp only [hr]
    exact ⟨false, rfl⟩
  | ok routing =>
    simp only [hr]
    cases store.deliver s.members (routing.deliveries program.records) with
    | mk store' fault =>
      cases fault with
      | some fault => exact ⟨false, rfl⟩
      | none => exact ⟨true, rfl⟩

theorem distribute_alike (bag : Bag) : store.Alike (s.distribute store program bag).store := by
  unfold distribute
  cases hr : (receive bag).routing with
  | error fault =>
    simp only [hr]
    exact .refl store
  | ok routing =>
    simp only [hr]
    have h := Store.Alike.deliver s.members (routing.deliveries program.records) store
    cases hd : store.deliver s.members (routing.deliveries program.records) with
    | mk store' fault =>
      rw [hd] at h
      cases fault with
      | some fault => exact h
      | none => exact h

theorem conclude_spec (s : Session) (store : Store) (program : Program)
    (output : Except Fault (Option String)) :
    s.Settled program output
        (conclude { s with lastProgram := some program } store program output).session ∧
      store.Alike (conclude { s with lastProgram := some program } store program output).store := by
  have hbag : (output.bind fun text => (Bag.ofOutput text).map fun bag => (text.isNone, bag)) =
      (answered output).bind fun bag => .ok (output.toOption.elim false (·.isNone), bag) := by
    cases output with
    | error fault => rfl
    | ok text => cases hb : Bag.ofOutput text with
      | error fault => simp only [answered, Except.bind, hb]; rfl
      | ok bag => simp only [answered, Except.bind, hb]; rfl
  unfold conclude
  rw [hbag]
  cases ha : answered output with
  | error fault => exact ⟨.fault ha, .refl store⟩
  | ok bag =>
    simp only [Except.bind]
    cases ht : bag.isTimedOut with
    | true =>
      simp only [if_true, giveUp_session]
      exact ⟨.timeout ha ht, giveUp_alike⟩
    | false =>
      simp only [Bool.false_eq_true, if_false]
      obtain ⟨complete, hc⟩ := distribute_session
        { s with lastProgram := some program, lastResults := some bag } store program bag
      rw [hc]
      exact ⟨.distribution complete ha ht, distribute_alike bag⟩

end

theorem isReport_of_seedFault? {seed : Int} {fault : Fault} (h : seedFault? seed = some fault) :
    fault.isReport = false := by
  unfold seedFault? at h
  exact Datum.isReport_of_writingFault? h

/-- What keeps a batch from being brought to the engine. -/
inductive Refuses (s : Session) (store : Store) : Fault → Prop
  | invalid (h : s.valid store = false) : Refuses s store .invalidBatch
  | seed {fault : Fault} (hv : s.valid store = true) (h : seedFault? s.seed = some fault) :
    Refuses s store fault

/-- One call to the engine. -/
structure Inquiry (s : Session) (store : Store) (call : String → Except Fault (Option String))
    (e : Evaluation) : Prop where
  members : s.members ≠ []
  fresh : s.instantiated = false
  valid : s.valid store = true
  seed : seedFault? s.seed = none
  asked : e.asked = some (compile s.options s.seed (s.requests store)).text
  alike : store.Alike e.store
  settled : s.Settled (compile s.options s.seed (s.requests store))
    (call (compile s.options s.seed (s.requests store)).text) e.session

theorem instantiate_fresh {s : Session} {store : Store} (hm : s.members ≠ [])
    (hi : s.instantiated = false) (hv : s.valid store = true) (hs : seedFault? s.seed = none)
    (call : String → Except Fault (Option String)) :
    let program := compile s.options s.seed (s.requests store)
    let e := conclude { s with lastProgram := some program } store program (call program.text)
    s.instantiate store call =
      { e with asked := some program.text, events := .compiled program :: e.events } := by
  have hif : ¬ (s.members.isEmpty || s.instantiated) = true := by simp [hm, hi]
  unfold instantiate
  rw [if_neg hif, hv, hs]
  rfl

theorem asked_instantiate {s : Session} {store : Store} (hm : s.members ≠ [])
    (hi : s.instantiated = false) (hv : s.valid store = true) (hs : seedFault? s.seed = none)
    (call : String → Except Fault (Option String)) :
    (s.instantiate store call).asked =
      some (compile s.options s.seed (s.requests store)).text := by
  rw [instantiate_fresh hm hi hv hs call]

theorem instantiate_refused {s : Session} {store : Store} {fault : Fault} (hm : s.members ≠ [])
    (hi : s.instantiated = false) (h : s.Refuses store fault)
    (call : String → Except Fault (Option String)) :
    s.instantiate store call = { session := s, store, result := .error fault } := by
  have hif : ¬ (s.members.isEmpty || s.instantiated) = true := by simp [hm, hi]
  unfold instantiate
  rw [if_neg hif]
  cases h with
  | invalid hv =>
    rw [hv]
    rfl
  | seed hv hs =>
    rw [hv, hs]
    rfl

theorem instantiate_cases (s : Session) (store : Store)
    (call : String → Except Fault (Option String)) :
    ((s.members = [] ∨ s.instantiated = true) ∧ s.instantiate store call =
      { session := { s with instantiated := true }, store, result := .ok true }) ∨
    (∃ fault, s.members ≠ [] ∧ s.instantiated = false ∧ s.Refuses store fault ∧
      s.instantiate store call = { session := s, store, result := .error fault }) ∨
    s.Inquiry store call (s.instantiate store call) := by
  by_cases hskip : s.members = [] ∨ s.instantiated = true
  · refine .inl ⟨hskip, ?_⟩
    unfold instantiate
    rw [if_pos (by simpa using hskip)]
  · obtain ⟨hm, hi⟩ := not_or.1 hskip
    have hi : s.instantiated = false := Bool.eq_false_iff.2 hi
    cases hv : s.valid store with
    | false =>
      exact .inr (.inl ⟨_, hm, hi, .invalid hv, instantiate_refused hm hi (.invalid hv) call⟩)
    | true =>
      cases hseed : seedFault? s.seed with
      | some fault =>
        exact .inr (.inl ⟨_, hm, hi, .seed hv hseed, instantiate_refused hm hi (.seed hv hseed) call⟩)
      | none =>
        obtain ⟨hs, ha⟩ := conclude_spec s store (compile s.options s.seed (s.requests store))
          (call (compile s.options s.seed (s.requests store)).text)
        rw [instantiate_fresh hm hi hv hseed call]
        exact .inr (.inr ⟨hm, hi, hv, hseed, rfl, ha, hs⟩)

/-- What comes of an evaluation depends on nothing but the answer to the program that was asked. -/
theorem instantiate_congr (s : Session) (store : Store)
    {call call' : String → Except Fault (Option String)}
    (h : ∀ text, (s.instantiate store call).asked = some text → call' text = call text) :
    s.instantiate store call' = s.instantiate store call := by
  rcases s.instantiate_cases store call with ⟨hskip, he⟩ | ⟨fault, hm, hi, h, he⟩ | q
  · rw [he]
    unfold instantiate
    rw [if_pos (by simpa using hskip)]
  · rw [he, instantiate_refused hm hi h]
  · rw [instantiate_fresh q.members q.fresh q.valid q.seed call,
      instantiate_fresh q.members q.fresh q.valid q.seed call', h _ q.asked]

end Session

end Batch

end AlgebraBatch
