import AlgebraBatch.Proofs.Batch.Evaluation

/-!
# Runs of several sessions

A `World` has sessions that share a store of requests, and a record of all calls to the engine. An
`Action` constructs a session, gives one new members or evaluates one, with an engine that may do
anything. A session is `Evaluated` if its last call to the engine brought results for just the
requests that are in it now. In every run all sessions that are marked as instantiated are evaluated
or empty, and every action is `Proper`: it asks the engine at most once, changes one session at most,
and leaves the errors alone unless there were results to hand out.
-/

namespace AlgebraBatch.Batch

open AlgebraBatch.Engine

/-- One call to the engine. -/
structure Asked where
  session : Nat
  program : String
  output : Except Fault (Option String)

structure World where
  sessions : List Session
  store : Store
  /-- The calls to the engine so far, in order. -/
  asked : List Asked

inductive Action where
  | construct (candidates : List Session.Candidate) (options : Options ⊕ Datum) (seed : Datum)
      (clock : Int)
  | add (target : Nat) (candidates : List Session.Candidate) (atEnd : Bool)
  | merge (source target : Nat) (atEnd : Bool)
  | instantiate (target : Nat) (call : String → Except Fault (Option String))

namespace World

/-- A world without sessions. -/
def initial (store : Store) : World := ⟨[], store, []⟩

def put (w : World) (i : Nat) (s : Session) : World :=
  { w with sessions := w.sessions.set i s }

/-- Evaluates a session and records the call to the engine. -/
def evaluate (w : World) (i : Nat) (s : Session) (call : String → Except Fault (Option String)) :
    World :=
  let e := s.instantiate w.store call
  { sessions := w.sessions.set i e.session, store := e.store,
    asked := w.asked ++ (e.asked.map fun program => ⟨i, program, call program⟩).toList }

/-- The world after an action, and the fault if it fails. An action on a session that is not there
does nothing. -/
def act (w : World) : Action → World × Option Fault
  | .construct candidates options seed clock =>
    match Session.make candidates options seed clock with
    | .ok s => ({ w with sessions := w.sessions ++ [s] }, none)
    | .error fault => (w, some fault)
  | .add i candidates atEnd =>
    match w.sessions[i]? with
    | none => (w, none)
    | some s =>
      match s.add candidates atEnd with
      | .ok s' => (w.put i s', none)
      | .error fault => (w, some fault)
  | .merge i j atEnd =>
    match w.sessions[i]?, w.sessions[j]? with
    | some s, some target =>
      (w.put j (if atEnd then s.appendTo target else s.prependTo target), none)
    | _, _ => (w, none)
  | .instantiate i call =>
    match w.sessions[i]? with
    | none => (w, none)
    | some s =>
      (w.evaluate i s call, match (s.instantiate w.store call).result with
        | .ok _ => none
        | .error fault => some fault)

def run (w : World) (actions : List Action) : World :=
  actions.foldl (fun w a => (w.act a).1) w

/-- The calls that a session made, in order. -/
def callsOf (w : World) (i : Nat) : List Asked :=
  w.asked.filter fun a => a.session == i

/-- The last call that a session made. -/
def lastAsked? (w : World) (i : Nat) : Option Asked :=
  (w.asked.filter fun a => a.session == i).getLast?

/-- The last call of a session brought results for a program of the requests that are in it now, all
of them valid. -/
def Evaluated (w : World) (i : Nat) (s : Session) : Prop :=
  ∃ a bag program, w.lastAsked? i = some a ∧ answered a.output = .ok bag ∧
    bag.isTimedOut = false ∧ s.lastProgram = some program ∧ s.lastResults = some bag ∧
    a.program = program.text ∧ program.records = plan (s.requests w.store) ∧
    s.valid w.store = true

/-- Sessions that are marked as instantiated need no evaluation. -/
def Current (w : World) : Prop :=
  ∀ i s, w.sessions[i]? = some s → s.instantiated = true → s.members = [] ∨ w.Evaluated i s

/-- A session has new members and is yet to be evaluated; nothing else has changed. -/
structure Receives (w w' : World) (i : Nat) (s : Session) (members : List Nat) : Prop where
  receiver : w'.sessions[i]? = some { s with members, instantiated := false }
  others : ∀ j, j ≠ i → w'.sessions[j]? = w.sessions[j]?
  store : w'.store = w.store
  asked : w'.asked = w.asked

/-- What an action does to the session that it is about. New members come just where they are asked
for; if something among them is no request, nothing is added. -/
def Effect (w w' : World) (fault : Option Fault) : Action → Prop
  | .construct _ _ _ _ =>
    (fault = none ∧ ∃ s, s.instantiated = false ∧
      w' = { w with sessions := w.sessions ++ [s] }) ∨ (fault.isSome ∧ w' = w)
  | .add i candidates atEnd => ∀ s, w.sessions[i]? = some s →
    (fault = none ∧ ∃ new, candidates = new.map .inl ∧
      Receives w w' i s (if atEnd then s.members ++ new else new ++ s.members)) ∨
    ((∃ name, fault = some (.notEvaluatable name)) ∧ (∃ d, .inr d ∈ candidates) ∧ w' = w)
  | .merge i j atEnd => ∀ s target, w.sessions[i]? = some s → w.sessions[j]? = some target →
    fault = none ∧ Receives w w' j target
      (if atEnd then target.members ++ s.members else s.members ++ target.members)
  | .instantiate i call => ∀ call' : String → Except Fault (Option String),
    (∀ x, w'.asked = w.asked ++ [x] → call' x.program = call x.program) →
    w.act (.instantiate i call') = (w', fault)

/-- How an action may deal with the engine and with errors. -/
structure Proper (w : World) (a : Action) : Prop where
  effect : Effect w (w.act a).1 (w.act a).2 a
  /-- The engine is called once at most, and only for a session that needs it. -/
  calls : (w.act a).1.asked = w.asked ∨ ∃ i call s program, a = .instantiate i call ∧
    w.sessions[i]? = some s ∧ s.members ≠ [] ∧ s.instantiated = false ∧ s.valid w.store = true ∧
    (w.act a).1.asked = w.asked ++ [⟨i, program, call program⟩]
  /-- The errors of a session change only where results were handed out to it. -/
  errors : ∀ (i : Nat) (s : Session), w.sessions[i]? = some s →
    ∃ s', (w.act a).1.sessions[i]? = some s' ∧
      (s'.errors ≠ s.errors → ∃ call program bag, a = .instantiate i call ∧
        (w.act a).1.asked = w.asked ++ [⟨i, program, call program⟩] ∧
        answered (call program) = .ok bag ∧ bag.isTimedOut = false ∧
        s'.errors = (receive bag).errors)

variable {w w' : World}

/-! ## New members -/

theorem enlist_ok {candidates : List Session.Candidate} : ∀ {members},
    Session.enlist candidates = .ok members → candidates = members.map .inl := by
  induction candidates with
  | nil => intro members h; cases h; rfl
  | cons c candidates ih =>
    intro members h
    cases c with
    | inr d => cases h
    | inl m =>
      rw [Session.enlist] at h
      cases he : Session.enlist candidates with
      | error fault => rw [he] at h; cases h
      | ok ms =>
        rw [he] at h
        cases h
        rw [ih he]
        rfl

theorem enlist_members (members : List Nat) :
    Session.enlist (members.map .inl) = .ok members := by
  induction members with
  | nil => rfl
  | cons m members ih => rw [List.map_cons, Session.enlist, ih]; rfl

theorem enlist_error {candidates : List Session.Candidate} {fault : Fault} :
    Session.enlist candidates = .error fault →
      (∃ d, .inr d ∈ candidates) ∧ ∃ name, fault = .notEvaluatable name := by
  induction candidates with
  | nil => exact nofun
  | cons c candidates ih =>
    intro h
    cases c with
    | inr d => cases h; exact ⟨⟨d, List.mem_cons_self⟩, _, rfl⟩
    | inl m =>
      rw [Session.enlist] at h
      cases he : Session.enlist candidates with
      | ok ms => rw [he] at h; cases h
      | error fault' =>
        rw [he] at h
        cases h
        obtain ⟨⟨d, hd⟩, hn⟩ := ih he
        exact ⟨⟨d, List.mem_cons_of_mem _ hd⟩, hn⟩

theorem put_self {i : Nat} {s t : Session} (h : w.sessions[i]? = some s) :
    (w.put i t).sessions[i]? = some t := by
  obtain ⟨hi, -⟩ := List.getElem?_eq_some_iff.1 h
  exact List.getElem?_set_self hi

theorem put_other {i j : Nat} {t : Session} (h : j ≠ i) :
    (w.put i t).sessions[j]? = w.sessions[j]? :=
  List.getElem?_set_ne h.symm

theorem receives_put {i : Nat} {s : Session} (h : w.sessions[i]? = some s) (members : List Nat) :
    Receives w (w.put i (s.withMembers members)) i s members :=
  ⟨put_self h, fun _ hj => put_other hj, rfl, rfl⟩

/-- No call to the engine, and no change of errors. -/
structure Quiet (w w' : World) : Prop where
  asked : w'.asked = w.asked
  errors : ∀ (i : Nat) (s : Session), w.sessions[i]? = some s →
    ∃ s', w'.sessions[i]? = some s' ∧ s'.errors = s.errors

theorem Quiet.refl (w : World) : Quiet w w := ⟨rfl, fun _ s h => ⟨s, h, rfl⟩⟩

theorem Receives.quiet {i : Nat} {s : Session} {members : List Nat} (h : w.sessions[i]? = some s)
    (hr : Receives w w' i s members) : Quiet w w' := by
  refine ⟨hr.asked, fun j t ht => ?_⟩
  by_cases hj : j = i
  · subst hj
    obtain rfl := Option.some.inj (h.symm.trans ht)
    exact ⟨_, hr.receiver, rfl⟩
  · exact ⟨t, (hr.others j hj).trans ht, rfl⟩

theorem quiet_construct (candidates : List Session.Candidate) (options : Options ⊕ Datum)
    (seed : Datum) (clock : Int) : Quiet w (w.act (.construct candidates options seed clock)).1 := by
  rw [act]
  cases Session.make candidates options seed clock with
  | error fault => exact .refl w
  | ok s =>
    refine ⟨rfl, fun i t ht => ⟨t, ?_, rfl⟩⟩
    obtain ⟨hi, -⟩ := List.getElem?_eq_some_iff.1 ht
    exact (List.getElem?_append_left hi).trans ht

theorem add_cases (i : Nat) (candidates : List Session.Candidate) (atEnd : Bool) :
    (w.sessions[i]? = none ∧ w.act (.add i candidates atEnd) = (w, none)) ∨
    (∃ s new, w.sessions[i]? = some s ∧ candidates = new.map .inl ∧
      w.act (.add i candidates atEnd) =
        (w.put i (s.withMembers (if atEnd then s.members ++ new else new ++ s.members)), none)) ∨
    ∃ s fault, w.sessions[i]? = some s ∧ (∃ d, .inr d ∈ candidates) ∧
      (∃ name, fault = .notEvaluatable name) ∧
      w.act (.add i candidates atEnd) = (w, some fault) := by
  rw [act]
  cases hs : w.sessions[i]? with
  | none => exact .inl ⟨rfl, rfl⟩
  | some s =>
    simp only [Session.add]
    cases he : Session.enlist candidates with
    | ok new => exact .inr (.inl ⟨s, new, rfl, enlist_ok he, rfl⟩)
    | error fault =>
      obtain ⟨hd, hn⟩ := enlist_error he
      exact .inr (.inr ⟨s, fault, rfl, hd, hn, rfl⟩)

theorem merge_cases (i j : Nat) (atEnd : Bool) :
    ((w.sessions[i]? = none ∨ w.sessions[j]? = none) ∧ w.act (.merge i j atEnd) = (w, none)) ∨
    ∃ s target, w.sessions[i]? = some s ∧ w.sessions[j]? = some target ∧
      w.act (.merge i j atEnd) = (w.put j (target.withMembers
        (if atEnd then target.members ++ s.members else s.members ++ target.members)), none) := by
  rw [act]
  cases hs : w.sessions[i]? with
  | none => exact .inl ⟨.inl rfl, rfl⟩
  | some s =>
    cases ht : w.sessions[j]? with
    | none => exact .inl ⟨.inr rfl, rfl⟩
    | some target =>
      refine .inr ⟨s, target, rfl, rfl, ?_⟩
      cases atEnd <;> rfl

/-! ## Evaluation -/

section Evaluate

variable {i : Nat} {s : Session} {call : String → Except Fault (Option String)}

theorem act_instantiate (h : w.sessions[i]? = some s) :
    (w.act (.instantiate i call)).1 = w.evaluate i s call := by
  rw [act, h]

theorem evaluate_self (h : w.sessions[i]? = some s) :
    (w.evaluate i s call).sessions[i]? = some (s.instantiate w.store call).session := by
  obtain ⟨hi, -⟩ := List.getElem?_eq_some_iff.1 h
  exact List.getElem?_set_self hi

theorem evaluate_other {j : Nat} (h : j ≠ i) :
    (w.evaluate i s call).sessions[j]? = w.sessions[j]? :=
  List.getElem?_set_ne h.symm

theorem evaluate_alike : w.store.Alike (w.evaluate i s call).store := by
  change w.store.Alike (s.instantiate w.store call).store
  rcases s.instantiate_cases w.store call with ⟨-, he⟩ | ⟨_, -, -, -, he⟩ | q
  · rw [he]; exact .refl _
  · rw [he]; exact .refl _
  · exact q.alike

theorem asked_evaluate_none (h : (s.instantiate w.store call).asked = none) :
    (w.evaluate i s call).asked = w.asked := by
  rw [evaluate, h]
  exact List.append_nil _

theorem asked_evaluate_some {program : String}
    (h : (s.instantiate w.store call).asked = some program) :
    (w.evaluate i s call).asked = w.asked ++ [⟨i, program, call program⟩] := by
  rw [evaluate, h]
  rfl

theorem evaluate_congr {call' : String → Except Fault (Option String)}
    (h : ∀ program, (s.instantiate w.store call).asked = some program →
      call' program = call program) : w.evaluate i s call' = w.evaluate i s call := by
  rw [evaluate, evaluate, s.instantiate_congr w.store h]
  cases ha : (s.instantiate w.store call).asked with
  | none => rfl
  | some program => rw [Option.map_some, Option.map_some, h program ha]

theorem callsOf_self {a : Asked} (h : w'.asked = w.asked ++ [a]) (ha : a.session = i) :
    w'.callsOf i = w.callsOf i ++ [a] := by
  rw [callsOf, h, List.filter_append, List.filter_cons_of_pos (by rw [ha, beq_self_eq_true]),
    List.filter_nil, callsOf]

theorem callsOf_other {a : Asked} (h : w'.asked = w.asked ++ [a]) (ha : a.session ≠ i) :
    w'.callsOf i = w.callsOf i := by
  rw [callsOf, h, List.filter_append, List.filter_cons_of_neg (by simpa using ha), List.filter_nil,
    List.append_nil, callsOf]

theorem lastAsked?_eq (w : World) (i : Nat) : w.lastAsked? i = (w.callsOf i).getLast? := rfl

theorem lastAsked?_self {a : Asked} (h : w'.asked = w.asked ++ [a]) (ha : a.session = i) :
    w'.lastAsked? i = some a := by
  rw [lastAsked?_eq, callsOf_self h ha]
  exact List.getLast?_concat

theorem evaluate_callsOf_none {j : Nat} (h : (s.instantiate w.store call).asked = none) :
    (w.evaluate i s call).callsOf j = w.callsOf j := by
  rw [callsOf, asked_evaluate_none h, callsOf]

theorem evaluate_callsOf_other {j : Nat} (h : j ≠ i) :
    (w.evaluate i s call).callsOf j = w.callsOf j := by
  cases ha : (s.instantiate w.store call).asked with
  | none => exact evaluate_callsOf_none ha
  | some program => exact callsOf_other (asked_evaluate_some ha) h.symm

theorem evaluate_lastAsked?_other {j : Nat} (h : j ≠ i) :
    (w.evaluate i s call).lastAsked? j = w.lastAsked? j :=
  congrArg List.getLast? (evaluate_callsOf_other h)

/-- Another session's evaluation changes nothing about an evaluated one. -/
theorem Evaluated.mono {s' : Session} (h : w.Evaluated i s) (halike : w.store.Alike w'.store)
    (hasked : w'.lastAsked? i = w.lastAsked? i) (hmembers : s'.members = s.members)
    (hprogram : s'.lastProgram = s.lastProgram) (hresults : s'.lastResults = s.lastResults) :
    w'.Evaluated i s' := by
  obtain ⟨a, bag, program, ha, hb, ht, hp, hr, htext, hrecords, hv⟩ := h
  have hreq : ∀ store, s'.requests store = s.requests store := fun store => by
    rw [Session.requests, Session.requests, hmembers]
  refine ⟨a, bag, program, hasked.trans ha, hb, ht, hprogram.trans hp, hresults.trans hr, htext,
    ?_, ?_⟩
  · rw [hreq, halike.plan, hrecords]
  · rw [Session.valid, hreq, ← Session.valid, halike.valid, hv]

/-- A session that is marked as instantiated by an evaluation is empty or has been evaluated. -/
theorem current_evaluate_self (h : w.sessions[i]? = some s) (hw : w.Current)
    (hi : (s.instantiate w.store call).session.instantiated = true) :
    (s.instantiate w.store call).session.members = [] ∨
      (w.evaluate i s call).Evaluated i (s.instantiate w.store call).session := by
  rcases s.instantiate_cases w.store call with ⟨hskip, he⟩ | ⟨_, -, hf, -, he⟩ | q
  · have hsame : s.members = [] ∨ w.Evaluated i s := by
      rcases hskip with hm | hinst
      · exact .inl hm
      · exact hw i s h hinst
    rw [he]
    refine hsame.imp_right fun hev => hev.mono evaluate_alike ?_ rfl rfl rfl
    rw [lastAsked?, asked_evaluate_none (by rw [he]), lastAsked?]
  · rw [he] at hi
    exact absurd hi (ne_true_of_eq_false hf)
  · right
    have hlast := lastAsked?_self (asked_evaluate_some (w := w) (i := i) q.asked) rfl
    have hs := q.settled
    revert hs hi
    generalize (s.instantiate w.store call).session = s'
    rintro hi (hf | ⟨hb, ht⟩ | ⟨complete, hb, ht⟩)
    · exact absurd hi (ne_true_of_eq_false q.fresh)
    · exact absurd hi (ne_true_of_eq_false q.fresh)
    · refine ⟨_, _, _, hlast, hb, ht, rfl, rfl, rfl, ?_, ?_⟩
      · exact (q.alike.plan s).symm
      · exact (q.alike.valid s).trans q.valid

/-- The errors of a session after its evaluation. -/
theorem errors_instantiate (s : Session) (store : Store)
    (call : String → Except Fault (Option String)) :
    (s.instantiate store call).session.errors = s.errors ∨
      s.Inquiry store call (s.instantiate store call) ∧ ∃ bag,
        answered (call (compile s.options s.seed (s.requests store)).text) = .ok bag ∧
        bag.isTimedOut = false ∧
        (s.instantiate store call).session.errors = (receive bag).errors := by
  rcases s.instantiate_cases store call with ⟨-, he⟩ | ⟨_, -, -, -, he⟩ | q
  · rw [he]; exact .inl rfl
  · rw [he]; exact .inl rfl
  · have hs := q.settled
    revert hs
    generalize hs' : (s.instantiate store call).session = s'
    rintro (hf | ⟨hb, ht⟩ | ⟨complete, hb, ht⟩)
    · exact .inl rfl
    · exact .inl rfl
    · exact .inr ⟨q, _, hb, ht, rfl⟩

end Evaluate

/-! ## Actions -/

theorem Current.put {i : Nat} {t : Session} (hw : w.Current) (ht : t.instantiated = false) :
    (w.put i t).Current := by
  intro j u hu hinst
  by_cases hj : j = i
  · subst hj
    have hlt := (List.getElem?_eq_some_iff.1 hu).1
    rw [World.put, List.length_set] at hlt
    rw [World.put, List.getElem?_set_self hlt] at hu
    cases hu
    exact absurd hinst (ne_true_of_eq_false ht)
  · rw [put_other hj] at hu
    exact hw j u hu hinst

theorem make_instantiated {candidates : List Session.Candidate} {options : Options ⊕ Datum}
    {seed : Datum} {clock : Int} {s : Session}
    (h : Session.make candidates options seed clock = .ok s) : s.instantiated = false := by
  obtain ⟨members, -, h⟩ := bind_eq_ok.1 h
  obtain ⟨options, -, h⟩ := bind_eq_ok.1 h
  obtain ⟨seed, -, h⟩ := bind_eq_ok.1 h
  cases h
  rfl

/-- No action marks a session as instantiated that needs to be evaluated. -/
theorem Current.act (hw : w.Current) (a : Action) : (w.act a).1.Current := by
  cases a with
  | construct candidates options seed clock =>
    rw [World.act]
    cases hm : Session.make candidates options seed clock with
    | error fault => exact hw
    | ok s =>
      intro i t ht hinst
      rcases Nat.lt_or_ge i w.sessions.length with hi | hi
      · exact hw i t ((List.getElem?_append_left hi).symm.trans ht) hinst
      · have hmem : t ∈ [s] := by
          rw [List.getElem?_append_right hi] at ht
          exact List.mem_of_getElem? ht
        rw [List.mem_singleton.1 hmem, make_instantiated hm] at hinst
        cases hinst
  | add i candidates atEnd =>
    rcases w.add_cases i candidates atEnd with ⟨-, he⟩ | ⟨s, new, -, -, he⟩ | ⟨s, fault, -, -, -, he⟩
    · rw [he]; exact hw
    · rw [he]; exact hw.put rfl
    · rw [he]; exact hw
  | merge i j atEnd =>
    rcases w.merge_cases i j atEnd with ⟨-, he⟩ | ⟨s, target, -, -, he⟩
    · rw [he]; exact hw
    · rw [he]; exact hw.put rfl
  | instantiate i call =>
    cases hs : w.sessions[i]? with
    | none => rw [World.act, hs]; exact hw
    | some s =>
      rw [act_instantiate hs]
      intro j t ht hinst
      by_cases hj : j = i
      · subst hj
        rw [evaluate_self hs] at ht
        cases ht
        exact current_evaluate_self hs hw hinst
      · rw [evaluate_other hj] at ht
        refine (hw j t ht hinst).imp_right fun hev => ?_
        exact hev.mono evaluate_alike (evaluate_lastAsked?_other hj) rfl rfl rfl

theorem proper_of_quiet {a : Action} (hq : Quiet w (w.act a).1)
    (he : Effect w (w.act a).1 (w.act a).2 a) : Proper w a where
  effect := he
  calls := .inl hq.asked
  errors i s hs := by
    obtain ⟨s', hs', he⟩ := hq.errors i s hs
    exact ⟨s', hs', fun hne => absurd he hne⟩

theorem proper_add (i : Nat) (candidates : List Session.Candidate) (atEnd : Bool) :
    Proper w (.add i candidates atEnd) := by
  rcases w.add_cases i candidates atEnd with
    ⟨hs, he⟩ | ⟨s, new, hs, hc, he⟩ | ⟨s, fault, hs, hd, ⟨name, hn⟩, he⟩
  · refine proper_of_quiet (by rw [he]; exact .refl w) fun s h => ?_
    rw [hs] at h
    cases h
  · have hr := receives_put hs (if atEnd then s.members ++ new else new ++ s.members)
    refine proper_of_quiet (by rw [he]; exact hr.quiet hs) fun s' h => ?_
    obtain rfl := Option.some.inj (hs.symm.trans h)
    rw [he]
    exact .inl ⟨rfl, new, hc, hr⟩
  · refine proper_of_quiet (by rw [he]; exact .refl w) fun s' _ => ?_
    rw [he]
    exact .inr ⟨⟨name, congrArg some hn⟩, hd, rfl⟩

theorem proper_merge (i j : Nat) (atEnd : Bool) : Proper w (.merge i j atEnd) := by
  rcases w.merge_cases i j atEnd with ⟨hn, he⟩ | ⟨s, target, hs, ht, he⟩
  · refine proper_of_quiet (by rw [he]; exact .refl w) fun s target hs ht => ?_
    rw [hs, ht] at hn
    rcases hn with h | h <;> cases h
  · have hr := receives_put ht
      (if atEnd then target.members ++ s.members else s.members ++ target.members)
    refine proper_of_quiet (by rw [he]; exact hr.quiet ht) fun s' target' hs' ht' => ?_
    obtain rfl := Option.some.inj (hs.symm.trans hs')
    obtain rfl := Option.some.inj (ht.symm.trans ht')
    rw [he]
    exact ⟨rfl, hr⟩

theorem proper_instantiate (i : Nat) (call : String → Except Fault (Option String)) :
    Proper w (.instantiate i call) := by
  cases hs : w.sessions[i]? with
  | none =>
    have he (call) : w.act (.instantiate i call) = (w, none) := by rw [World.act, hs]
    refine proper_of_quiet (by rw [he]; exact .refl w) fun call' _ => ?_
    rw [he, he]
  | some s =>
    constructor
    · intro call' h
      have hcall : ∀ program, (s.instantiate w.store call).asked = some program →
          call' program = call program := fun program hp =>
        h ⟨i, program, call program⟩ (by rw [act_instantiate hs, asked_evaluate_some hp])
      have hsame := s.instantiate_congr w.store hcall
      refine Prod.ext ?_ ?_
      · rw [act_instantiate hs, act_instantiate hs, evaluate_congr hcall]
      · simp only [World.act, hs, hsame]
    · rw [act_instantiate hs]
      rcases s.instantiate_cases w.store call with ⟨-, he⟩ | ⟨_, -, -, -, he⟩ | q
      · exact .inl (asked_evaluate_none (by rw [he]))
      · exact .inl (asked_evaluate_none (by rw [he]))
      · exact .inr ⟨i, call, s, _, rfl, hs, q.members, q.fresh, q.valid,
          asked_evaluate_some q.asked⟩
    · intro j t ht
      rw [act_instantiate hs]
      by_cases hj : j = i
      · subst hj
        obtain rfl := Option.some.inj (hs.symm.trans ht)
        refine ⟨_, evaluate_self hs, fun hne => ?_⟩
        rcases errors_instantiate s w.store call with he | ⟨q, bag, hb, htime, he⟩
        · exact absurd he hne
        · exact ⟨call, _, bag, rfl, asked_evaluate_some q.asked, hb, htime, he⟩
      · exact ⟨t, (evaluate_other hj).trans ht, fun hne => absurd rfl hne⟩

theorem proper_construct (candidates : List Session.Candidate) (options : Options ⊕ Datum)
    (seed : Datum) (clock : Int) : Proper w (.construct candidates options seed clock) := by
  refine proper_of_quiet (quiet_construct candidates options seed clock) ?_
  rw [Effect, World.act]
  cases hm : Session.make candidates options seed clock with
  | error fault => exact .inr ⟨rfl, rfl⟩
  | ok s => exact .inl ⟨rfl, s, make_instantiated hm, rfl⟩

theorem proper (w : World) (a : Action) : Proper w a := by
  cases a with
  | construct candidates options seed clock => exact proper_construct _ _ _ _
  | add i candidates atEnd => exact proper_add _ _ _
  | merge i j atEnd => exact proper_merge _ _ _
  | instantiate i call => exact proper_instantiate _ _

theorem Current.run (actions : List Action) : ∀ {w : World}, w.Current → (w.run actions).Current := by
  induction actions with
  | nil => exact fun hw => hw
  | cons a actions ih => exact fun hw => ih (hw.act a)

/-- In every run, sessions that are marked as instantiated are empty or have been evaluated as they
are, and whatever is done next is done properly. -/
theorem run_current_and_proper (store : Store) (actions : List Action) :
    ((initial store).run actions).Current ∧ ∀ a, Proper ((initial store).run actions) a := by
  have hinitial : (initial store).Current := by
    intro i s h
    cases h
  exact ⟨hinitial.run actions, proper _⟩

end World

end AlgebraBatch.Batch
