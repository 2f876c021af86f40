import AlgebraBatch.Proofs.Batch.Outcome

/-!
# What is kept for a diagnosis

A session keeps the program of its last call to the engine, and the bag of the last call that was
answered (`Keeps`). These need not be the same call: a call that fails leaves the bag of an earlier
one beside the new program. The theorem `run_isPaired_iff` says when the two belong together.
-/

namespace AlgebraBatch.Batch.World

open AlgebraBatch.Engine

/-- The bag in the last answer to a session. -/
def lastAnswer? (w : World) (i : Nat) : Option Bag :=
  ((w.callsOf i).filterMap fun a => (answered a.output).toOption).getLast?

/-- A session keeps the program of its last call and the bag of its last answer. -/
structure Keeps (w : World) (i : Nat) (s : Session) : Prop where
  program : s.lastProgram.map Program.text = (w.lastAsked? i).map Asked.program
  results : s.lastResults = w.lastAnswer? i

/-- Every session keeps what it is to keep, and no call was made by a session that is yet to come. -/
structure Recorded (w : World) : Prop where
  within : ∀ a ∈ w.asked, a.session < w.sessions.length
  keeps : ∀ i s, w.sessions[i]? = some s → w.Keeps i s

/-- The results that a session has are an answer to the program that it has. -/
def IsPaired (w : World) (i : Nat) (s : Session) : Prop :=
  ∀ bag, s.lastResults = some bag → ∃ a ∈ w.callsOf i,
    s.lastProgram.map Program.text = some a.program ∧ answered a.output = .ok bag

variable {w w' : World} {i : Nat} {s : Session}

/-! ## Calls -/

/-- What a session is to keep depends on its own calls. -/
theorem Keeps.congr {t : Session} (hs : w.Keeps i s) (hcalls : w'.callsOf i = w.callsOf i)
    (hprogram : t.lastProgram = s.lastProgram) (hresults : t.lastResults = s.lastResults) :
    w'.Keeps i t where
  program := by
    have hlast : w'.lastAsked? i = w.lastAsked? i := congrArg List.getLast? hcalls
    rw [hprogram, hlast, hs.program]
  results := by
    rw [hresults, hs.results, lastAnswer?, lastAnswer?, hcalls]

theorem lastAnswer?_error {a : Asked} {fault : Fault} (h : w'.asked = w.asked ++ [a])
    (ha : a.session = i) (hf : answered a.output = .error fault) :
    w'.lastAnswer? i = w.lastAnswer? i := by
  rw [lastAnswer?, callsOf_self h ha, List.filterMap_append, lastAnswer?]
  simp [hf, Except.toOption]

theorem lastAnswer?_ok {a : Asked} {bag : Bag} (h : w'.asked = w.asked ++ [a])
    (ha : a.session = i) (hb : answered a.output = .ok bag) :
    w'.lastAnswer? i = some bag := by
  rw [lastAnswer?, callsOf_self h ha, List.filterMap_append]
  simp [hb, Except.toOption]

/-- A call is recorded, whether it is answered or not. -/
theorem keeps_settled {program : Program} {output : Except Fault (Option String)} {t : Session}
    (hs : w.Keeps i s) (ht : s.Settled program output t)
    (h : w'.asked = w.asked ++ [⟨i, program.text, output⟩]) : w'.Keeps i t := by
  have hlast : w'.lastAsked? i = some ⟨i, program.text, output⟩ := lastAsked?_self h rfl
  cases ht with
  | fault hf =>
    refine ⟨by rw [hlast]; rfl, ?_⟩
    rw [lastAnswer?_error h rfl hf]
    exact hs.results
  | timeout hb _ => exact ⟨by rw [hlast]; rfl, (lastAnswer?_ok h rfl hb).symm⟩
  | distribution _ hb _ => exact ⟨by rw [hlast]; rfl, (lastAnswer?_ok h rfl hb).symm⟩

/-! ## Actions -/

theorem Recorded.put {t : Session} (hw : w.Recorded) (hs : w.sessions[i]? = some s)
    (hprogram : t.lastProgram = s.lastProgram) (hresults : t.lastResults = s.lastResults) :
    (w.put i t).Recorded where
  within a ha := (List.length_set ..).symm ▸ hw.within a ha
  keeps j u hu := by
    by_cases hj : j = i
    · subst hj
      obtain rfl := Option.some.inj ((put_self hs).symm.trans hu)
      exact (hw.keeps j s hs).congr rfl hprogram hresults
    · rw [put_other hj] at hu
      exact (hw.keeps j u hu).congr rfl rfl rfl

theorem make_fresh {candidates : List Session.Candidate} {options : Options ⊕ Datum}
    {seed : Datum} {clock : Int} (h : Session.make candidates options seed clock = .ok s) :
    s.lastProgram = none ∧ s.lastResults = none := by
  obtain ⟨members, -, h⟩ := bind_eq_ok.1 h
  obtain ⟨options, -, h⟩ := bind_eq_ok.1 h
  obtain ⟨seed, -, h⟩ := bind_eq_ok.1 h
  cases h
  exact ⟨rfl, rfl⟩

theorem Recorded.construct (hw : w.Recorded) (hprogram : s.lastProgram = none)
    (hresults : s.lastResults = none) :
    ({ w with sessions := w.sessions ++ [s] } : World).Recorded where
  within a ha := by
    rw [List.length_append]
    exact Nat.lt_add_right _ (hw.within a ha)
  keeps j u hu := by
    rcases Nat.lt_or_ge j w.sessions.length with hj | hj
    · rw [List.getElem?_append_left hj] at hu
      exact (hw.keeps j u hu).congr rfl rfl rfl
    · rw [List.getElem?_append_right hj] at hu
      obtain rfl := List.mem_singleton.1 (List.mem_of_getElem? hu)
      have hnone : w.callsOf j = [] := by
        refine List.filter_eq_nil_iff.2 fun a ha => ?_
        have := hw.within a ha
        simp only [beq_iff_eq]
        omega
      constructor
      · rw [hprogram]
        exact (congrArg (fun l => l.getLast?.map Asked.program) hnone).symm
      · rw [hresults]
        exact (congrArg (fun l => (l.filterMap fun a => (answered a.output).toOption).getLast?)
          hnone).symm

theorem Recorded.evaluate (hw : w.Recorded) (hs : w.sessions[i]? = some s)
    (call : String → Except Fault (Option String)) : (w.evaluate i s call).Recorded where
  within a ha := by
    have hi := (List.getElem?_eq_some_iff.1 hs).1
    rw [World.evaluate, List.length_set]
    rcases List.mem_append.1 ha with ha | ha
    · exact hw.within a ha
    · obtain ⟨program, -, rfl⟩ := Option.map_eq_some_iff.1 (Option.mem_toList.1 ha)
      exact hi
  keeps j u hu := by
    by_cases hj : j = i
    · subst hj
      obtain rfl := Option.some.inj ((evaluate_self hs).symm.trans hu)
      have hkeeps := hw.keeps j s hs
      rcases s.instantiate_cases w.store call with ⟨-, he⟩ | ⟨_, -, -, -, he⟩ | q
      · exact hkeeps.congr (evaluate_callsOf_none (by rw [he])) (by rw [he]) (by rw [he])
      · exact hkeeps.congr (evaluate_callsOf_none (by rw [he])) (by rw [he]) (by rw [he])
      · exact keeps_settled hkeeps q.settled (asked_evaluate_some q.asked)
    · rw [evaluate_other hj] at hu
      exact (hw.keeps j u hu).congr (evaluate_callsOf_other hj) rfl rfl

theorem Recorded.act (hw : w.Recorded) (a : Action) : (w.act a).1.Recorded := by
  cases a with
  | construct candidates options seed clock =>
    rw [World.act]
    cases hm : Session.make candidates options seed clock with
    | error fault => exact hw
    | ok s =>
      obtain ⟨hprogram, hresults⟩ := make_fresh hm
      exact hw.construct hprogram hresults
  | add i candidates atEnd =>
    rcases w.add_cases i candidates atEnd with ⟨-, he⟩ | ⟨s, new, hs, -, he⟩ | ⟨s, fault, -, -, -, he⟩
    · rw [he]; exact hw
    · rw [he]; exact hw.put hs rfl rfl
    · rw [he]; exact hw
  | merge i j atEnd =>
    rcases w.merge_cases i j atEnd with ⟨-, he⟩ | ⟨s, target, -, ht, he⟩
    · rw [he]; exact hw
    · rw [he]; exact hw.put ht rfl rfl
  | instantiate i call =>
    cases hs : w.sessions[i]? with
    | none => rw [World.act, hs]; exact hw
    | some s =>
      rw [act_instantiate hs]
      exact hw.evaluate hs call

theorem Recorded.run (actions : List Action) : ∀ {w : World}, w.Recorded →
    (w.run actions).Recorded := by
  induction actions with
  | nil => exact fun hw => hw
  | cons a actions ih => exact fun hw => ih (hw.act a)

theorem recorded_initial (store : Store) : (initial store).Recorded where
  within := nofun
  keeps i s h := by cases h

/-! ## Pairs -/

theorem exists_lastAnswer {bag : Bag} (h : w.lastAnswer? i = some bag) :
    ∃ last, w.lastAsked? i = some last := by
  refine Option.ne_none_iff_exists'.1 fun hnone => ?_
  rw [lastAsked?_eq, List.getLast?_eq_none_iff] at hnone
  rw [lastAnswer?, hnone] at h
  cases h

/-- The results are paired with the program if the last answer was also an answer to it. -/
theorem Keeps.isPaired_iff (hs : w.Keeps i s) : w.IsPaired i s ↔
    ∀ last bag, w.lastAsked? i = some last → w.lastAnswer? i = some bag →
      ∃ a ∈ w.callsOf i, a.program = last.program ∧ answered a.output = .ok bag := by
  rw [IsPaired, hs.results, hs.program]
  constructor
  · intro h last bag hlast hbag
    obtain ⟨a, ha, hprogram, hanswer⟩ := h bag hbag
    rw [hlast] at hprogram
    exact ⟨a, ha, (Option.some.inj hprogram).symm, hanswer⟩
  · intro h bag hbag
    obtain ⟨last, hlast⟩ := exists_lastAnswer hbag
    obtain ⟨a, ha, hprogram, hanswer⟩ := h last bag hlast hbag
    exact ⟨a, ha, by rw [hlast, hprogram]; rfl, hanswer⟩

/-- An answer to the last call is the last answer. -/
theorem lastAnswer?_of_lastAsked? {a : Asked} {bag : Bag} (ha : w.lastAsked? i = some a)
    (hb : answered a.output = .ok bag) : w.lastAnswer? i = some bag := by
  obtain ⟨before, hcalls⟩ := List.getLast?_eq_some_iff.1 ha
  rw [lastAnswer?, callsOf, hcalls, List.filterMap_append]
  simp [hb, Except.toOption]

/-- In every run, a session keeps the program of its last call and the bag of its last answer. They
belong together exactly if that bag was also an answer to a call for the program of the last call, as
it is if the last call was answered. -/
theorem run_isPaired_iff {store : Store} {actions : List Action} {w : World}
    (hw : (initial store).run actions = w) (hs : w.sessions[i]? = some s) :
    w.Keeps i s ∧
    (w.IsPaired i s ↔ ∀ last bag, w.lastAsked? i = some last → w.lastAnswer? i = some bag →
      ∃ a ∈ w.callsOf i, a.program = last.program ∧ answered a.output = .ok bag) ∧
    ∀ last bag, w.lastAsked? i = some last → answered last.output = .ok bag → w.IsPaired i s := by
  have hkeeps : w.Keeps i s := (hw ▸ (recorded_initial store).run actions).keeps i s hs
  refine ⟨hkeeps, hkeeps.isPaired_iff, fun last bag hlast hbag => ?_⟩
  refine hkeeps.isPaired_iff.2 fun last' bag' hlast' hbag' => ?_
  obtain rfl := Option.some.inj (hlast.symm.trans hlast')
  obtain rfl := Option.some.inj ((lastAnswer?_of_lastAsked? hlast hbag).symm.trans hbag')
  exact ⟨last, List.mem_of_getLast? hlast, rfl, hbag⟩

theorem isPaired_shifted :
    answered (.ok none) = .ok Bag.timedOut ∧
      ((initial shiftedStore).run shifting).IsPaired 0 shifted := by
  obtain ⟨-, -, hpaired⟩ := @run_isPaired_iff 0 shifted shiftedStore shifting _ run_shifting rfl
  rw [run_shifting]
  exact ⟨rfl, hpaired ⟨0, (compile {} 1 [shiftedStore.request 0]).text, .ok none⟩ _ rfl rfl⟩

/-- After that, the engine fails at both statements. -/
def crashing : List Action :=
  shifting ++ [.instantiate 0 fun _ => .error (.engine (.exited 1 ""))]

/-- The session then. -/
def crashed : Session :=
  { shifted with lastProgram := some (compile {} 1 [shiftedStore.request 1, shiftedStore.request 0]) }

theorem run_crashing : (initial shiftedStore).run crashing =
    { sessions := [crashed], store := (unshifted.giveUp shiftedStore).store,
      asked := [⟨0, (compile {} 1 [shiftedStore.request 0]).text, .ok none⟩,
        ⟨0, (compile {} 1 [shiftedStore.request 1, shiftedStore.request 0]).text,
          .error (.engine (.exited 1 ""))⟩] } := by
  have hseed : seedFault? shifted.seed = none := by decide +kernel
  have he := @Session.instantiate_fresh shifted (unshifted.giveUp shiftedStore).store
    (List.cons_ne_nil _ _) rfl rfl hseed fun _ => .error (.engine (.exited 1 ""))
  have hrun : (initial shiftedStore).run crashing = (((initial shiftedStore).run shifting).act
      (.instantiate 0 fun _ => .error (.engine (.exited 1 "")))).1 := by
    rw [run, crashing, List.foldl_append]
    rfl
  rw [hrun, run_shifting, act_instantiate rfl, evaluate, he]
  rfl

/-- Beside the program of two statements at which the engine failed, the session has the answer to a
program of one. -/
theorem not_isPaired_crashed :
    let w := (initial shiftedStore).run crashing
    w.sessions[0]? = some crashed ∧ ¬ w.IsPaired 0 crashed := by
  rw [run_crashing]
  refine ⟨rfl, fun h => ?_⟩
  have hne : (compile {} 1 [shiftedStore.request 1, shiftedStore.request 0]).text ≠
      (compile {} 1 [shiftedStore.request 0]).text := by decide +kernel
  obtain ⟨a, ha, hprogram, hanswer⟩ := h Bag.timedOut rfl
  rcases List.mem_pair.1 ha with rfl | rfl
  · exact hne (Option.some.inj hprogram)
  · cases hanswer

end AlgebraBatch.Batch.World
