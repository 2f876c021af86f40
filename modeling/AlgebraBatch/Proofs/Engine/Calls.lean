import AlgebraBatch.Proofs.Engine.Settings

/-!
# Calls that end well

A call ends well if it brings what the engine says, or nothing after a timeout, or the fault of an
engine. Other faults come from values that cannot be written or converted, from a command without a
program, from a server that may not be asked at all, and from a pause that would be too long: two to
the number of the post is a double up to the post with number 1023. `isContained_iff` says for which
settings, and for what the outside world does, nothing else can happen.
-/

namespace AlgebraBatch.Engine

/-- What a response brings: a body, or nothing after a timeout. A failure brings no output. -/
def Response.output? : Response → Option (Option String)
  | .timedOut => some none
  | .failed _ => none
  | .answered status body =>
    if status == ServerEngine.timeoutStatus then some none
    else if 200 ≤ status && status < 300 then some body
    else none

/-- The first output among the responses to some posts. -/
def IsFirstOutput (responses : Nat → Response) (post last : Nat) (text : Option String) : Prop :=
  ∃ k, post ≤ k ∧ k ≤ last ∧ (responses k).output? = some text ∧
    ∀ j, post ≤ j → j < k → (responses j).output? = none

/-- What the engine of a connector says. -/
inductive Says (host : Host) : Connector → Option String → Prop where
  | timedOut {engine} : host.processEnd = .timedOut → Says host (.process engine) none
  | exited {engine status stdout stderr} : host.processEnd = .exited status stdout stderr →
      ProcessEngine.answered status stdout = true → Says host (.process engine) stdout
  | responded {engine text} : IsFirstOutput host.response 0 engine.retries.toNat text →
      Says host (.server engine) text

/-- An output as it is expected, or the fault of an engine. -/
def EndsWell (expected : Option String → Prop) (output : Except Fault (Option String)) : Prop :=
  (∃ text, output = .ok text ∧ expected text) ∨ ∃ fault, output = .error (.engine fault)

section EndsWell

variable {expected : Option String → Prop}

theorem endsWell_ok {text : Option String} (h : expected text) : EndsWell expected (.ok text) :=
  .inl ⟨text, rfl, h⟩

theorem endsWell_engine (fault : EngineFault) : EndsWell expected (.error (.engine fault)) :=
  .inr ⟨fault, rfl⟩

theorem not_endsWell {fault : Fault} (h : ∀ f, fault ≠ .engine f) :
    ¬ EndsWell expected (.error fault) := by
  rintro (⟨_, h', _⟩ | ⟨f, h'⟩)
  · cases h'
  · exact h f (Except.error.inj h')

end EndsWell

theorem writingFault?_of_overlong {d : Datum} (h : d.isOverlong = true) :
    ∃ fault, d.writingFault? = some fault ∧ ∀ f, fault ≠ .engine f := by
  rw [Datum.writingFault?, if_pos h]
  exact ⟨_, rfl, fun _ => Fault.noConfusion⟩

theorem writingFault?_eq_none {d : Datum} (h : d.isOverlong = false) : d.writingFault? = none := by
  rw [Datum.writingFault?, if_neg (ne_true_of_eq_false h)]

/-! ## Processes -/

/-- A process can be told of its preamble, and a failure of its program can be reported. -/
structure ProcessEngine.CallFits (engine : ProcessEngine) (host : Host) : Prop where
  preamble : engine.preamble.isOverlong = false
  program : ∀ reason, host.processEnd = .notStarted reason →
    ∃ program arguments, engine.command = program :: arguments ∧ program.isOverlong = false

theorem endsWell_output (engine : ProcessEngine) (host : Host) :
    EndsWell (Says host (.process engine)) (engine.output host.processEnd) ↔
      ∀ reason, host.processEnd = .notStarted reason →
        ∃ program arguments, engine.command = program :: arguments ∧ program.isOverlong = false := by
  cases he : host.processEnd with
  | timedOut => exact iff_of_true (endsWell_ok (.timedOut he)) fun _ => nofun
  | exited status stdout stderr =>
    refine iff_of_true ?_ fun _ => nofun
    rw [ProcessEngine.output]
    split
    · next h => exact endsWell_ok (.exited he h)
    · exact endsWell_engine _
  | notStarted reason =>
    rw [ProcessEngine.output]
    cases engine.command with
    | nil => exact iff_of_false (not_endsWell nofun) fun h => nomatch h reason rfl
    | cons program arguments =>
      cases ho : program.isOverlong with
      | true =>
        obtain ⟨fault, hw, hf⟩ := writingFault?_of_overlong ho
        simp only [hw, Option.getD_some]
        refine iff_of_false (not_endsWell hf) fun h => ?_
        obtain ⟨program', arguments', hc, ho'⟩ := h reason rfl
        obtain ⟨rfl, -⟩ := List.cons.inj hc
        cases ho.symm.trans ho'
      | false =>
        simp only [writingFault?_eq_none ho, Option.getD_none]
        exact iff_of_true (endsWell_engine _) fun _ _ => ⟨program, arguments, rfl, ho⟩

theorem endsWell_process (engine : ProcessEngine) (program : String) (host : Host) :
    EndsWell (Says host (.process engine)) ((Connector.process engine).call program host).output ↔
      engine.CallFits host := by
  rw [Connector.call, ProcessEngine.inputFault?]
  cases ho : engine.preamble.isOverlong with
  | true =>
    obtain ⟨fault, hw, hf⟩ := writingFault?_of_overlong ho
    simp only [hw]
    exact iff_of_false (not_endsWell hf) fun h => nomatch ho.symm.trans h.preamble
  | false =>
    simp only [writingFault?_eq_none ho]
    exact (endsWell_output engine host).trans ⟨fun h => ⟨ho, h⟩, fun h => h.program⟩

/-! ## Servers -/

namespace ServerEngine

variable {engine : ServerEngine} {responses : Nat → Response}

theorem settle_of_output {r : Response} {text : Option String} (h : r.output? = some text) :
    engine.settle r = .ok text := by
  cases r with
  | timedOut => cases h; rfl
  | failed reason => cases h
  | answered status body =>
    rw [Response.output?] at h
    rw [settle]
    split at h
    · next hs => rw [if_pos hs, Option.some.inj h]
    · next hs =>
      split at h
      · next hr => rw [if_neg hs, if_pos hr, Option.some.inj h]
      · cases h

theorem settle_of_failure {r : Response} (h : r.output? = none) :
    ∃ fault, engine.settle r = .error fault := by
  cases r with
  | timedOut => cases h
  | failed reason => exact ⟨_, rfl⟩
  | answered status body =>
    rw [Response.output?] at h
    rw [settle]
    split at h
    · cases h
    · next hs =>
      split at h
      · cases h
      · next hr => exact ⟨_, by rw [if_neg hs, if_neg hr]⟩

theorem pause_isOk (engine : ServerEngine) (post : Nat) :
    (∃ pause, engine.pause post = .ok pause) ↔ post < 1024 := by
  rw [← Binary64.isSome_ofInt?_pow, pause]
  cases Binary64.ofInt? (Nat.pow 2 post) with
  | none => exact iff_of_false nofun nofun
  | some factor => exact iff_of_true ⟨_, rfl⟩ rfl

theorem pause_error {post : Nat} {fault : Fault} (h : engine.pause post = .error fault) :
    fault = .tooLarge := by
  unfold pause at h
  split at h
  · cases h
  · exact (Except.error.inj h).symm

/-- After a failure the first output is that of the posts that follow. -/
theorem isFirstOutput_succ {post last : Nat} (h : (responses post).output? = none) :
    IsFirstOutput responses post last = IsFirstOutput responses (post + 1) last := by
  funext text
  refine propext (exists_congr fun k => ?_)
  constructor
  · rintro ⟨hlo, hhi, hk, hfirst⟩
    have hne : k ≠ post := by
      rintro rfl
      cases h.symm.trans hk
    exact ⟨by omega, hhi, hk, fun j hj hj' => hfirst j (by omega) hj'⟩
  · rintro ⟨hlo, hhi, hk, hfirst⟩
    refine ⟨by omega, hhi, hk, fun j hj hj' => ?_⟩
    rcases Nat.eq_or_lt_of_le hj with rfl | hlt
    · exact h
    · exact hfirst j hlt hj'

theorem exists_output_succ {post last : Nat} (h : (responses post).output? = none) :
    (∃ k, post ≤ k ∧ k ≤ last ∧ (responses k).output?.isSome = true) ↔
      ∃ k, post + 1 ≤ k ∧ k ≤ last ∧ (responses k).output?.isSome = true := by
  refine exists_congr fun k => ?_
  constructor
  · rintro ⟨hlo, hhi, hk⟩
    have hne : k ≠ post := by
      rintro rfl
      rw [h] at hk
      cases hk
    exact ⟨by omega, hhi, hk⟩
  · rintro ⟨hlo, hhi, hk⟩
    exact ⟨by omega, hhi, hk⟩

/-- Without a failure the first response is the output. -/
theorem endsWell_first {left post : Nat} {text : Option String}
    (h : (responses post).output? = some text) :
    EndsWell (IsFirstOutput responses post (post + left))
      (engine.postFrom responses left post).output := by
  unfold postFrom
  simp only [settle_of_output h]
  exact endsWell_ok ⟨post, le_rfl, Nat.le_add_right _ _, h, fun j hj hj' => by omega⟩

/-- A failure cannot be told with an url that cannot be written. -/
theorem endsWell_overlong (hurl : engine.url.isOverlong = true) (left post : Nat) :
    EndsWell (IsFirstOutput responses post (post + left))
      (engine.postFrom responses left post).output ↔ (responses post).output?.isSome = true := by
  cases hr : (responses post).output? with
  | some text => exact iff_of_true (endsWell_first hr) rfl
  | none =>
    obtain ⟨fault, hs⟩ := settle_of_failure hr
    obtain ⟨fault', hw, hf⟩ := writingFault?_of_overlong hurl
    unfold postFrom
    rw [hs, hw]
    exact iff_of_false (not_endsWell hf) nofun

/-- Induction over the posts that are left: the pause after the post with number 1024 is too long,
so an output has to come by then if there are more posts than that. -/
theorem endsWell_postFrom (hurl : engine.url.isOverlong = false) (left : Nat) : ∀ post ≤ 1024,
    EndsWell (IsFirstOutput responses post (post + left))
      (engine.postFrom responses left post).output ↔
      (1024 < post + left → ∃ k, post ≤ k ∧ k ≤ 1024 ∧ (responses k).output?.isSome = true) := by
  induction left with
  | zero =>
    intro post hpost
    refine iff_of_true ?_ fun h => absurd h (by omega)
    cases hr : (responses post).output? with
    | some text => exact endsWell_first hr
    | none =>
      obtain ⟨fault, hs⟩ := settle_of_failure hr
      unfold postFrom
      rw [hs, writingFault?_eq_none hurl]
      exact endsWell_engine fault
  | succ left ih =>
    intro post hpost
    cases hr : (responses post).output? with
    | some text =>
      exact iff_of_true (endsWell_first hr) fun _ => ⟨post, le_rfl, hpost, by rw [hr]; rfl⟩
    | none =>
      obtain ⟨fault, hs⟩ := settle_of_failure hr
      unfold postFrom
      rw [hs, writingFault?_eq_none hurl]
      simp only
      cases hp : engine.pause post with
      | error fault' =>
        obtain rfl := pause_error hp
        have hge : ¬ post < 1024 := fun hlt => by
          obtain ⟨pause, hp'⟩ := (pause_isOk engine post).2 hlt
          cases hp.symm.trans hp'
        obtain rfl : post = 1024 := by omega
        refine iff_of_false (not_endsWell nofun) fun h => ?_
        obtain ⟨k, hlo, hhi, hk⟩ := h (by omega)
        obtain rfl : k = 1024 := by omega
        rw [hr] at hk
        cases hk
      | ok pause =>
        have hlt := (pause_isOk engine post).1 ⟨pause, hp⟩
        have hsum : post + (left + 1) = post + 1 + left := by omega
        rw [isFirstOutput_succ hr, exists_output_succ hr, hsum]
        exact ih (post + 1) hlt

/-- A server can be asked, its failures can be reported, and no post comes after a pause that is too
long to be computed. That the host keeps all other pauses is assumed of it. -/
structure CallFits (engine : ServerEngine) (host : Host) : Prop where
  timeout : (engine.timeout.mul (.ofDecimal false 1000 0)).isFinite = true
  retries : 0 ≤ engine.retries
  url : engine.url.isOverlong = true → (host.response 0).output?.isSome = true
  pauses : 1024 < engine.retries → ∃ k ≤ 1024, (host.response k).output?.isSome = true

theorem milliseconds_cases (engine : ServerEngine) :
    (engine.timeout.mul (.ofDecimal false 1000 0)).isFinite = true ∧
      (∃ n, engine.milliseconds = .ok n) ∨
    (engine.timeout.mul (.ofDecimal false 1000 0)).isFinite = false ∧
      ∃ fault, engine.milliseconds = .error fault ∧ ∀ f, fault ≠ .engine f := by
  rw [milliseconds]
  cases engine.timeout.mul (.ofDecimal false 1000 0) with
  | nan => exact .inr ⟨rfl, _, rfl, fun _ => nofun⟩
  | infinite negative => exact .inr ⟨rfl, _, rfl, fun _ => nofun⟩
  | finite negative m q => exact .inl ⟨rfl, _, rfl⟩

theorem endsWell_ask (engine : ServerEngine) (host : Host) (h : 0 ≤ engine.retries) :
    EndsWell (Says host (.server engine)) (engine.ask host.response).output ↔
      (engine.url.isOverlong = true → (host.response 0).output?.isSome = true) ∧
      (1024 < engine.retries → ∃ k ≤ 1024, (host.response k).output?.isSome = true) := by
  have hengine : Says host (.server engine) =
      IsFirstOutput host.response 0 (0 + engine.retries.toNat) := by
    funext text
    rw [Nat.zero_add]
    exact propext ⟨fun h => by cases h; assumption, .responded⟩
  have hmany : 1024 < 0 + engine.retries.toNat ↔ 1024 < engine.retries := by omega
  rw [hengine, ask, if_neg (Int.not_lt.2 h)]
  cases hurl : engine.url.isOverlong with
  | true =>
    rw [endsWell_overlong hurl]
    exact ⟨fun hr => ⟨fun _ => hr, fun _ => ⟨0, Nat.zero_le _, hr⟩⟩, fun h => h.1 rfl⟩
  | false =>
    rw [endsWell_postFrom hurl _ 0 (Nat.zero_le _), hmany]
    simp only [Nat.zero_le, true_and, Bool.false_eq_true, false_implies]

end ServerEngine

theorem endsWell_server (engine : ServerEngine) (program : String) (host : Host) :
    EndsWell (Says host (.server engine)) ((Connector.server engine).call program host).output ↔
      engine.CallFits host := by
  rw [Connector.call]
  rcases engine.milliseconds_cases with ⟨hfinite, n, hn⟩ | ⟨hfinite, fault, he, hf⟩
  · simp only [hn]
    rcases Int.lt_or_le engine.retries 0 with hneg | hnonneg
    · rw [ServerEngine.ask, if_pos hneg]
      exact iff_of_false (not_endsWell nofun) fun h => absurd h.retries (by omega)
    · refine (engine.endsWell_ask host hnonneg).trans ⟨fun h => ?_, fun h => ⟨h.url, h.pauses⟩⟩
      exact ⟨hfinite, hnonneg, h.1, h.2⟩
  · simp only [he]
    exact iff_of_false (not_endsWell hf) fun h => nomatch hfinite.symm.trans h.timeout

/-! ## Connectors -/

namespace Connector

/-- Nothing keeps a call from ending well. -/
def CallFits (host : Host) : Connector → Prop
  | .process engine => engine.CallFits host
  | .server engine => engine.CallFits host

/-- A call ends well exactly if nothing keeps it from that. -/
theorem endsWell_call (connector : Connector) (program : String) (host : Host) :
    EndsWell (Says host connector) (connector.call program host).output ↔
      connector.CallFits host := by
  cases connector with
  | process engine => exact endsWell_process engine program host
  | server engine => exact endsWell_server engine program host

/-- The settings give a connector or are refused, and a call of the connector ends well. -/
def IsContained (entries : List (Datum × Datum)) (program : String) (host : Host) : Prop :=
  Settles (ofSettings (.map entries)) ∧ ∀ connector, ofSettings (.map entries) = .ok connector →
    EndsWell (Says host connector) (connector.call program host).output

/-- Nothing but a refusal of the settings, an output or the fault of an engine comes of a connector
exactly if its settings fit and nothing keeps its calls from ending well. -/
theorem isContained_iff (entries : List (Datum × Datum)) (program : String) (host : Host) :
    IsContained entries program host ↔ SettingsFit entries ∧
      ∀ connector, ofSettings (.map entries) = .ok connector → connector.CallFits host :=
  and_congr settles_ofSettings
    (forall₂_congr fun connector _ => connector.endsWell_call program host)

/-- A server that may not be asked at all. -/
def muteSettings : List (Datum × Datum) :=
  [(.str "platform", .str "server"), (.str "url", .str "u"), (.str "retries", .int (-1))]

def silentHost : Host where
  processEnd := .timedOut
  response _ := .timedOut

/-- The settings are accepted, but what comes of a call is no output and not the fault of an engine. -/
theorem not_isContained_muteSettings : ¬ IsContained muteSettings "x$" silentHost := by
  have hknown : unknownSettings .server [(.str "url", .str "u"), (.str "retries", .int (-1))] = [] := by
    simp [unknownSettings, Platform.settingNames]
  have hsettings : ofSettings (.map muteSettings) =
      .ok (.server { url := .str "u", retries := -1 }) :=
    bind_eq_ok.2 ⟨.server, rfl, bind_eq_ok.2 ⟨(), refuseUnknown_eq_ok.2 hknown, rfl⟩⟩
  intro h
  have hfits := (endsWell_call _ _ _).1 (h.2 _ hsettings)
  exact absurd hfits.retries (by decide)

end Connector

end AlgebraBatch.Engine
