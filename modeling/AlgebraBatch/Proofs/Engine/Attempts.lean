import AlgebraBatch.Proofs.Decimal.Scaling
import AlgebraBatch.Proofs.Engine.Calls

/-!
# Attempts at a server

A server is asked until a response brings an output or the retries are used up. `TakesCourse` says
what is to come of it: how many posts are made, that they are all the same, how long the pauses
between them are, and what the outcome is. A post takes one retry (`postFrom_failed`), so by induction
the posts go on to the first output (`postFrom_first`) or to the last retry (`postFrom_last`). With
fewer than 1000 retries a call takes its course unless its timeout is no number of milliseconds, or a
failure cannot be told because the url cannot be written (`takesCourse_iff`).
-/

namespace AlgebraBatch.Engine

/-- The fault that tells what is wrong with a response. -/
inductive Describes (url : Datum) : Response → EngineFault → Prop where
  | failed {reason : String} : Describes url (.failed reason) (.requestFailed url.display reason)
  | status {status : Int} {body : Option String} : (Response.answered status body).output? = none →
      Describes url (.answered status body) (.httpStatus status url.display (body.getD ""))

namespace ServerEngine

/-- The call makes this many posts with the same url and the same data. Between them it pauses, for
the backoff first and then for twice as long each time. -/
structure Paces (engine : ServerEngine) (program : String) (posts : Nat) (call : Call) : Prop where
  sent : ∃ timeout, call.sent = List.replicate posts (.posted engine.url program timeout)
  pauses : call.pauses = (List.range (posts - 1)).map engine.backoff.scale

/-- A call stops at the first response that brings an output, and gives this output. If none of the
responses does, it stops after the last retry with a fault that describes the last response. -/
structure TakesCourse (engine : ServerEngine) (program : String) (responses : Nat → Response)
    (call : Call) : Prop where
  first : ∀ k ≤ engine.retries.toNat, ∀ text, (responses k).output? = some text →
    (∀ j < k, (responses j).output? = none) →
      engine.Paces program (k + 1) call ∧ call.output = .ok text
  last : (∀ k ≤ engine.retries.toNat, (responses k).output? = none) →
    engine.Paces program (engine.retries.toNat + 1) call ∧
      ∃ fault, Describes engine.url (responses engine.retries.toNat) fault ∧
        call.output = .error (.engine fault)

variable {engine : ServerEngine} {responses : Nat → Response}

/-! ## Single posts -/

theorem settle_describes (engine : ServerEngine) {r : Response} (h : r.output? = none) :
    ∃ fault, Describes engine.url r fault ∧ engine.settle r = .error fault := by
  cases r with
  | timedOut => cases h
  | failed reason => exact ⟨_, .failed, rfl⟩
  | answered status body =>
    refine ⟨_, .status h, ?_⟩
    rw [Response.output?] at h
    rw [settle]
    split at h
    · cases h
    · next hs =>
      split at h
      · cases h
      · next hr => rw [if_neg hs, if_neg hr]

theorem pause_eq {post : Nat} (h : post < 1024) :
    engine.pause post = .ok (engine.backoff.scale post) := by
  have hmul := engine.backoff.mul_pow_two h
  rw [pause]
  cases hf : Binary64.ofInt? (Nat.pow 2 post) with
  | none => rw [hf] at hmul; cases hmul
  | some factor =>
    rw [hf] at hmul
    exact congrArg _ (Option.some.inj hmul)

theorem postFrom_output {post : Nat} {text : Option String} (left : Nat)
    (h : (responses post).output? = some text) :
    engine.postFrom responses left post = ⟨1, [], .ok text⟩ := by
  unfold postFrom
  simp only [settle_of_output h]

/-- After a failure and a pause the post is sent again, with one retry less. -/
theorem postFrom_failed {post : Nat} (left : Nat) (hurl : engine.url.isOverlong = false)
    (hpost : post < 1024) (h : (responses post).output? = none) :
    engine.postFrom responses (left + 1) post =
      ⟨(engine.postFrom responses left (post + 1)).posts + 1,
        engine.backoff.scale post :: (engine.postFrom responses left (post + 1)).pauses,
        (engine.postFrom responses left (post + 1)).output⟩ := by
  obtain ⟨fault, -, hs⟩ := settle_describes engine h
  conv_lhs => unfold postFrom
  rw [hs, writingFault?_eq_none hurl]
  simp only [pause_eq hpost]

/-! ## All posts -/

/-- The pauses after the posts from this one on. -/
def pausesFrom (engine : ServerEngine) (post count : Nat) : List Binary64 :=
  (List.range' post count).map engine.backoff.scale

theorem pausesFrom_succ (post count : Nat) : engine.pausesFrom post (count + 1) =
    engine.backoff.scale post :: engine.pausesFrom (post + 1) count := rfl

theorem postFrom_first {k : Nat} {text : Option String} (hurl : engine.url.isOverlong = false) :
    ∀ {left post : Nat}, k ≤ left → post + k ≤ 1024 → (responses (post + k)).output? = some text →
      (∀ j < k, (responses (post + j)).output? = none) →
      engine.postFrom responses left post = ⟨k + 1, engine.pausesFrom post k, .ok text⟩ := by
  -- Each failure before the output takes one post and one retry.
  induction k with
  | zero => exact fun _ _ hk _ => postFrom_output _ hk
  | succ k ih =>
    intro left post hle hlt hk hfirst
    obtain ⟨left, rfl⟩ : ∃ n, left = n + 1 := ⟨left - 1, by omega⟩
    have hfailed : (responses post).output? = none := hfirst 0 (by omega)
    have hnext : post + (k + 1) = post + 1 + k := by omega
    have hlater : ∀ j < k, (responses (post + 1 + j)).output? = none := fun j hj => by
      have := hfirst (j + 1) (by omega)
      rwa [show post + (j + 1) = post + 1 + j by omega] at this
    rw [postFrom_failed left hurl (by omega) hfailed,
      ih (Nat.le_of_succ_le_succ hle) (by omega) (hnext ▸ hk) hlater, pausesFrom_succ]

theorem postFrom_last (hurl : engine.url.isOverlong = false) (left : Nat) :
    ∀ {post : Nat}, post + left ≤ 1024 → (∀ j ≤ left, (responses (post + j)).output? = none) →
      ∃ fault, Describes engine.url (responses (post + left)) fault ∧
        engine.postFrom responses left post =
          ⟨left + 1, engine.pausesFrom post left, .error (.engine fault)⟩ := by
  induction left with
  | zero =>
    intro post _ hnone
    obtain ⟨fault, hdescribes, hs⟩ := settle_describes engine (hnone 0 le_rfl)
    refine ⟨fault, hdescribes, ?_⟩
    unfold postFrom
    simp only [Nat.add_zero] at hs
    simp only [hs, writingFault?_eq_none hurl]
    rfl
  | succ left ih =>
    intro post hlt hnone
    have hfailed : (responses post).output? = none := hnone 0 (by omega)
    have hlater : ∀ j ≤ left, (responses (post + 1 + j)).output? = none := fun j hj => by
      have := hnone (j + 1) (by omega)
      rwa [show post + (j + 1) = post + 1 + j by omega] at this
    obtain ⟨fault, hdescribes, hpost⟩ := ih (by omega) hlater
    refine ⟨fault, ?_, ?_⟩
    · rwa [show post + (left + 1) = post + 1 + left by omega]
    · rw [postFrom_failed left hurl (by omega) hfailed, hpost, pausesFrom_succ]

/-! ## Calls -/

/-- Either some response up to a number brings an output, and one of these is the first, or none
does. -/
theorem first_or_none (responses : Nat → Response) (last : Nat) :
    (∃ k ≤ last, ∃ text, (responses k).output? = some text ∧
      ∀ j < k, (responses j).output? = none) ∨ ∀ k ≤ last, (responses k).output? = none := by
  induction last with
  | zero =>
    cases h : (responses 0).output? with
    | some text => exact .inl ⟨0, le_rfl, text, h, nofun⟩
    | none => exact .inr fun k hk => Nat.le_zero.1 hk ▸ h
  | succ last ih =>
    rcases ih with ⟨k, hk, hfirst⟩ | hnone
    · exact .inl ⟨k, Nat.le_succ_of_le hk, hfirst⟩
    cases h : (responses (last + 1)).output? with
    | some text => exact .inl ⟨last + 1, le_rfl, text, h, fun j hj => hnone j (Nat.le_of_lt_succ hj)⟩
    | none =>
      refine .inr fun k hk => ?_
      rcases Nat.le_succ_iff.1 hk with hk | rfl
      · exact hnone k hk
      · exact h

/-- What takes its course ends well. -/
theorem TakesCourse.endsWell {program : String} {host : Host} {call : Call}
    (h : engine.TakesCourse program host.response call) :
    EndsWell (Says host (.server engine)) call.output := by
  rcases first_or_none host.response engine.retries.toNat with ⟨k, hk, text, htext, hfirst⟩ | hnone
  · obtain ⟨-, hout⟩ := h.first k hk text htext hfirst
    exact .inl ⟨text, hout, .responded ⟨k, Nat.zero_le k, hk, htext, fun j _ => hfirst j⟩⟩
  · obtain ⟨-, fault, -, hout⟩ := h.last hnone
    exact .inr ⟨fault, hout⟩

theorem paces_call (program : String) {host : Host} {n : Int} {posts : Nat}
    {output : Except Fault (Option String)} (hn : engine.milliseconds = .ok n)
    (hask : engine.ask host.response = ⟨posts + 1, engine.pausesFrom 0 posts, output⟩) :
    engine.Paces program (posts + 1) ((Connector.server engine).call program host) ∧
      ((Connector.server engine).call program host).output = output := by
  rw [Connector.call]
  simp only [hn, hask]
  exact ⟨⟨⟨toString n, rfl⟩, by rw [pausesFrom, ← List.range_eq_range']; rfl⟩, trivial⟩

theorem takesCourse_call {program : String} {host : Host} {n : Int} (h₀ : 0 ≤ engine.retries)
    (h : engine.retries < 1000) (hn : engine.milliseconds = .ok n)
    (hurl : engine.url.isOverlong = true → (host.response 0).output?.isSome = true) :
    engine.TakesCourse program host.response ((Connector.server engine).call program host) := by
  have hlast : engine.retries.toNat < 1000 := by omega
  have hask : engine.ask host.response = engine.postFrom host.response engine.retries.toNat 0 :=
    if_neg (Int.not_lt.2 h₀)
  refine ⟨fun k hk text htext hfirst => paces_call program hn ?_, fun hnone => ?_⟩
  · rw [hask]
    cases ho : engine.url.isOverlong with
    | false =>
      refine postFrom_first ho hk (by omega) ?_ ?_
      · rwa [Nat.zero_add]
      · simpa only [Nat.zero_add] using hfirst
    | true =>
      -- The first response brings an output, so no failure has to be told.
      obtain rfl : k = 0 := by
        by_contra hk0
        have := hurl ho
        rw [hfirst 0 (by omega)] at this
        cases this
      exact postFrom_output _ htext
  · have ho : engine.url.isOverlong = false := by
      by_contra ho
      have := hurl (eq_true_of_ne_false ho)
      rw [hnone 0 (Nat.zero_le _)] at this
      cases this
    have hnone' : ∀ j ≤ engine.retries.toNat, (host.response (0 + j)).output? = none := by
      simpa only [Nat.zero_add] using hnone
    obtain ⟨fault, hdescribes, hpost⟩ := postFrom_last ho engine.retries.toNat (by omega) hnone'
    rw [Nat.zero_add] at hdescribes
    obtain ⟨hpaces, hout⟩ := paces_call program hn (hask.trans hpost)
    exact ⟨hpaces, fault, hdescribes, hout⟩

/-- With fewer than 1000 retries a call takes its course exactly if its timeout is a number of
milliseconds, and if a failure can be told at all: an url that cannot be written is never told of if
the first response brings an output. -/
theorem takesCourse_iff (engine : ServerEngine) (program : String) (host : Host)
    (h₀ : 0 ≤ engine.retries) (h : engine.retries < 1000) :
    engine.TakesCourse program host.response ((Connector.server engine).call program host) ↔
      (engine.timeout.mul (.ofDecimal false 1000 0)).isFinite = true ∧
        (engine.url.isOverlong = true → (host.response 0).output?.isSome = true) := by
  constructor
  · intro hcourse
    have hfits := (endsWell_server engine program host).1 hcourse.endsWell
    exact ⟨hfits.timeout, hfits.url⟩
  · rintro ⟨hfinite, hurl⟩
    rcases engine.milliseconds_cases with ⟨-, n, hn⟩ | ⟨hinfinite, -⟩
    · exact takesCourse_call h₀ h hn hurl
    · cases hfinite.symm.trans hinfinite

/-- A server that is asked up to four times. -/
def patientServer : ServerEngine :=
  { url := .str "u", retries := 3, backoff := .ofDecimal false 5 (-1) }

/-- The third response brings an output. -/
def busyHost : Host where
  processEnd := .timedOut
  response
    | 0 => .failed "refused"
    | 1 => .answered 503 none
    | 2 => .answered 200 (some "ok")
    | _ => .timedOut

theorem takesCourse_patientServer :
    (0 ≤ patientServer.retries ∧ patientServer.retries < 1000) ∧
      patientServer.TakesCourse "x$" busyHost.response
        ((Connector.server patientServer).call "x$" busyHost) := by
  have hfinite : (patientServer.timeout.mul (.ofDecimal false 1000 0)).isFinite = true := by
    decide +kernel
  exact ⟨by decide, (takesCourse_iff patientServer "x$" busyHost (by decide) (by decide)).2
    ⟨hfinite, nofun⟩⟩

/-- A timeout that is finite, but not as a number of milliseconds. -/
def longServer : ServerEngine := { url := .str "u", timeout := .ofDecimal false 1 306 }

def promptHost : Host where
  processEnd := .timedOut
  response _ := .answered 200 (some "ok")

/-- The server would answer the first post, but no post is made. -/
theorem not_takesCourse_longServer :
    (0 ≤ longServer.retries ∧ longServer.retries < 1000 ∧ longServer.backoff.isNegative = false ∧
      longServer.timeout.isFinite = true) ∧
    ¬ longServer.TakesCourse "x$" promptHost.response
      ((Connector.server longServer).call "x$" promptHost) := by
  have hproduct : (longServer.timeout.mul (.ofDecimal false 1000 0)).isFinite = false := by
    decide +kernel
  refine ⟨⟨by decide, by decide, by decide +kernel, by decide +kernel⟩, fun hcourse => ?_⟩
  have hfits := (endsWell_server longServer "x$" promptHost).1 hcourse.endsWell
  cases hproduct.symm.trans hfits.timeout

end ServerEngine

end AlgebraBatch.Engine
