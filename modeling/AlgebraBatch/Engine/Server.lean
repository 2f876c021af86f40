import AlgebraBatch.Datum.Display
import AlgebraBatch.Datum.Number
import AlgebraBatch.Engine.Output

/-!
# Engines behind a server

A pooled engine is asked by a post over HTTP. A post that fails, or is answered with a status
outside 200 to 299, is sent again after a pause that doubles each time, until the retries are used
up; a timeout, on our side or reported by the server, ends the matter. `ServerEngine.ask` gives the
number of posts, the pauses between them and the outcome. It is assumed that the host keeps every
pause that it is told, also one that is negative, infinite, no number or longer than a clock can hold:
sleeping does not fail.
-/

namespace AlgebraBatch.Engine

open AlgebraBatch.Text

structure ServerEngine where
  url : Datum
  timeout : Binary64 := .ofDecimal false 10 0
  retries : Int := 2
  backoff : Binary64 := .ofDecimal false 2 (-1)
  deriving Repr

/-- How a post is answered. -/
inductive Response where
  | timedOut
  | failed (reason : String)
  | answered (status : Int) (body : Option String)
  deriving DecidableEq, Repr

/-- What came of asking: how many posts were sent, the pauses in order, and the output. -/
structure Exchange where
  posts : Nat
  pauses : List Binary64
  output : Except Fault (Option String)

namespace ServerEngine

/-- The status by which a server reports a timeout of its engine. -/
def timeoutStatus : Int := 416

/-- The time that the server may take, in whole milliseconds. -/
def milliseconds (engine : ServerEngine) : Except Fault Int :=
  (engine.timeout.mul (.ofDecimal false 1000 0)).toInteger

/-- The output that a response brings, or why the post has to be sent again. -/
def settle (engine : ServerEngine) : Response → Except EngineFault (Option String)
  | .timedOut => .ok none
  | .failed reason => .error (.requestFailed engine.url.display reason)
  | .answered status body =>
    if status == timeoutStatus then .ok none
    else if 200 ≤ status && status < 300 then .ok body
    else .error (.httpStatus status engine.url.display (body.getD ""))

/-- The pause after the post with this number, from zero. Only its computation can fail, not its
keeping. -/
def pause (engine : ServerEngine) (post : Nat) : Except Fault Binary64 :=
  match Binary64.ofInt? (Nat.pow 2 post) with
  | some factor => .ok (engine.backoff.mul factor)
  | none => .error .tooLarge

/-- Posts up to `left + 1` times, the first of them with the number `post`. A failed post is told with
the url, which may be a value that cannot be written. -/
def postFrom (engine : ServerEngine) (responses : Nat → Response) : Nat → Nat → Exchange
  | left, post =>
    match engine.settle (responses post), engine.url.writingFault?, left with
    | .ok output, _, _ => ⟨1, [], .ok output⟩
    | .error _, some fault, _ => ⟨1, [], .error fault⟩
    | .error fault, none, 0 => ⟨1, [], .error (.engine fault)⟩
    | .error _, none, left + 1 =>
      match engine.pause post with
      | .error fault => ⟨1, [], .error fault⟩
      | .ok pause =>
        let next := postFrom engine responses left (post + 1)
        ⟨next.posts + 1, pause :: next.pauses, next.output⟩

/-- Asks a server whose response to each post is known. An engine that allows no post at all has no
outcome to report. -/
def ask (engine : ServerEngine) (responses : Nat → Response) : Exchange :=
  if engine.retries < 0 then ⟨0, [], .error .wrongType⟩
  else engine.postFrom responses engine.retries.toNat 0

end ServerEngine

end AlgebraBatch.Engine
