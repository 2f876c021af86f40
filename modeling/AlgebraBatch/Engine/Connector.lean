import AlgebraBatch.Engine.Process
import AlgebraBatch.Engine.Server
import AlgebraBatch.Text.ShellWords

/-!
# Connectors

A connector carries a program to an engine and brings back its output. `Connector.ofSettings` builds
one from a map: the platform is `local` for a process and `server` for a pooled engine, and the
other settings are those of the engine. `Connector.call` describes a call completely: what was sent,
the pauses, and the output. The outside world enters as a `Host`, which knows how a process ends and
how each post is answered.
-/

namespace AlgebraBatch.Engine

open AlgebraBatch.Text

inductive Connector where
  | process (engine : ProcessEngine)
  | server (engine : ServerEngine)
  deriving Repr

/-- What the outside world does during a call. -/
structure Host where
  processEnd : ProcessEnd
  response : Nat → Response

/-- A message to an engine. -/
inductive Sent where
  | started (command : List Datum) (input : String) (timeout : Binary64)
  | posted (url : Datum) (program timeout : String)
  deriving Repr

structure Call where
  sent : List Sent := []
  pauses : List Binary64 := []
  output : Except Fault (Option String)

namespace Connector

def name : Connector → String
  | process _ => "ProcessConnector"
  | server _ => "HttpConnector"

/-- Brings a program to the engine. -/
def call (connector : Connector) (program : String) (host : Host) : Call :=
  match connector with
  | process engine =>
    match engine.inputFault? with
    | some fault => { output := .error fault }
    | none =>
      { sent := [.started engine.command (engine.input program) engine.timeout],
        output := engine.output host.processEnd }
  | server engine =>
    match engine.milliseconds with
    | .error fault => { output := .error fault }
    | .ok timeout =>
      let exchange := engine.ask host.response
      { sent := List.replicate exchange.posts (.posted engine.url program (toString timeout)),
        pauses := exchange.pauses, output := exchange.output }

/-! ## Settings -/

inductive Platform where
  | process
  | server
  deriving DecidableEq, Repr

namespace Platform

def name : Platform → String
  | process => "local"
  | server => "server"

def settingNames : Platform → List String
  | process => ["command", "timeout", "preamble"]
  | server => ["url", "timeout", "retries", "backoff"]

/-- The platform that a setting names. -/
def ofSetting : Datum → Except Fault Platform
  | .str "local" => .ok process
  | .str "server" => .ok server
  | d => .error (d.writingFault?.getD (.badValue ("Unsupported engine platform: " ++ d.debug)))

end Platform

/-- A command is a text that a shell would cut into words, or lists its words itself. -/
def commandOf : Datum → Except Fault (List Datum)
  | .str s =>
    match shellWords s with
    | .ok words => .ok (words.map .str)
    | .error fault => .error (.badValue fault.message)
  | d =>
    match d.elements? with
    | some words => .ok words
    | none => .error .wrongType

/-- A setting read from the map, or its default. -/
def setting {α : Type} (name : String) (entries : List (Datum × Datum)) (default : α)
    (read : Datum → Except Fault α) : Except Fault α :=
  match Datum.lookup (.str name) entries with
  | some d => read d
  | none => .ok default

def processOf (entries : List (Datum × Datum)) : Except Fault ProcessEngine := do
  let default : ProcessEngine := {}
  let command ← setting "command" entries default.command commandOf
  let timeout ← setting "timeout" entries default.timeout Datum.toFloat
  .ok { command, timeout, preamble := (Datum.lookup (.str "preamble") entries).getD .null }

def serverOf (url : Datum) (entries : List (Datum × Datum)) : Except Fault ServerEngine := do
  let default : ServerEngine := { url }
  let timeout ← setting "timeout" entries default.timeout Datum.toFloat
  let retries ← setting "retries" entries default.retries Datum.toInteger
  let backoff ← setting "backoff" entries default.backoff Datum.toFloat
  .ok { url, timeout, retries, backoff }

/-- The keys that name no setting of the platform, in order, as messages show them. -/
def unknownSettings (platform : Platform) (entries : List (Datum × Datum)) : List String :=
  let isKnown (key : Datum) : Bool :=
    match key with
    | .str s => platform.settingNames.contains s
    | _ => false
  (((entries.map Prod.fst).filter fun key => !isKnown key).map Datum.display).mergeSort
    (fun a b => a ≤ b)

def refuseUnknown (platform : Platform) (entries : List (Datum × Datum)) : Except Fault Unit :=
  match unknownSettings platform entries with
  | [] => .ok ()
  | names => .error (.badValue ("Unknown settings for a " ++ quoted platform.name ++
      " connector: " ++ joinWith ", " names))

def ofEntries (entries : List (Datum × Datum)) : Except Fault Connector := do
  let platform ← Platform.ofSetting
    ((Datum.lookup (.str "platform") entries).getD (.str Platform.process.name))
  let entries := Datum.erase (.str "platform") entries
  match platform with
  | .process =>
    refuseUnknown .process entries
    .process <$> processOf entries
  | .server =>
    match Datum.lookup (.str "url") entries with
    | none => .error (.badValue "A 'server' connector needs a 'url'")
    | some url =>
      refuseUnknown .server entries
      .server <$> serverOf url entries

/-- The connector that a map of settings describes; without settings, a local one. -/
def ofSettings : Datum → Except Fault Connector
  | .null => ofEntries []
  | .map entries => ofEntries entries
  | d => .error (.badValue
      ("Settings for an engine connector must be a mapping, got " ++ d.typeName))

end Connector

end AlgebraBatch.Engine
