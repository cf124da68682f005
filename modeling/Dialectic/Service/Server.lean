import Dialectic.Audit.Log
import Dialectic.Engine
import Dialectic.Preset
import Dialectic.Service.Body
import Dialectic.Service.Standard
import Dialectic.Service.View

/-!
# The service

The service computes labellings on request, shows the examples and the audit log, and says how it
is. Every step is a function of its state: the settings, the clock, the directory of the audit log
and what it remembers of the chain.
-/

namespace Dialectic

/-! ## State -/

/-- The state of the service. The settings may be any values; what is wrong with them shows when
they are needed. -/
structure Server where
  /-- What reads the values in requests and sends those in replies. -/
  frontend : Frontend
  /-- The name of the solver. -/
  solver : Json
  /-- The greatest number of arguments of a framework. -/
  maxArguments : Json
  /-- The clock. -/
  clock : Json
  /-- How long every computation takes, in milliseconds. -/
  elapsed : Binary64
  /-- How long the service has been running, in seconds. -/
  uptime : Json
  /-- How many answers were numbered. -/
  requests : Nat
  /-- The directory of the audit log. -/
  directory : Directory
  /-- The file of the audit log. -/
  auditPath : String
  /-- What is remembered of the chain. -/
  chain : Audit.Chain

namespace Server

/-- The version of the service. -/
def version : String := "0.1.0"

/-- A service that has just started, with an empty directory but for one folder. -/
def initial : Server where
  frontend := .standard
  solver := .str Sat.Intake.defaultName
  maxArguments := .int 64
  clock := .arr ([2024, 1, 2, 3, 4, 5, 678901].map .int)
  elapsed := Binary64.zero false
  uptime := .int 0
  requests := 0
  directory := ⟨[], [["dir"]]⟩
  auditPath := "audit.jsonl"
  chain := .fresh

/-! ## Health -/

/-- The full seconds of a number of seconds, which is taken as a floating-point number; none of a
value that is no finite number. -/
def fullSeconds? : Json → Option Int
  | .float x => x.trunc?
  | v => v.integer?.bind fun n => (Binary64.ofInt n).trunc?

/-- How the service is. The settings must be a name and an integer, or be accepted for one. -/
def health (s : Server) : Reply :=
  let fe := s.frontend
  match fullSeconds? s.uptime, fe.text [] s.solver, fe.integer [] s.maxArguments with
  | some seconds, .ok solver, .ok limit =>
    fe.ok (.obj
      [("status", .str "ok"),
       ("version", .str version),
       ("uptime_seconds", .int seconds),
       ("solver", .str solver),
       ("max_arguments", .int limit)])
  | _, _, _ => .internalError

/-! ## Examples -/

/-- An example with its counts. -/
def presetInfo (index : Nat) (p : Preset) : Json :=
  let counts :=
    match p.framework with
    | .ok f => (f.size, (f.attacks.length : Int))
    | .error _ => (0, 0)
  .obj
    [("index", .int index),
     ("name", .str p.name),
     ("description", .str p.description),
     ("apx", .str p.apx),
     ("num_arguments", .int counts.1),
     ("num_attacks", .int counts.2)]

/-- All examples. -/
def presets (s : Server) : Reply :=
  s.frontend.ok (.obj [("presets", .arr (Preset.all.zipIdx.map fun p => presetInfo p.2 p.1))])

/-- The example of a number. -/
def preset (s : Server) (index : String) : Reply :=
  match s.frontend.integer [.field "path", .field "index"] (.str index) with
  | .error issues => s.frontend.invalid issues
  | .ok i =>
    match Preset.get i with
    | .error e => s.frontend.detail 404 e.message
    | .ok p => s.frontend.ok (presetInfo i.toNat p)

/-! ## The audit log -/

/-- The number of log entries that is shown when it is not given. -/
def defaultLimit : Int := 50

/-- The number of log entries that is shown: at least one and at most two hundred. -/
def clampLimit (limit : Int) : Int := max 1 (min limit 200)

/-- The newest entries of the audit log, about as many as a number says. -/
def newestQueries (s : Server) (limit : Int) : Reply :=
  match Audit.recent s.directory s.auditPath (clampLimit limit) with
  | .error _ => .internalError
  | .ok entries =>
    s.frontend.ok (.obj [("queries", .arr entries), ("total", .int entries.length)])

/-- The newest entries of the audit log, as many as a text says. -/
def queries (s : Server) (limit : Option String) : Reply :=
  let limit : Validated Int :=
    match limit with
    | none => .ok defaultLimit
    | some text => s.frontend.integer [.field "query", .field "limit"] (.str text)
  match limit with
  | .error issues => s.frontend.invalid issues
  | .ok limit => s.newestQueries limit

/-- Why a query is not logged. -/
inductive LogError where
  /-- The clock shows no time. -/
  | clock (e : Instant.ClockError)
  /-- The log cannot be read. -/
  | read (e : Audit.ReadError)
  deriving DecidableEq, Repr

/-- Logs a query. The time is taken first. -/
def log (s : Server) (q : Audit.Query) : Except LogError (Server × List (Text × Json)) := do
  let now ← (Instant.ofJson s.clock).mapError .clock
  let logged ← (Audit.log s.chain s.directory s.auditPath now q).mapError .read
  return ({ s with chain := logged.chain, directory := logged.directory }, logged.entry)

/-- Logs a query with any values. The time is taken first. -/
def submit (s : Server) (q : Audit.Query) : Server × Except LogError (List (Text × Json)) :=
  match Instant.ofJson s.clock with
  | .error e => (s, .error (.clock e))
  | .ok now =>
    match Audit.submit s.chain s.directory s.auditPath now q with
    | (c, .ok logged) => ({ s with chain := c, directory := logged.directory }, .ok logged.entry)
    | (c, .error e) => ({ s with chain := c }, .error (.read e))

/-! ## Semantics -/

/-- The request for a framework that a body is. Without a body there is none. -/
def requestOfBody (s : Server) : Option Json → Validated FrameworkRequest
  | none => .fault [.field "body"] .missing .null
  | some (.obj fields) =>
    (FrameworkRequest.ofObject s.frontend.request fields).mapError fun issues =>
      issues.map (Issue.under [.field "body"])
  | some v => .fault [.field "body"] .modelAttributesType v

/-- The semantics that a part of the path names. -/
def semanticsOfPath (name : String) : Validated Semantics :=
  match Semantics.ofName? name with
  | some t => .ok t
  | none => .fault [.field "path", .field "semantics"] .semantics (.str name)

/-- The number of an answer as its text. -/
def requestId (n : Nat) : String := "afs_req_" ++ String.ofList (Text.hex 8 n)

/-- An answer to a request for labellings. -/
structure Answer where
  /-- The number of the answer as its text. -/
  requestId : String
  /-- The semantics. -/
  semantics : Semantics
  /-- The framework and the lines that did not go into it. -/
  report : Apx.Report
  /-- The labellings by name. -/
  labellings : List LabellingView
  /-- The fingerprint of the framework. -/
  fingerprint : String
  /-- How long the computation took. -/
  elapsed : Binary64

/-- A skipped line as a JSON value. -/
def skippedJson (s : Apx.Skipped) : Json :=
  .obj
    [("line_no", .int s.number),
     ("text", .str s.text),
     ("reason", .str s.reason.message)]

/-- The answer as a JSON value. -/
def Answer.toJson (a : Answer) : Json :=
  .obj
    [("request_id", .str a.requestId),
     ("semantics", .str a.semantics.name),
     ("arguments", .arr (a.report.framework.displayNames.map .str)),
     ("num_attacks", .int a.report.framework.attacks.length),
     ("framework_hash", .str a.fingerprint),
     ("labellings", .arr (a.labellings.map LabellingView.toJson)),
     ("skipped_lines", .arr (a.report.skipped.map skippedJson)),
     ("elapsed_ms", .float a.elapsed)]

/-- What is logged of an answer. -/
def Answer.query (a : Answer) (solver : Json) : Audit.Query where
  requestId := .str a.requestId
  semantics := .str a.semantics.name
  frameworkHash := .str a.fingerprint
  numArguments := .int a.report.framework.size
  numAttacks := .int a.report.framework.attacks.length
  numLabellings := .int a.labellings.length
  elapsed := .float a.elapsed
  solver := solver
  skippedLines := .int a.report.skipped.length

/-- Why a valid request is not answered. -/
inductive Failure where
  /-- The request gives no framework, or too large a one. -/
  | refused (r : FrameworkRequest.Refusal)
  /-- The labellings cannot be computed. -/
  | engine (e : EngineError)
  /-- A labelling cannot be shown. -/
  | view (e : LabellingView.Error)

/-- The reply to a request that fails: a refusal is explained, anything else is unexpected. -/
def Failure.reply (fe : Frontend) : Failure → Reply
  | .refused (.noLimit _) => .internalError
  | .refused r =>
    match r.message with
    | .ok text => fe.detail r.status text
    | .error _ => .internalError
  | _ => .internalError

/-- The answer to a request for labellings that are computed with the given engine; it is given the
next number. -/
def answerWith {σ : Type} (s : Server) (e : Engine σ) (semantics : Semantics)
    (request : FrameworkRequest) :
    Except Failure Answer := do
  let report ← (request.build s.maxArguments).mapError .refused
  let f ← (AnyFramework.settled report.framework).settleWithin.mapError .engine
  let r ← (e.resolve f semantics s.elapsed).mapError .engine
  let fingerprint ← (report.framework.fingerprint.mapError .size).mapError .engine
  let names := Json.arr (report.framework.displayNames.map .str)
  let views ← (r.labellings.mapM fun l => LabellingView.ofLabelling l names).mapError .view
  return ⟨requestId (s.requests + 1), semantics, report, views, fingerprint, r.elapsed⟩

/-- Answers a request for labellings with the given engine and logs it. -/
def respondWith {σ : Type} (s : Server) (e : Engine σ) (semantics : Semantics)
    (request : FrameworkRequest) : Server × Reply :=
  match s.answerWith e semantics request with
  | .error e => (s, e.reply s.frontend)
  | .ok a =>
    let numbered := { s with requests := s.requests + 1 }
    match numbered.log (a.query s.solver) with
    | .error _ => (numbered, .internalError)
    | .ok (logged, _) => (logged, s.frontend.ok a.toJson)

/-- A request for labellings with the given engine: its path and its body are checked together. -/
def requestWith {σ : Type} (s : Server) (e : Engine σ) (semantics : String) (body : Option Json) :
    Server × Reply :=
  match Validated.both (semanticsOfPath semantics) (s.requestOfBody body) with
  | .error issues => (s, s.frontend.invalid issues)
  | .ok (semantics, request) => s.respondWith e semantics request

/-- A request for labellings with the engine of the settings. -/
def compute (s : Server) (semantics : String) (body : List UInt8) : Server × Reply :=
  match Service.valueOfBody body with
  | .error .malformed => (s, s.frontend.invalid [⟨[.field "body"], .jsonInvalid, .obj []⟩])
  | .error .unreadable => (s, s.frontend.detail 400 "There was an error parsing the body")
  | .ok value => s.requestWith (.named s.solver) semantics value

/-! ## Routes -/

/-- What a path leads to. -/
inductive Route where
  | health
  | semantics (name : String)
  | presets
  | preset (index : String)
  | queries
  deriving DecidableEq, Repr

/-- A text without the line feed that may stand at its end. -/
def withoutLineFeed (s : String) : String :=
  match s.toList.reverse with
  | '\n' :: rest => String.ofList rest.reverse
  | _ => s

/-- What a path of fixed parts leads to, of which the last may have a line feed at its end. -/
def Route.ofFixed? (path : List String) : Option Route :=
  match path.dropLast ++ [withoutLineFeed (path.getLastD "")] with
  | ["", "v1", "health"] => some .health
  | ["", "v1", "presets"] => some .presets
  | ["", "v1", "audit", "queries"] => some .queries
  | _ => none

/-- What the parts of a path lead to. -/
def Route.ofPath? : List String → Option Route
  | ["", "v1", "semantics", name] => if name = "" then none else some (.semantics name)
  | ["", "v1", "presets", index] => if index = "" then none else some (.preset index)
  | path => ofFixed? path

/-- The method of the requests that a route takes. -/
def Route.method : Route → String
  | .semantics _ => "POST"
  | _ => "GET"

/-- A path without the strokes at its end. -/
def trimmedPath (path : List String) : List String := (path.reverse.dropWhile (· == "")).reverse

/-- The last value of a parameter. -/
def parameter? (parameters : List (String × String)) (name : String) : Option String :=
  (parameters.reverse.find? fun p => p.1 == name).map (·.2)

/-- Handles a request whose method is written in upper case. The path is given by its parts between
the strokes. -/
def serve (s : Server) (method : String) (path : List String) (parameters : List (String × String))
    (body : List UInt8) : Server × Reply :=
  match Route.ofPath? path with
  | none =>
    if (Route.ofPath? (trimmedPath path)).isSome then (s, .redirect)
    else (s, s.frontend.detail 404 "Not Found")
  | some route =>
    if method ≠ route.method then (s, s.frontend.detail 405 "Method Not Allowed")
    else
      match route with
      | .health => (s, s.health)
      | .semantics name => s.compute name body
      | .presets => (s, s.presets)
      | .preset index => (s, s.preset index)
      | .queries => (s, s.queries (parameter? parameters "limit"))

end Server

end Dialectic
