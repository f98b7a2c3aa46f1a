import EventSourcing.Cli.Parse
import EventSourcing.Demo.Session
import EventSourcing.Json.Print

/-!
# The demo's command line

`lockstep-demo` drives the warehouse. `run` sends a generated workload and replays it into a
fresh engine, `serve` sends one command a tick for a number of ticks, and `config` prints the
engine settings read from the environment. `--json` prints results as JSON, indented;
otherwise as text.

A run ends with an exit code and what it wrote on standard output and standard error: 2 for a
command line it cannot read, 1 when the settings or the engine fail, 101 for a tick interval
of zero, which the ticking clock refuses, and 0 otherwise.
-/

namespace EventSourcing.Cli

/-- How a run of the program ends. -/
structure Exit where
  code : Nat
  stdout : String := ""
  stderr : String := ""
  deriving DecidableEq, Repr

/-- The `--json` flag, given before or after the command. -/
def jsonSwitch : Switch :=
  { long := "json", about := "Print results as JSON", action := .flag, rank := 0 }

/-- The `run` command. -/
def runCommand : Command where
  name := "run"
  about := "Run a generated workload, then replay it into a fresh engine"
  switches := [
    { long := "commands", about := "Number of commands to send",
      action := .value "COMMANDS" .count (some 200), rank := 0 },
    { long := "sources", about := "Number of client sources",
      action := .value "SOURCES" .int32 (some 4), rank := 1 },
    { long := "seed", about := "Workload seed", action := .value "SEED" .word (some 42), rank := 2 }]

/-- The `serve` command. -/
def serveCommand : Command where
  name := "serve"
  about := "Keep the engine running, sending one generated command per tick"
  switches := [
    { long := "tick-ms", about := "Tick interval in milliseconds",
      action := .value "TICK_MS" .word (some 100), rank := 0 },
    { long := "ticks", about := "Stop after this many ticks", action := .value "TICKS" .word none,
      rank := 1 },
    { long := "sources", action := .value "SOURCES" .int32 (some 4), rank := 2 },
    { long := "seed", action := .value "SEED" .word (some 42), rank := 3 }]

/-- The `config` command. -/
def configCommand : Command where
  name := "config"
  about := "Print the engine configuration loaded from the environment"
  switches := []

/-- The demo's command line. -/
def demo : Program where
  name := "lockstep-demo"
  about := "Run the lockstep inventory demo"
  globals := [jsonSwitch]
  commands := [runCommand, serveCommand, configCommand]

/-- What the demo is asked to do. -/
inductive Task where
  | run (commands : Nat) (sources : SourceId) (seed : UInt64)
  | serve (tickMs : Nat) (ticks : Option Nat) (sources : SourceId) (seed : UInt64)
  | config
  deriving DecidableEq, Repr

/-- The task a command line asks for. -/
def Invocation.task (i : Invocation) : Task :=
  let num (name : String) : Int := (i.value? name).getD 0
  match i.command.name with
  | "run" =>
    .run (num "commands").toNat (Int32.ofInt (num "sources")) (num "seed").toNat.toUInt64
  | "serve" =>
    .serve (num "tick-ms").toNat ((i.value? "ticks").map Int.toNat) (Int32.ofInt (num "sources"))
      (num "seed").toNat.toUInt64
  | _ => .config

/-- A failure as the program reports it on standard error: the outermost message, then each
cause on a line of its own, numbered when there are several. -/
def errorReport (f : Failure) : String :=
  match f.messages with
  | [] => "Error: \n"
  | [m] => s!"Error: {m}\n"
  | [m, cause] => s!"Error: {m}\n\nCaused by:\n    {cause}\n"
  | m :: causes =>
    let numbered := (List.range causes.length).zip causes |>.map fun (n, text) =>
      let label := toString n
      spaces (5 - label.length) ++ label ++ ": " ++ text
    s!"Error: {m}\n\nCaused by:\n" ++ String.join (numbered.map (· ++ "\n"))

/-- The counters as text. -/
def countersText (c : EngineCounters) : String :=
  "Engine\n" ++
  s!"  commands sent        {c.commandsSent}\n" ++
  s!"  commands dispatched  {c.commandsDispatched}\n" ++
  s!"  duplicates skipped   {c.duplicatesSkipped}\n" ++
  s!"  commits / auto / rollbacks  {c.commits} / {c.autoCommits} / {c.rollbacks}\n" ++
  s!"  events applied       {c.eventsApplied}\n" ++
  s!"  outputs published    {c.outputsPublished} " ++
  s!"(retries {c.outputRetries}, failures {c.outputFailures})\n"

/-- Pads a text on the right to a width. -/
def padRight (text : String) (width : Nat) : String := text ++ spaces (width - text.length)

/-- The run summary as text. -/
def summaryText (r : Inventory.RunSummary) : String :=
  let verdict := if r.replay.stateMatches && r.replay.eventsAppended == 0 then
      "  state matches the live engine\n"
    else "  state differs from the live engine\n"
  countersText r.counters ++ "\nStock\n" ++
  String.join (r.stock.map fun (item, level) => s!"  {padRight item 8} {level}\n") ++
  "\nReplay\n" ++ s!"  replayed {r.replay.status.replayedEvents} of {r.eventsLogged} events\n" ++
  verdict

/-- Indented JSON on a line of its own. -/
def jsonLine (j : Json) : String := Json.pretty 0 j ++ "\n"

/-- The clock's refusal of a zero tick interval. -/
def zeroTickPanic : String :=
  "thread 'main' panicked at packages/lockstep-cli/src/main.rs:229:24:\n" ++
  "`period` must be non-zero.\n" ++
  "note: run with `RUST_BACKTRACE=1` environment variable to display a backtrace\n"

/-- Carries out a task with the given settings. -/
def perform (config : EngineConfig) (json : Bool) : Task → Exit
  | .run commands sources seed =>
    match Inventory.runWorkload config commands sources seed with
    | .error e => { code := 1, stderr := errorReport e.failure }
    | .ok r => { code := 0, stdout := if json then jsonLine r.toJson else summaryText r }
  | .serve tickMs ticks sources seed =>
    if tickMs == 0 then { code := 101, stderr := zeroTickPanic }
    else
      match Inventory.serve config ticks sources seed with
      | .error e => { code := 1, stderr := errorReport e.failure }
      | .ok c => { code := 0, stdout := if json then jsonLine c.toJson else countersText c }
  | .config => { code := 0, stdout := jsonLine config.toJson }

/-- Runs the demo on a command line, without the program's name, and an environment. -/
def runDemo (words : List String) (env : String → Option String) : Exit :=
  match demo.parse words with
  | .error (.help text) => { code := 0, stdout := text }
  | .error (.misuse text) => { code := 2, stderr := text }
  | .ok i =>
    match EngineConfig.ofEnv env with
    | .error f =>
      { code := 1, stderr := errorReport (f.within "Failed to load engine configuration") }
    | .ok config => perform config (i.flag "json") i.task

end EventSourcing.Cli
