import EventSourcing.Api.Request
import EventSourcing.Cli.Demo
import EventSourcing.Json.Parse

/-!
# Command-line requests

Runs the demo's command line on the request's words and environment. The environment holds
only the variables the request sets; a variable set to `null` is unset. The answer is the exit
code, standard error, and standard output: parsed when it is JSON, as text otherwise.
-/

namespace EventSourcing.Api

/-- Runs the demo's command line. -/
def commandLine (j : Json) : Reader Json := do
  let words ← eachOf (fun
    | .str s => .ok s
    | _ => .error "'args' must hold strings") (← listField j "args")
  let entries := match j.field? "env" with
    | some (.obj fields) => fields
    | _ => []
  let vars ← entries.mapM fun (k, v) =>
    match v with
    | .str s => .ok (k, some s)
    | .null => .ok (k, none)
    | _ => .error "env values are strings"
  let lookup (name : String) : Option String := ((vars.reverse.find? (·.1 == name)).map (·.2)).join
  let exit := Cli.runDemo words lookup
  let (parsed, raw) := match Json.parse exit.stdout with
    | .ok v => (v, Json.null)
    | .error _ => (Json.null, Json.str exit.stdout)
  pure (.obj [("exit_code", .nat exit.code), ("stdout_json", parsed), ("stdout", raw),
    ("stderr", .str exit.stderr)])

end EventSourcing.Api
