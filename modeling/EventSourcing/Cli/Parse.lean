import EventSourcing.Cli.Grammar
import EventSourcing.Cli.Similarity
import EventSourcing.Text.Decimal

/-!
# Reading a command line

The words are read left to right. Before a command's name only the program's switches count;
the first word that names a command hands the rest of the words to that command, and the
word `help` shows the help of the commands named after it. `--` ends the switches: every
word after it is a stray word.

A switch that takes a value waits for it: the value is attached (`--seed=7`) or is the next
word, unless that word looks like a switch. A switch is settled, and its value read, when
the next switch is met or the words end; so of two mistakes the first one settled is the one
reported. A stray word or an unknown switch stops the reading at once, and the mistake of a
switch still waiting is then dropped.

Each mistake is reported as `error: ...`, with a hint at a similar name when there is one,
the usage line, and a pointer to the help; help that was asked for stops the reading too.
-/

namespace EventSourcing.Cli

/-- How reading a command line stops short of a command to run. -/
inductive Stop where
  /-- The help that was asked for, shown on standard output. -/
  | help (text : String)
  /-- A mistake, or help that was not asked for, shown on standard error. -/
  | misuse (text : String)
  deriving DecidableEq, Repr

/-- A switch given on the command line, with its value once read. -/
structure Given where
  switch : Switch
  value : Option Int := none
  deriving DecidableEq, Repr

/-- The state of reading one command's words. -/
structure Scan where
  /-- The switches given, in the order they were first settled. -/
  given : List Given := []
  /-- The switch waiting to be settled, with its value text once met. -/
  pending : Option (Switch × Option String) := none
  /-- Whether `--` was met. -/
  trailing : Bool := false
  deriving DecidableEq, Repr

namespace Scan

/-- Whether a switch was given. -/
def has (s : Scan) (name : String) : Bool := s.given.any (·.switch.long == name)

/-- Forgets a switch. -/
def drop (s : Scan) (name : String) : Scan :=
  { s with given := s.given.filter (·.switch.long != name) }

/-- The switches given, for usage lines. -/
def used (s : Scan) : List Switch := s.given.map (·.switch)

end Scan

/-- Reads the text of a value: the value, or the reason it was refused. -/
def readValue (r : Reading) (raw : String) : Except String Int :=
  match r with
  | .count => (Text.parseInteger .uint64 raw).mapError (·.message)
  | .word => (Text.parseInteger .uint64 raw).mapError (·.message)
  | .int32 =>
    match Text.parseInteger .int64 raw with
    | .error e => .error e.message
    | .ok v =>
      if -2147483648 ≤ v && v < 2147483648 then .ok v
      else .error s!"{v} is not in -2147483648..=2147483647"

/-- Keeps the first of each switch. -/
def distinctSwitches (switches : List Switch) : List Switch :=
  switches.foldl (fun acc s => if acc.any (·.long == s.long) then acc else acc ++ [s]) []

/-- Where a command line is read: the program and the topic whose words these are. -/
structure Place where
  program : Program
  topic : Topic
  deriving DecidableEq, Repr

namespace Place

/-- The switches known here. -/
def switches (c : Place) : List Switch := c.program.switchesFor c.topic

/-- The switch of a long name. -/
def long? (c : Place) (name : String) : Option Switch := c.switches.find? (·.long == name)

/-- The switch of a short name. -/
def short? (c : Place) (ch : Char) : Option Switch := c.switches.find? (·.short == some ch)

/-- Whether this topic's help is reached with `--help`. -/
def hasHelpSwitch (c : Place) : Bool := c.topic != .helpCommand

/-- Whether the program's own switches count as a group used: before a command, once one of
them was given or hinted at. -/
def grouped (c : Place) (given : List Switch) : Bool :=
  c.topic == .program && given.any fun s => c.program.globals.contains s

/-- The usage line, listing the switches used; the program's own switches are shown as their
group when one of `given` is among them. -/
def usage (c : Place) (used given : List Switch) : String :=
  c.program.usage c.topic (distinctSwitches used) (c.grouped given)

/-- A mistake as reported: the sentence, hints, the usage line when there is one, and the
pointer to the help. -/
def report (c : Place) (body : String) (usage : Option String) : Stop :=
  let usageText := match usage with
    | some u => "\n\nUsage: " ++ u
    | none => ""
  let pointer := if c.hasHelpSwitch then "\n\nFor more information, try '--help'.\n" else "\n"
  .misuse ("error: " ++ body ++ usageText ++ pointer)

/-- A value that was refused. -/
def invalidValue (c : Place) (s : Switch) (raw reason : String) : Stop :=
  c.report s!"invalid value '{raw}' for '{s.display}': {reason}" none

/-- A switch that needs a value and got none. -/
def emptyValue (c : Place) (s : Switch) : Stop :=
  c.report s!"a value is required for '{s.display}' but none was supplied" none

/-- A switch given twice. -/
def twice (c : Place) (s : Switch) : Stop :=
  c.report s!"the argument '{s.display}' cannot be used multiple times" (some (c.usage [] []))

/-- A value attached to a switch that takes none, after the switches `given`. -/
def unneededValue (c : Place) (s : Switch) (value : String) (given : List Switch) : Stop :=
  c.report s!"unexpected value '{value}' for '{s.display}' found; no more were expected"
    (some (c.usage (given ++ [s]) given))

/-- A word that is not understood here, with a hint. -/
def unexpected (c : Place) (word : String) (hint : String) (used : List Switch) : Stop :=
  c.report (s!"unexpected argument '{word}' found" ++ hint) (some (c.usage used used))

/-- A word where a command's name was due. -/
def unknownCommand (c : Place) (word : String) (similar : List String) : Stop :=
  let hint := match similar with
    | [] => ""
    | [n] => s!"\n\n  tip: a similar subcommand exists: '{n}'"
    | ns => "\n\n  tip: some similar subcommands exist: " ++ ", ".intercalate (ns.map fun n => s!"'{n}'")
  c.report (s!"unrecognized subcommand '{word}'" ++ hint) (some (c.usage [] []))

/-- A command's name after `--`. -/
def commandAfterEscape (c : Place) (name : String) : Stop :=
  c.report ("unexpected argument '" ++ name ++ "' found\n\n  tip: subcommand '" ++ name ++
    "' exists; to use it, remove the '--' before it") (some (c.usage [] []))

/-- The program without a command. -/
def missingCommand (c : Place) : Stop :=
  c.report (s!"'{c.program.name}' requires a subcommand but one was not provided\n  [subcommands: " ++
    ", ".intercalate c.program.commandNames ++ "]") (some (c.usage [] []))

/-- The help of the topic. -/
def help (c : Place) : Stop := .help (c.program.helpText c.topic)

/-- Records a switch with its value text: a switch that takes a value needs one, a switch is
given once, and a value must read. A switch given twice is forgotten as it is refused, and
one whose value is refused stays given without a value. -/
def record (c : Place) (s : Scan) (sw : Switch) (raw : Option String) : Scan × Option Stop :=
  match sw.action, raw with
  | .value _ _ _, none => (s, some (c.emptyValue sw))
  | action, raw =>
    if s.has sw.long then (s.drop sw.long, some (c.twice sw))
    else
      let s := { s with given := s.given ++ [{ switch := sw }] }
      match action, raw with
      | .value _ reading _, some text =>
        match readValue reading text with
        | .ok v =>
          ({ s with given := s.given.map fun g =>
              if g.switch.long == sw.long then { g with value := some v } else g }, none)
        | .error reason => (s, some (c.invalidValue sw text reason))
      | _, _ => (s, none)

/-- Settles the waiting switch, if any. -/
def settle (c : Place) (s : Scan) : Scan × Option Stop :=
  match s.pending with
  | none => (s, none)
  | some (sw, raw) => c.record { s with pending := none } sw raw

/-- Settles the waiting switch, stopping at its mistake. -/
def settled (c : Place) (s : Scan) : Except Stop Scan :=
  match c.settle s with
  | (_, some stop) => .error stop
  | (s, none) => .ok s

/-- The switch names known to a command, in the order it knows them. -/
def longsOf (p : Program) (name : String) : List String :=
  match p.command? name with
  | some cmd => (p.switchesOf cmd).map (·.long)
  | none => []

/-- An unknown switch `--name`: the hint at a similar switch here, or else at a similar switch
of a command named later on the line, the nearest such command first. -/
def unknownSwitch (c : Place) (s : Scan) (name : String) (later : List String) : Stop :=
  let s := (c.settle s).1
  match closestName name (c.switches.map (·.long)) with
  | some similar =>
    let used := s.used ++ (c.long? similar).toList
    c.unexpected s!"--{name}" s!"\n\n  tip: a similar argument exists: '--{similar}'" used
  | none =>
    let elsewhere := match c.topic with
      | .program =>
        (later.filterMap fun w =>
          if c.program.commandNames.contains w then
            (closestName name (longsOf c.program w)).map fun similar => (w, similar)
          else none).head?
      | _ => none
    match elsewhere with
    | some (cmd, similar) => c.unexpected s!"--{name}" s!"\n\n  tip: '{cmd} --{similar}' exists" s.used
    | none => c.unexpected s!"--{name}" "" s.used

/-- A stray word. -/
def stray (c : Place) (s : Scan) (word : String) : Stop :=
  match c.topic with
  | .program =>
    if s.trailing && c.program.commandNames.contains word then c.commandAfterEscape word
    else c.unknownCommand word (similarNames word c.program.commandNames)
  | _ => c.unexpected word "" []

end Place

/-- Where the reading of a command's words ends. -/
inductive Outcome where
  /-- The words ended. -/
  | done (s : Scan)
  /-- A command's name was met, with the words after it. -/
  | enter (s : Scan) (command : String) (rest : List String)
  deriving DecidableEq, Repr

/-- Splits `name=value` at the first `=`. -/
def splitAttached (body : String) : String × Option String :=
  match body.splitOn "=" with
  | [] => (body, none)
  | [name] => (name, none)
  | name :: rest => (name, some ("=".intercalate rest))

/-- The help of the topics named after `help`, each a command of the one before. -/
def helpFor (p : Program) : Topic → List String → Stop
  | t, [] => .help (p.helpText t)
  | .program, w :: rest =>
    if w == "help" then helpFor p .helpCommand rest
    else match p.command? w with
      | some cmd => helpFor p (.command cmd) rest
      | none => Place.unknownCommand ⟨p, .program⟩ w []
  | t, w :: _ => Place.unknownCommand ⟨p, t⟩ w []

namespace Place

/-- Reads a cluster of short switches, `-abc`. A switch that takes a value takes the rest of
the cluster, less a leading `=`, or else waits for the next word. -/
def cluster (c : Place) (s : Scan) : List Char → Except Stop Scan
  | [] => .ok s
  | ch :: rest =>
    match c.short? ch with
    | none => .error (c.unexpected (String.ofList ['-', ch]) "" [])
    | some sw => do
      let s ← c.settled s
      match sw.action with
      | .help => .error c.help
      | .flag =>
        match c.record s sw none with
        | (_, some stop) => .error stop
        | (s, none) => cluster c s rest
      | .value .. =>
        let text := match rest with
          | '=' :: more => more
          | more => more
        if text.isEmpty then .ok { s with pending := some (sw, none) }
        else
          match c.record s sw (some (String.ofList text)) with
          | (_, some stop) => .error stop
          | (s, none) => .ok s

/-- Reads a command's words. -/
def scan (c : Place) (s : Scan) : List String → Except Stop Outcome
  | [] => Outcome.done <$> c.settled s
  | w :: rest =>
    if s.trailing then .error (c.stray (c.settle s).1 w)
    else if c.topic == .program && c.program.commandNames.contains w then
      if w == "help" then .error (helpFor c.program .program rest)
      else .ok (.enter s w rest)
    else if w == "--" then scan c { s with trailing := true } rest
    else if w.startsWith "--" then
      let (name, attached) := splitAttached (w.drop 2).toString
      match c.long? name with
      | none => .error (c.unknownSwitch s name rest)
      | some sw =>
        match sw.action, attached with
        | .value .., some v => do
          let s ← c.settled s
          match c.record s sw (some v) with
          | (_, some stop) => .error stop
          | (s, none) => scan c s rest
        | .value .., none => do
          let s ← c.settled s
          scan c { s with pending := some (sw, none) } rest
        | _, some v => .error (c.unneededValue sw v s.used)
        | .help, none => do
          let _ ← c.settled s
          .error c.help
        | _, none => do
          let s ← c.settled s
          match c.record s sw none with
          | (_, some stop) => .error stop
          | (s, none) => scan c s rest
    else if w.startsWith "-" && w.length > 1 then
      match c.cluster s (w.toList.drop 1) with
      | .error stop => .error stop
      | .ok s => scan c s rest
    else
      match s.pending with
      | some (sw, none) => scan c { s with pending := some (sw, some w) } rest
      | _ => .error (c.stray (c.settle s).1 w)

end Place

/-- A command line that was read: the program's switches, the command, and its switches. -/
structure Invocation where
  top : List Given
  command : Command
  given : List Given
  deriving DecidableEq, Repr

namespace Invocation

/-- Whether a flag was given, before the command or after it. -/
def flag (i : Invocation) (name : String) : Bool :=
  (i.top ++ i.given).any (·.switch.long == name)

/-- The value of a switch of the command, or its default. -/
def value? (i : Invocation) (name : String) : Option Int :=
  match i.given.find? (·.switch.long == name) with
  | some g => g.value
  | none =>
    match ((i.command.switches.find? (·.long == name)).map (·.action) : Option Action) with
    | some (.value _ _ d) => d
    | _ => none

end Invocation

/-- Reads a command line, without the program's name. With no word at all, the program's help
is shown as a mistake. -/
def Program.parse (p : Program) (words : List String) : Except Stop Invocation := do
  let top : Place := ⟨p, .program⟩
  match ← top.scan {} words with
  | .done s => .error (if s.given.isEmpty then .misuse (p.helpText .program) else top.missingCommand)
  | .enter s name rest =>
    match p.command? name with
    | none => .error top.missingCommand
    | some cmd =>
      match ← Place.scan ⟨p, .command cmd⟩ {} rest with
      | .done inner => pure ⟨s.given, cmd, inner.given⟩
      | .enter .. => .error top.missingCommand

end EventSourcing.Cli
