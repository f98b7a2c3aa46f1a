/-!
# Command-line grammars

A program's command line is a list of words: options before a command, the command's name,
and the command's own options. An option is written `--name`, with its value either attached
as `--name=value` or as the next word; a flag takes no value. Every command also has a help
switch, `-h` or `--help`, and the program has a `help` command that shows the help of the
commands it names.

This module describes grammars and writes their help and usage texts: the about line, the
usage line, and then sections of commands and options, one an entry, each entry's text
aligned two columns after the longest entry.
-/

namespace EventSourcing.Cli

/-- How the text of an option's value is read. -/
inductive Reading where
  /-- A count of machine-word width: an unsigned decimal below 2^64. -/
  | count
  /-- An unsigned 64-bit decimal. -/
  | word
  /-- A signed 32-bit decimal. It is read as a 64-bit one and then checked against the
  32-bit range. -/
  | int32
  deriving DecidableEq, Repr

/-- What a switch does when it is given. -/
inductive Action where
  /-- Sets a flag; it takes no value. -/
  | flag
  /-- Shows the help of the command. -/
  | help
  /-- Takes a value, shown as `<placeholder>` and read as `reading`, with an optional
  default. -/
  | value (placeholder : String) (reading : Reading) (default : Option Int)
  deriving DecidableEq, Repr

/-- A switch of a command. -/
structure Switch where
  long : String
  short : Option Char := none
  about : String := ""
  action : Action
  /-- Where the switch stands in the help: by this rank, then by name. -/
  rank : Nat
  deriving DecidableEq, Repr

namespace Switch

/-- The help switch every command has. -/
def help : Switch := ⟨"help", some 'h', "Print help", .help, 999⟩

/-- Whether the switch takes a value. -/
def takesValue (s : Switch) : Bool :=
  match s.action with
  | .value .. => true
  | _ => false

/-- The switch as errors name it: `--name` and, for one with a value, its placeholder. -/
def display (s : Switch) : String :=
  match s.action with
  | .value placeholder _ _ => s!"--{s.long} <{placeholder}>"
  | _ => s!"--{s.long}"

/-- The switch as the help lists it: the short form or room for it, then the display. -/
def entry (s : Switch) : String :=
  match s.short with
  | some c => s!"-{c}, " ++ s.display
  | none => "    " ++ s.display

/-- The help's text of the switch, with its default. -/
def text (s : Switch) : String :=
  match s.action with
  | .value _ _ (some d) =>
    if s.about.isEmpty then s!"[default: {d}]" else s.about ++ s!" [default: {d}]"
  | _ => s.about

/-- The key that orders the switches in the help: the short form, a lowercase one before
its uppercase twin, or else the long name. -/
def sortKey (s : Switch) : String :=
  match s.short with
  | some c => String.ofList [c.toLower, if c.isLower then '0' else '1']
  | none => s.long

/-- Whether a switch stands before another in the help. -/
def before (s t : Switch) : Bool :=
  s.rank < t.rank || (s.rank == t.rank && decide (s.sortKey < t.sortKey))

end Switch

/-- A command: its name, the line that says what it does, and its own switches in the order
they were declared. -/
structure Command where
  name : String
  about : String
  switches : List Switch
  deriving DecidableEq, Repr

/-- A program: its name, what it does, the switches of every command, and its commands. -/
structure Program where
  name : String
  about : String
  globals : List Switch
  commands : List Command
  deriving DecidableEq, Repr

/-- Spaces. -/
def spaces (n : Nat) : String := String.ofList (List.replicate n ' ')

/-- Entries and their texts as aligned lines: two columns in, and each text two columns after
the longest entry. -/
def aligned (rows : List (String × String)) : String :=
  let width := rows.foldl (fun w (e, _) => max w e.length) 0
  "\n".intercalate (rows.map fun (e, t) => "  " ++ e ++ spaces (width - e.length + 2) ++ t)

/-- Sorts switches into their help order, stably. -/
def helpOrder (switches : List Switch) : List Switch :=
  switches.foldl (fun acc s =>
    let (front, back) := acc.span fun t => !s.before t
    front ++ s :: back) []

/-- The options section of a help. -/
def optionsSection (switches : List Switch) : String :=
  "Options:\n" ++ aligned ((helpOrder switches).map fun s => (s.entry, s.text))

/-- What a command line's help shows: the whole program, one of its commands, or the help
command itself. -/
inductive Topic where
  | program
  | command (c : Command)
  | helpCommand
  deriving DecidableEq, Repr

/-- The line that says what the help command does. -/
def helpAbout : String := "Print this message or the help of the given subcommand(s)"

namespace Program

/-- The names of the commands, the help command last. -/
def commandNames (p : Program) : List String := p.commands.map (·.name) ++ ["help"]

/-- The switches of the program's command line before a command. -/
def topSwitches (p : Program) : List Switch := p.globals ++ [Switch.help]

/-- The switches of a command: its own, the program's, and help. -/
def switchesOf (p : Program) (c : Command) : List Switch := c.switches ++ p.globals ++ [Switch.help]

/-- The switches of a topic. -/
def switchesFor (p : Program) : Topic → List Switch
  | .program => p.topSwitches
  | .command c => p.switchesOf c
  | .helpCommand => []

/-- The name a topic goes by in usage lines. -/
def usageName (p : Program) : Topic → String
  | .program => p.name
  | .command c => p.name ++ " " ++ c.name
  | .helpCommand => p.name ++ " help"

/-- The program's own switches as one group in a usage line, `<--a|--b>`. -/
def groupMention (p : Program) : String :=
  "<" ++ "|".intercalate (p.globals.map Switch.display) ++ ">"

/-- The usage line of a topic, after `Usage: `. With no switch used yet, it shows where
options go; otherwise it lists the switches used. When the program's own switches count as a
group used, they are shown as that group, after the other switches. -/
def usage (p : Program) (t : Topic) (used : List Switch) (grouped : Bool) : String :=
  let head := p.usageName t
  let tail := match t with
    | .program => " <COMMAND>"
    | .command _ => ""
    | .helpCommand => " [COMMAND]..."
  match used with
  | [] =>
    match t with
    | .helpCommand => head ++ tail
    | _ => head ++ " [OPTIONS]" ++ tail
  | _ =>
    if grouped then
      let others := used.filter fun s => !p.globals.contains s
      head ++ String.join (others.map fun s => " " ++ s.display) ++ " " ++ p.groupMention ++ tail
    else head ++ String.join (used.map fun s => " " ++ s.display) ++ tail

/-- The commands section of the program's help. -/
def commandsSection (p : Program) : String :=
  "Commands:\n" ++ aligned ((p.commands.map fun c => (c.name, c.about)) ++ [("help", helpAbout)])

/-- The help of a topic. -/
def helpText (p : Program) (t : Topic) : String :=
  let about := match t with
    | .program => p.about
    | .command c => c.about
    | .helpCommand => helpAbout
  let sections := match t with
    | .program => [p.commandsSection, optionsSection p.topSwitches]
    | .command c => [optionsSection (p.switchesOf c)]
    | .helpCommand => ["Arguments:\n" ++ aligned [("[COMMAND]...", "Print help for the subcommand(s)")]]
  about ++ "\n\nUsage: " ++ p.usage t [] false ++ "\n\n" ++ "\n\n".intercalate sections ++ "\n"

/-- The command of a name. -/
def command? (p : Program) (name : String) : Option Command := p.commands.find? (·.name == name)

end Program

end EventSourcing.Cli
