import EventSourcing.Processing
import EventSourcing.Application
import EventSourcing.Text.Decimal
import EventSourcing.Focus
import EventSourcing.Keyed

/-!
# The ledger

A small banking application. Each source has a balance, written by `BALANCE` events
`balance:<n>`. Commands deposit (`deposit:<n>`), withdraw (`withdraw:<n>`, rolled back when
the balance does not cover it), apply a batch of signed amounts (`batch:<a>,<b>,...`, rolled
back as soon as a running balance drops below zero, with a `BALANCE` event per step
otherwise), or note something (`NOTE`, no event). Amounts are read after trimming blanks. The
payloads `fail` and `panic` make processing fail or panic. Balances are 64-bit words: a sum
that does not fit wraps around.
-/

namespace EventSourcing

/-- The balances of the sources. -/
structure Ledger where
  balances : List (SourceId × Int64) := []
  deriving DecidableEq, Repr, Inhabited

namespace Ledger

/-- Payload type of a deposit. -/
def deposit : PayloadType := 1
/-- Payload type of a withdrawal. -/
def withdraw : PayloadType := 2
/-- Payload type of a batch of amounts. -/
def batch : PayloadType := 3
/-- Payload type of a note. -/
def note : PayloadType := 4
/-- Payload type of a balance event. -/
def balanceType : PayloadType := 10

/-- The balance of a source; 0 for none. -/
def balance (l : Ledger) (source : SourceId) : Int64 := Keyed.findD l.balances source 0

/-- Sets the balance of a source. -/
def setBalance (l : Ledger) (source : SourceId) (amount : Int64) : Ledger :=
  ⟨Keyed.insert l.balances source amount⟩

/-- The amount after a prefix, read after trimming. -/
def amount (text prefixText : String) : Except Failure Int64 :=
  match text.dropPrefix? prefixText with
  | none => .error (.plain s!"expected '{prefixText}<amount>', got '{text}'")
  | some raw =>
    match Text.parseInt64 (Text.trim raw.toString) with
    | .ok n => .ok n
    | .error e => .error ⟨[s!"invalid amount '{raw.toString}'", e.message]⟩

/-- A running result of processing: a value, or the way processing ended. -/
abbrev Run (α : Type) := Except Halt α

/-- Routes a balance event. -/
def routeBalance (r : Router) (b : Int64) : Except Halt Router :=
  match r.route balanceType (Bytes.ofString s!"balance:{b}") with
  | .ok (_, r') => .ok r'
  | .error e => .error (.failed e.failure)

/-- Runs a batch of amounts from a balance, routing the running balance after each; stops
with an abort when it drops below zero. -/
def runBatch : List String → Int64 → Router → Except Halt Router
  | [], _, r => .ok r
  | step :: rest, b, r =>
    match Text.parseInt64 (Text.trim step) with
    | .error e => .error (.failed ⟨[s!"invalid amount '{step}'", e.message]⟩)
    | .ok n =>
      let b' := b + n
      if b' < 0 then .ok r.abort
      else
        match routeBalance r b' with
        | .ok r' => runBatch rest b' r'
        | .error h => .error h

/-- What the ledger does with a command, given its text and the source's balance. -/
def handle (c : Command) (text : String) (b : Int64) (r : Router) : Except Halt Router :=
  if text == "panic" then .error (.panicked (some "ledger asked to panic"))
  else if text == "fail" then .error (.failed (.plain "ledger asked to fail"))
  else if c.payloadType == deposit then
    match amount text "deposit:" with
    | .error f => .error (.failed f)
    | .ok n =>
      routeBalance r (b + n)
  else if c.payloadType == withdraw then
    match amount text "withdraw:" with
    | .error f => .error (.failed f)
    | .ok n =>
      if b < n then .ok r.abort
      else
        routeBalance r (b - n)
  else if c.payloadType == batch then
    match text.dropPrefix? "batch:" with
    | none => .error (.failed (.plain s!"expected 'batch:<amounts>', got '{text}'"))
    | some steps => runBatch (steps.toString.splitOn ",") b r
  else if c.payloadType == note then .ok r
  else .error (.failed (.plain s!"unknown ledger payload type {c.payloadType}"))

theorem routeBalance_extends {r r' : Router} {b : Int64} (h : routeBalance r b = .ok r') :
    r.Extends r' := by
  unfold routeBalance at h
  split at h
  · cases h
    exact Router.extends_of_route ‹_›
  · cases h

theorem runBatch_extends (steps : List String) (b : Int64) {r r' : Router}
    (h : runBatch steps b r = .ok r') : r.Extends r' := by
  induction steps generalizing b r with
  | nil => cases h; rfl
  | cons step rest ih =>
    unfold runBatch at h
    split at h
    · cases h
    · dsimp only at h
      split at h
      · cases h
        exact Router.extends_abort r
      · split at h
        · exact (routeBalance_extends ‹_›).trans (ih _ h)
        · cases h

/-- Handling a command only routes balances and aborts. -/
theorem handle_extends {c : Command} {text : String} {b : Int64} {r r' : Router}
    (h : handle c text b r = .ok r') : r.Extends r' := by
  unfold handle at h
  repeat' split at h
  all_goals first
    | cases h; done
    | cases h; rfl
    | cases h; exact Router.extends_abort r
    | exact routeBalance_extends h
    | exact runBatch_extends _ _ h

/-- The ledger's processor, named `ledger-processor`. -/
def processor {W : Type} (focus : Focus W Ledger) : Processor W where
  name := "ledger-processor"
  process c _ w r :=
    match Bytes.utf8? c.payload with
    | none => (.error (.failed (.plain "ledger commands are UTF-8")), w, r)
    | some text =>
      match handle c text ((focus.get w).balance c.source) r with
      | .ok r' => (.ok (), w, r')
      | .error h => (.error h, w, r)
  process_extends c _ w r := by
    split
    · rfl
    · split
      · exact handle_extends ‹_›
      · rfl

/-- The balance a `BALANCE` event carries. -/
def balanceOf? (e : Event) : Option Int64 :=
  if e.payloadType != balanceType then none
  else
    match Bytes.utf8? e.payload with
    | none => none
    | some text =>
      match text.dropPrefix? "balance:" with
      | none => none
      | some raw => (Text.parseInt64 raw.toString).toOption

/-- The ledger's applier, named `ledger-applier`: a `BALANCE` event sets its source's
balance. -/
def applier {W : Type} (focus : Focus W Ledger) : Applier W where
  name := "ledger-applier"
  apply e w :=
    match balanceOf? e with
    | some b => focus.modify (fun l => l.setBalance e.source b) w
    | none => w

end Ledger

end EventSourcing
