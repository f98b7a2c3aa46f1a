import EventSourcing.Processing
import EventSourcing.Application
import EventSourcing.Publishing
import EventSourcing.Text.Decimal
import EventSourcing.Focus
import EventSourcing.Keyed

/-!
# The warehouse

A small inventory application. Commands order (`ORDER`) or restock (`RESTOCK`) a quantity of
an item, written `<item>:<quantity>`; the quantity must be positive. An order that the
stock does not cover is rolled back; otherwise the new level is written as a `STOCK` event
`<item>:<level>`. Levels are 64-bit words: a restock past the largest wraps around.

A reorder output watches `STOCK` events: when an item falls below a threshold and nothing is
in flight from the loopback source, it sends a restock of a fixed batch from that source.
-/

namespace EventSourcing

/-- The stock level of each item. -/
structure Warehouse where
  stock : List (String × Int64) := []
  deriving DecidableEq, Repr, Inhabited

namespace Warehouse

/-- Payload type of an order. -/
def order : PayloadType := 1
/-- Payload type of a restock. -/
def restock : PayloadType := 2
/-- Payload type of a stock event. -/
def stockType : PayloadType := 10

/-- The items the demo trades in. -/
def items : List String := ["bolt", "gear", "spring"]

/-- The level of an item; 0 for none. -/
def level (h : Warehouse) (item : String) : Int64 := Keyed.findD h.stock item 0

/-- Sets the level of an item. -/
def setLevel (h : Warehouse) (item : String) (n : Int64) : Warehouse :=
  ⟨Keyed.insert h.stock item n⟩

/-- Splits `<item>:<quantity>` at the first colon and reads the quantity, untrimmed. -/
def parseLine (text : String) : Except Failure (String × Int64) :=
  match text.toList.splitOn ':' with
  | item :: rest@(_ :: _) =>
    let quantity := String.ofList ([':'].intercalate rest)
    match Text.parseInt64 quantity with
    | .ok n => .ok (String.ofList item, n)
    | .error e => .error ⟨[s!"invalid quantity '{quantity}'", e.message]⟩
  | _ => .error (.plain s!"expected '<item>:<quantity>', got '{text}'")

/-- The level a command of the given payload type leaves an item at, from its current level:
`none` for an order that the stock does not cover. -/
def nextLevel (payloadType : PayloadType) (current quantity : Int64) : Except Halt (Option Int64) :=
  if payloadType == order then
    if current < quantity then .ok none else .ok (some (current - quantity))
  else if payloadType == restock then .ok (some (current + quantity))
  else .error (.failed (.plain s!"unknown inventory payload type {payloadType}"))

/-- What the warehouse does with a command, given its text. -/
def handle (h : Warehouse) (c : Command) (text : String) (r : Router) : Except Halt Router :=
  match parseLine text with
  | .error f => .error (.failed f)
  | .ok (item, quantity) =>
    if quantity ≤ 0 then .error (.failed (.plain s!"quantity must be positive, got {quantity}"))
    else
      match nextLevel c.payloadType (h.level item) quantity with
      | .error e => .error e
      | .ok none => .ok r.abort
      | .ok (some n) =>
        match r.route stockType (Bytes.ofString s!"{item}:{n}") with
        | .ok (_, r') => .ok r'
        | .error e => .error (.failed e.failure)

/-- A command the warehouse handles either aborts the transaction or routes the item's new
level. -/
theorem handle_ok {h : Warehouse} {c : Command} {text : String} {r r' : Router}
    (hr : h.handle c text r = .ok r') :
    r' = r.abort ∨ ∃ payload i, r.route stockType payload = .ok (i, r') := by
  unfold handle at hr
  split at hr
  · cases hr
  split at hr
  · cases hr
  split at hr
  · cases hr
  · cases hr
    exact .inl rfl
  · split at hr
    · cases hr
      exact .inr ⟨_, _, ‹_›⟩
    · cases hr

theorem handle_extends {h : Warehouse} {c : Command} {text : String} {r r' : Router}
    (hr : h.handle c text r = .ok r') : r.Extends r' := by
  obtain rfl | ⟨_, _, hroute⟩ := handle_ok hr
  · exact Router.extends_abort r
  · exact Router.extends_of_route hroute

/-- The warehouse's processor, named `inventory`. -/
def processor {W : Type} (focus : Focus W Warehouse) : Processor W where
  name := "inventory"
  process c _ w r :=
    match Bytes.utf8? c.payload with
    | none => (.error (.failed (.plain "inventory commands are UTF-8")), w, r)
    | some text =>
      match (focus.get w).handle c text r with
      | .ok r' => (.ok (), w, r')
      | .error e => (.error e, w, r)
  process_extends c _ w r := by
    split
    · rfl
    · split
      · exact handle_extends ‹_›
      · rfl

/-- The warehouse's applier, named `inventory`: a `STOCK` event sets its item's level. -/
def applier {W : Type} (focus : Focus W Warehouse) : Applier W where
  name := "inventory"
  apply e w :=
    if e.payloadType != stockType then w
    else
      match Bytes.utf8? e.payload with
      | none => w
      | some text =>
        match parseLine text with
        | .ok (item, n) => focus.modify (fun h => h.setLevel item n) w
        | .error _ => w

/-- The reorder output, named `reorder`: below `threshold`, it restocks `batch` of the item
from the loopback source, unless a command of that source is in flight. -/
def reorder {W : Type} (threshold batch : Int64) : Output W where
  name := "reorder"
  publish e ctx w o :=
    if e.payloadType != stockType || ctx.replay then (.ok .ignored, w, o)
    else
      match Bytes.utf8? e.payload with
      | none => (.error (.plain "stock events are UTF-8"), w, o)
      | some text =>
        match parseLine text with
        | .error f => (.error f, w, o)
        | .ok (item, current) =>
          if threshold ≤ current then (.ok .ignored, w, o)
          else if o.inFlight.holds ctx.loopbackSource then (.ok .ignored, w, o)
          else
            match ctx.loopback o restock (Bytes.ofString s!"{item}:{batch}") with
            | (.ok _, o') => (.ok .committed, w, o')
            | (.error err, o') => (.error err.failure, w, o')
  publish_sends e ctx w o := by
    repeat' first | split | dsimp only
    all_goals first
      | exact .refl _
      | exact OutputContext.sends_of_loopback ‹_›

end Warehouse

end EventSourcing
