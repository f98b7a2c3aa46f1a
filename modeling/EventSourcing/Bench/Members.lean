import EventSourcing.Bench.Script
import EventSourcing.Bench.World

/-!
# The bench's members

The members a bench can put into an engine, each named by a specification: the two demo
applications' processors, appliers and the reorder output; scripted processors; recording
appliers; scripted, recording and flaky outputs; scripted and topping-up inputs; and plugins
that bundle members and may offer a base state.
-/

namespace EventSourcing.Bench

/-- Which processor to use. -/
inductive ProcessorSpec where
  | ledger
  | warehouse
  | noop
  | script (name : String)
  deriving DecidableEq, Repr

/-- Which applier to use. -/
inductive ApplierSpec where
  | ledger
  | warehouse
  | noop
  /-- Logs `[name, event, kind]` of every event. -/
  | record (name : String)
  /-- Keeps every event it sees as a fixture. -/
  | recording (name : String)
  deriving DecidableEq, Repr

/-- When and what a scripted output sends back. -/
structure LoopbackSpec where
  onPayloadType : PayloadType
  payloadType : PayloadType
  payload : Bytes
  max : Nat := 1
  skipReplay : Bool := false
  skipIfInFlight : Bool := false
  deriving DecidableEq, Repr

/-- Which output to use. -/
inductive OutputSpec where
  | reorder (threshold batch : Int64)
  /-- Fails the first `failAttempts` attempts at an event, may loop back, and answers the
  `n`-th call with the `n`-th acknowledgement named (the last one repeating). -/
  | script (name : String) (acks : List String) (failAttempts : Nat) (loopback : Option LoopbackSpec)
  | recording (name : String) (ack : Ack)
  | flaky (name : String) (failures : Nat)
  deriving Repr

/-- The payload of a command a scripted input sends, read when the command is due. -/
inductive DuePayload where
  /-- The bytes to send. -/
  | bytes (b : Bytes)
  /-- The payload cannot be read; the poll fails with the reason. -/
  | unreadable (reason : String)
  /-- Reading the payload panics, which ends the run. -/
  | panics
  deriving DecidableEq, Repr

/-- One step of a scripted input. -/
structure InputStep where
  send : List (SourceId × PayloadType × DuePayload) := []
  error : Option String := none
  deferIfInFlight : Option SourceId := none
  deriving Repr

/-- Which input to use. -/
inductive InputSpec where
  /-- Takes one step per poll. -/
  | script (name : String) (steps : List InputStep)
  /-- Sends one command per poll while its source has nothing in flight, `max` in all. -/
  | topper (name : String) (source : SourceId) (payloadType : PayloadType) (payload : Bytes)
      (max : Nat)
  deriving Repr

/-- Which plugin to use. -/
inductive PluginSpec where
  | bundle (name : String) (processors : List ProcessorSpec) (appliers : List ApplierSpec)
      (outputs : List OutputSpec) (inputs : List InputSpec) (baseEvents : Option (List Event))
  /-- A plugin named `NAME-plugin` that adds a recording applier. -/
  | recording (name : String)
  deriving Repr

/-- The processor of a specification. -/
def ProcessorSpec.build : ProcessorSpec → Processor World
  | .ledger => Ledger.processor World.ledgerFocus
  | .warehouse => Warehouse.processor World.warehouseFocus
  | .noop => Processor.noop
  | .script name => scriptProcessor name

/-- The applier that logs every event under its name. -/
def recordApplier (name : String) : Applier World where
  name := name
  apply e w := { w with applied := w.applied ++ [(name, e.sequence, e.kind)] }

/-- The applier that keeps every event as a fixture, under its instance number `key`. -/
def recordingApplier (key : Nat) (name : String) : Applier World where
  name := name
  apply e w := { w with seenBy := World.note w.seenBy key e }

/-- The applier of a specification; a recording applier keeps its fixture under `key`. -/
def ApplierSpec.build (key : Nat) : ApplierSpec → Applier World
  | .ledger => Ledger.applier World.ledgerFocus
  | .warehouse => Warehouse.applier World.warehouseFocus
  | .noop => Applier.noop
  | .record name => recordApplier name
  | .recording name => recordingApplier key name

/-- Whether a specification gives a recording applier. -/
def ApplierSpec.isRecording : ApplierSpec → Bool
  | .recording _ => true
  | _ => false

/-- The acknowledgement a scripted output gives on a call: the call's entry of the list, the
last entry once the list is used up, or `committed` for an empty list. -/
def pickAck (name : String) (acks : List String) (call : Nat) : Except String Ack :=
  let chosen := if acks.isEmpty then "committed" else acks.getD (min call (acks.length - 1)) ""
  match chosen with
  | "committed" => .ok .committed
  | "ignored" => .ok .ignored
  | "retry" => .ok .retry
  | _ => .error s!"output {name} error on call {call}"

/-- Whether a scripted output loops back on an event. -/
def LoopbackSpec.fires (l : LoopbackSpec) (e : Event) (ctx : OutputContext) (o : Outbox)
    (made : Nat) : Bool :=
  e.payloadType == l.onPayloadType && !(l.skipReplay && ctx.replay) &&
    !(l.skipIfInFlight && o.inFlight.holds ctx.loopbackSource) && made < l.max

/-- A scripted output. -/
def scriptOutput (name : String) (acks : List String) (failAttempts : Nat)
    (loopback : Option LoopbackSpec) : Output World where
  name := name
  publish e ctx w o :=
    let counts := w.countsOf name
    let call := counts.calls
    let w := w.updateCounts name fun c => { c with calls := call + 1 }
    let entry (lb : Option (Except EngineError UInt64)) (outcome : Except String Ack) : OutputCall :=
      ⟨name, e.sequence, ctx.attempt, ctx.replay, lb, outcome⟩
    let log (c : OutputCall) (w : World) : World := { w with calls := w.calls ++ [c] }
    if ctx.attempt ≤ failAttempts then
      let message := s!"output {name} failed attempt {ctx.attempt}"
      (.error (.plain message), log (entry none (.error message)) w, o)
    else
      let (lb, w, o) : Option (Except EngineError UInt64) × World × Outbox :=
        match loopback with
        | some l =>
          if l.fires e ctx o (w.countsOf name).loopbacks then
            let w := w.updateCounts name fun c => { c with loopbacks := c.loopbacks + 1 }
            let (r, o') := ctx.loopback o l.payloadType l.payload
            (some r, w, o')
          else (none, w, o)
        | none => (none, w, o)
      match lb with
      | some (.error err) =>
        (.error err.failure, log (entry lb (.error err.failure.render)) w, o)
      | _ =>
        match pickAck name acks call with
        | .ok ack => (.ok ack, log (entry lb (.ok ack)) w, o)
        | .error message => (.error (.plain message), log (entry lb (.error message)) w, o)
  publish_sends e ctx w o := by
    repeat' first | split | dsimp only
    all_goals first
      | exact .refl _
      | exact OutputContext.sends_of_loopback ‹_›

/-- An output that keeps every publication as a fixture and always gives one answer. -/
def recordingOutput (name : String) (ack : Ack) : Output World where
  name := name
  publish e ctx w o :=
    (.ok ack, { w with publishedBy := World.note w.publishedBy name ⟨e, ctx.replay, ctx.attempt⟩ }, o)
  publish_sends _ _ _ o := .refl o

/-- An output that fails the first `failures` attempts at every event, keeping every attempt
as a fixture. -/
def flakyOutput (name : String) (failures : Nat) : Output World where
  name := name
  publish e ctx w o :=
    let w := { w with attemptsBy := World.note w.attemptsBy name (e.sequence, ctx.attempt) }
    if ctx.attempt ≤ failures then
      (.error (.plain s!"flaky output failed attempt {ctx.attempt}"), w, o)
    else (.ok .committed, w, o)
  publish_sends _ ctx _ o := by
    dsimp only
    split <;> exact .refl o

/-- The output of a specification. -/
def OutputSpec.build : OutputSpec → Output World
  | .reorder threshold batch => Warehouse.reorder threshold batch
  | .script name acks failAttempts loopback => scriptOutput name acks failAttempts loopback
  | .recording name ack => recordingOutput name ack
  | .flaky name failures => flakyOutput name failures

/-- Sends commands in order, logging each under the input's name; stops at the first
unreadable payload or failed send, and marks the world panicked at a payload whose reading
panics. Says how many were sent. -/
def sendAll (name : String) (ctx : SendContext) :
    List (SourceId × PayloadType × DuePayload) → Nat → World → Outbox →
      Except Failure Nat × World × Outbox
  | [], n, w, o => (.ok n, w, o)
  | (_, _, .unreadable reason) :: _, _, w, o => (.error (.plain reason), w, o)
  | (_, _, .panics) :: _, _, w, o => (.error (.plain "panicked"), { w with panicked := true }, o)
  | (source, pt, .bytes payload) :: rest, n, w, o =>
    match o.send ctx source pt payload with
    | (.ok sequence, o') => sendAll name ctx rest (n + 1) { w with sent := w.sent ++ [(name, sequence)] } o'
    | (.error err, o') => (.error err.failure, w, o')

theorem sendAll_sends (name : String) (ctx : SendContext)
    (items : List (SourceId × PayloadType × DuePayload)) (n : Nat) (w : World) (o : Outbox) :
    Outbox.Sends ctx o (sendAll name ctx items n w o).2.2 := by
  induction items generalizing n w o with
  | nil => exact .refl o
  | cons item rest ih =>
    obtain ⟨source, pt, due⟩ := item
    cases due with
    | unreadable reason => exact .refl o
    | panics => exact .refl o
    | bytes payload =>
      unfold sendAll
      split
      · exact (Outbox.Sends.of_send ‹_›).trans (ih _ _ _)
      · exact Outbox.Sends.of_send ‹_›

/-- A scripted input: each poll takes the next step, unless the step waits for a source with a
command in flight. Its cursor is kept under its instance number `key`. -/
def scriptInput (key : Nat) (name : String) (steps : List InputStep) : Input World where
  name := name
  poll ctx w o :=
    let cursor := w.cursorOf key
    match steps[cursor]? with
    | none => (.ok 0, w, o)
    | some step =>
      let waits := match step.deferIfInFlight with
        | some source => o.inFlight.holds source
        | none => false
      if waits then (.ok 0, w, o)
      else
        let w := w.setCursor key (cursor + 1)
        match step.error with
        | some message => (.error (.plain message), w, o)
        | none => sendAll name ctx step.send 0 w o
  poll_sends ctx w o := by
    repeat' first | split | dsimp only
    all_goals first
      | exact .refl _
      | exact sendAll_sends _ _ _ _ _ _

/-- An input that tops a source up: one command per poll while the source has nothing in
flight, `max` commands in all. Its count is kept under its instance number `key`. -/
def topperInput (key : Nat) (name : String) (source : SourceId) (pt : PayloadType)
    (payload : Bytes) (max : Nat) : Input World where
  name := name
  poll ctx w o :=
    let count := w.cursorOf key
    if o.inFlight.holds source || max ≤ count then (.ok 0, w, o)
    else
      match o.send ctx source pt payload with
      | (.ok sequence, o') =>
        (.ok 1, ({ w with sent := w.sent ++ [(name, sequence)] }).setCursor key (count + 1), o')
      | (.error err, o') => (.error err.failure, w, o')
  poll_sends ctx w o := by
    repeat' first | split | dsimp only
    all_goals first
      | exact .refl _
      | exact Outbox.Sends.of_send ‹_›

/-- The input of a specification, keeping its progress under `key`. -/
def InputSpec.build (key : Nat) : InputSpec → Input World
  | .script name steps => scriptInput key name steps
  | .topper name source pt payload max => topperInput key name source pt payload max

/-- Builds members in order, numbering them from `first` on. -/
def buildNumbered {σ μ : Type} (build : Nat → σ → μ) (first : Nat) (specs : List σ) : List μ :=
  (specs.zipIdx first).map fun (spec, k) => build k spec

/-- The recording appliers a list of applier specifications holds. -/
def recordingCount (specs : List ApplierSpec) : Nat := specs.countP ApplierSpec.isRecording

/-- Builds recording appliers in order, numbering only those from `first` on. -/
def buildAppliers (first : Nat) : List ApplierSpec → List (Applier World)
  | [] => []
  | spec :: rest =>
    spec.build first :: buildAppliers (if spec.isRecording then first + 1 else first) rest

/-- The number of recording appliers a plugin installs. -/
def PluginSpec.recordingAppliers : PluginSpec → Nat
  | .bundle _ _ appliers _ _ _ => recordingCount appliers
  | .recording _ => 1

/-- The number of inputs a plugin installs. -/
def PluginSpec.inputCount : PluginSpec → Nat
  | .bundle _ _ _ _ inputs _ => inputs.length
  | .recording _ => 0

/-- The plugin of a specification; its recording appliers are numbered from `firstApplier`
on and its inputs from `firstInput` on. -/
def PluginSpec.build (firstApplier firstInput : Nat) : PluginSpec → Plugin World
  | .bundle name processors appliers outputs inputs baseEvents =>
    { name := name
      install := fun i => { i with
        processors := i.processors ++ processors.map ProcessorSpec.build
        appliers := i.appliers ++ buildAppliers firstApplier appliers
        outputs := i.outputs ++ outputs.map OutputSpec.build
        inputs := i.inputs ++ buildNumbered InputSpec.build firstInput inputs }
      baseState := baseEvents.map (BaseState.recordAll {}) }
  | .recording name =>
    { name := name ++ "-plugin"
      install := fun i => { i with appliers := i.appliers ++ [recordingApplier firstApplier name] } }

end EventSourcing.Bench
