import EventSourcing.Api.Scenario

/-!
# Composition requests

Requests on the parts an engine is composed of, taken one at a time: an application of
events over recorders, chains of members, the publisher, a plugin's installer, the sequencers
and the outcome of a transaction.
-/

namespace EventSourcing.Api

open Bench

/-- A recorder: an applier that writes `name:sequence` to the shared log. -/
def recorder (name : String) : Applier (List String) :=
  if name == "noop" then Applier.noop
  else ⟨name, false, fun e log => log ++ [s!"{name}:{e.sequence}"]⟩

/-- Reads a replay mode field; its absence means the default mode. -/
def modeField (j : Json) : Reader (Except String ReplayMode) := do
  match ← stringField? j "mode" with
  | none => pure (.ok .all)
  | some text => pure (ReplayMode.parse text)

/-- The refusal of a replay mode text. -/
def parseErrorJson (message : String) : Json :=
  .obj [("error", .str "ParseError"), ("message", .str message)]

/-- Reads a list of names. -/
def namesField (j : Json) (key : String) : Reader (List String) :=
  do eachOf (fun
    | .str s => .ok s
    | _ => .error s!"'{key}' must hold strings") (← listField j key)

/-- The base state that recording the given events gives. -/
def baseOf (j : Json) : Reader BaseState := do
  pure (BaseState.recordAll {} (← eventsOf (← listField j "base")))

/-- The sources a step of `apply_events` reports on: each query must be an integer, taken as
its low 32 bits; the sources are held once each, in ascending order. -/
def querySources (queries : List Json) : Reader (List SourceId) := do
  let sources ← eachOf (fun
    | .int i => if -9223372036854775808 ≤ i ∧ i ≤ 9223372036854775807 then .ok (Int32.ofInt i)
      else .error "query_sources are ints"
    | _ => .error "query_sources are ints") queries
  pure ((sources.foldl (fun acc s => Keyed.insert acc s ()) []).map (·.1))

/-- Applies events one by one through an application of recorders. -/
def applyEvents (j : Json) : Reader Json := do
  match ← modeField j with
  | .error m => pure (parseErrorJson m)
  | .ok mode =>
    let application ← namesField j "application"
    let extensions ← namesField j "extensions"
    let base ← baseOf j
    let events ← eachOf eventBytes (← listField j "events")
    let queries ← listField j "query_sources"
    let a := Application.compose base (application.map recorder) (extensions.map recorder) mode
    let step (acc : List Json × Application (List String)) (bytes : Bytes) :
        Reader (List Json × Application (List String)) := do
      let (steps, a) := acc
      let (result, called, a') := match Event.decode bytes with
        | .error e => (recordErrorJson e, ([] : List String), a)
        | .ok ev =>
          match a.apply ev [] with
          | .ok (ran, a', log) => (Json.bool ran, log, a')
          | .error err => (replayErrorJson err, [], a)
      let sources := (← querySources queries).map fun q => (q, a'.base.lastCommand q)
      pure (steps ++ [.obj [("result", result), ("appliers_called", .list .str called),
        ("last_event", uint64Json a'.base.lastEvent), ("sources", sourcePairs sources)]], a')
    let (steps, _) ← events.foldlM step ([], a)
    pure <| .obj [("mode", .str mode.name), ("chain", .list .str a.appliers.names),
      ("skipped", .nat a.appliers.skipped.length), ("is_noop", .bool a.appliers.isEmpty),
      ("steps", .arr steps)]

/-- Applies events through an application of bench appliers and dumps it before and after. -/
def applicationInfo (j : Json) : Reader Json := do
  match ← modeField j with
  | .error m => pure (parseErrorJson m)
  | .ok mode =>
    let application ← eachOf applierSpecOf (← listField j "application")
    let extensions ← eachOf applierSpecOf (← listField j "extensions")
    let base ← baseOf j
    let events ← eventsOf (← listField j "events")
    let a := Application.compose base (application.map (ApplierSpec.build 0))
      (extensions.map (ApplierSpec.build 0)) mode
    let step (acc : List Json × Application World × World) (ev : Event) :=
      let (results, a, w) := acc
      match a.apply ev w with
      | .ok (ran, a', w') => (results ++ [Json.bool ran], a', w')
      | .error err => (results ++ [replayErrorJson err], a, w)
    let (results, a', _) := events.foldl step ([], a, {})
    pure <| .obj [("mode", .str mode.name), ("debug_before", .str a.dump),
      ("results", .arr results), ("debug_after", .str a'.dump)]

/-- A chain's report. -/
def chainJson {α : Type} [Member α] (c : Chain α) : Json :=
  .obj [("len", .nat c.members.length), ("is_empty", .bool c.isEmpty), ("names", .list .str c.names),
    ("iter_names", .list .str c.names), ("skipped", .list .str c.skipped), ("debug", .str c.dump)]

/-- Reads a chain order. -/
def orderOf (name : String) : Reader ChainOrder :=
  match name with
  | "application_first" => .ok .applicationFirst
  | "application_last" => .ok .applicationLast
  | other => .error s!"unknown order '{other}'"

/-- Composes chains of processors or appliers. -/
def chainInfo (j : Json) : Reader Json := do
  let order ← orderOf (← stringField j "order" "application_first")
  let emptyDump := Chain.dump (α := Processor World) {}
  match ← stringField j "capability" "applier" with
  | "applier" =>
    let application := (← eachOf applierSpecOf (← listField j "application")).map (ApplierSpec.build 0)
    let extensions := (← eachOf applierSpecOf (← listField j "extensions")).map (ApplierSpec.build 0)
    let composite := Chain.compose application extensions .applicationLast
    pure <| .obj [("chain", chainJson (Chain.compose application extensions order)),
      ("composite", .obj [("is_noop", .bool composite.isEmpty), ("name", .str Applier.compositeName),
        ("debug", .str s!"CompositeApplier \x7b chain: {composite.dump} \x7d")]),
      ("default", .obj [("is_noop", .bool true),
        ("debug", .str s!"CompositeApplier \x7b chain: {emptyDump} \x7d")]),
      ("empty", chainJson (Chain.compose (α := Applier World) [] [] order))]
  | "processor" =>
    let application := (← eachOf processorSpecOf (← listField j "application")).map ProcessorSpec.build
    let extensions := (← eachOf processorSpecOf (← listField j "extensions")).map ProcessorSpec.build
    let composite := Chain.compose application extensions .applicationFirst
    pure <| .obj [("chain", chainJson (Chain.compose application extensions order)),
      ("composite", .obj [("is_noop", .bool composite.isEmpty), ("name", .str Processor.compositeName),
        ("debug", .str s!"CompositeProcessor \x7b chain: {composite.dump} \x7d"),
        ("names", .list .str composite.names)]),
      ("default", .obj [("is_noop", .bool true),
        ("debug", .str s!"CompositeProcessor \x7b chain: {emptyDump} \x7d")])]
  | other => .error s!"unknown capability '{other}'"

/-- Builds a publisher from output specifications. -/
def publisherInfo (j : Json) : Reader Json := do
  let application := (← eachOf outputSpecOf (← listField j "application")).map OutputSpec.build
  let extensions := (← eachOf outputSpecOf (← listField j "extensions")).map OutputSpec.build
  let budget := (← intField j "retry_budget" .u32 3).toNat.toUInt32
  let loopback := Int32.ofInt (← intField j "loopback_source_id" .i32 2147483647)
  pure <| match Publisher.build application extensions budget loopback with
    | .error e => engineErrorJson e
    | .ok p => .obj [("len", .nat p.slots.length), ("is_empty", .bool p.slots.isEmpty),
        ("names", .list .str p.names), ("pollers", .list .str p.pollers), ("debug", .str p.dump)]

/-- Adds members to an installer, reporting whether it is empty before and after each. -/
def installerInfo (j : Json) : Reader Json := do
  let members ← listField j "members"
  let add (i : Installer World) (m : Json) : Reader (Installer World) :=
    match m with
    | .arr (.str kind :: spec :: _) =>
      match kind with
      | "processor" => (fun p => { i with processors := i.processors ++ [p.build] }) <$> processorSpecOf spec
      | "applier" => (fun a => { i with appliers := i.appliers ++ [a.build 0] }) <$> applierSpecOf spec
      | "output" => (fun o => { i with outputs := i.outputs ++ [o.build] }) <$> outputSpecOf spec
      | "input" => (fun x => { i with inputs := i.inputs ++ [x.build 0] }) <$> inputSpecOf spec
      | other => .error s!"unknown member kind '{other}'"
    | _ => .error "'members' entries must be [kind, spec]"
  let rec go (i : Installer World) : List Json → Reader (List Bool)
    | [] => .ok []
    | m :: rest => do
      let i' ← add i m
      pure (i'.isEmpty :: (← go i' rest))
  let flags ← go {} members
  pure (.obj [("is_empty", .list .bool ((Installer.isEmpty (W := World) {}) :: flags))])

/-- Asks the sequencers for the next sequence of sources in turn. -/
def sequencersInfo (j : Json) : Reader Json := do
  let base ← baseOf j
  let pairs ← listField j "transient_commands"
  let transient := pairs.foldl (fun (t : Transient) p => match p with
    | .arr (.int s :: .int q :: _) =>
      if -9223372036854775808 ≤ s ∧ s ≤ 9223372036854775807 ∧ 0 ≤ q ∧ q ≤ 18446744073709551615 then
        t.noteCommand (Int32.ofInt s) q.toNat.toUInt64
      else t
    | _ => t) {}
  let queries := (← listField j "queries").filterMap fun
    | .int i => if -9223372036854775808 ≤ i ∧ i ≤ 9223372036854775807 then some i else none
    | _ => none
  let step (acc : List Json × Sequencers) (q : Int) :=
    let (steps, s) := acc
    let source := Int32.ofInt q
    let before := s.last? source
    let (next, s') := s.next source base transient
    (steps ++ [.obj [("source_id", int32Json source), ("last_sent_before", Json.option uint64Json before),
      ("next", uint64Json next), ("last_sent_after", Json.option uint64Json (s'.last? source)),
      ("sent", .nat s'.sent)]], s')
  let (steps, _) := queries.foldl step ([], {})
  pure (.obj [("steps", .arr steps)])

/-- The event counts of a transaction's outcome. -/
def outcomeInfo (j : Json) : Reader Json := do
  let events ← intField j "events" .u32
  let outcome ← match ← requiredString j "transaction" with
    | "committed" => pure (Outcome.committed events.toNat)
    | "auto_committed" => pure .autoCommitted
    | "rolled_back" => pure .rolledBack
    | other => .error s!"unknown transaction '{other}'"
  pure (.obj [("transaction_event_count", .nat outcome.eventCount), ("idle_events_appended", .nat 0),
    ("duplicate_events_appended", .nat 0), ("processed_events_appended", .nat outcome.eventCount)])

end EventSourcing.Api
