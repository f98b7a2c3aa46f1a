import EventSourcing.Api.Answer
import EventSourcing.Api.CommandLine
import EventSourcing.Api.Composition
import EventSourcing.Api.Records
import EventSourcing.Api.Request
import EventSourcing.Api.Respond
import EventSourcing.Api.Scenario
import EventSourcing.Api.Settings
import EventSourcing.Api.Trackers
import EventSourcing.Api.Trial
import EventSourcing.Application
import EventSourcing.Bench.Members
import EventSourcing.Bench.Scenario
import EventSourcing.Bench.Script
import EventSourcing.Bench.World
import EventSourcing.Bytes
import EventSourcing.Chain
import EventSourcing.Cli.Demo
import EventSourcing.Cli.Grammar
import EventSourcing.Cli.Parse
import EventSourcing.Cli.Similarity
import EventSourcing.Config
import EventSourcing.Demo.Ledger
import EventSourcing.Demo.Session
import EventSourcing.Demo.Warehouse
import EventSourcing.Demo.Workload
import EventSourcing.Engine.Basic
import EventSourcing.Engine.Report
import EventSourcing.Engine.Run
import EventSourcing.EngineError
import EventSourcing.Failure
import EventSourcing.Focus
import EventSourcing.InFlight
import EventSourcing.InFlight.Ring
import EventSourcing.Json.Basic
import EventSourcing.Json.Cursor
import EventSourcing.Json.Number
import EventSourcing.Json.Parse
import EventSourcing.Json.Print
import EventSourcing.Json.Quoted
import EventSourcing.Json.Skip
import EventSourcing.Keyed
import EventSourcing.Main
import EventSourcing.MessageLog
import EventSourcing.MessageLog.Arena
import EventSourcing.Outbox
import EventSourcing.Processing
import EventSourcing.Proofs.Applier
import EventSourcing.Proofs.Arena
import EventSourcing.Proofs.Atomicity
import EventSourcing.Proofs.Calls
import EventSourcing.Proofs.CommandLog
import EventSourcing.Proofs.Counters
import EventSourcing.Proofs.Deduplication
import EventSourcing.Proofs.Delivery
import EventSourcing.Proofs.Dispatcher
import EventSourcing.Proofs.EventLog
import EventSourcing.Proofs.Exec
import EventSourcing.Proofs.Frame
import EventSourcing.Proofs.Invariant
import EventSourcing.Proofs.Moves
import EventSourcing.Proofs.Offers
import EventSourcing.Proofs.RecordFormat
import EventSourcing.Proofs.Replay
import EventSourcing.Proofs.Resume
import EventSourcing.Proofs.Ring
import EventSourcing.Proofs.Runs
import EventSourcing.Proofs.Scheduling
import EventSourcing.Proofs.Sequencing
import EventSourcing.Proofs.Tracker
import EventSourcing.Proofs.Seeding
import EventSourcing.Proofs.Warehouse
import EventSourcing.Publishing
import EventSourcing.Random.WyRand
import EventSourcing.Record.Basic
import EventSourcing.Record.Codec
import EventSourcing.Record.Kind
import EventSourcing.Record.View
import EventSourcing.ReplayMode
import EventSourcing.State.Base
import EventSourcing.State.Snapshot
import EventSourcing.State.Transient
import EventSourcing.Text.Blank
import EventSourcing.Text.Debug
import EventSourcing.Text.Decimal
import EventSourcing.Text.Double
import EventSourcing.Text.Printable
import EventSourcing.Text.Shortest
import EventSourcing.Transaction
import EventSourcing.Transaction.Arena
import EventSourcing.Proofs.Gapless
import EventSourcing.Proofs.Batch
import EventSourcing.Proofs.Inventory
import EventSourcing.Proofs.Reordering
import EventSourcing.Proofs.Stock
import EventSourcing.Proofs.Restocking
import EventSourcing.Proofs.Determinism
import EventSourcing.Proofs.ReplayCheck
import EventSourcing.Proofs.Balances
import EventSourcing.Proofs.Settlement
import EventSourcing.Proofs.TransactionArena
