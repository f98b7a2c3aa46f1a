import EventSourcing.Random.WyRand
import EventSourcing.Demo.Warehouse

/-!
# Generated workloads

A seeded stream of warehouse commands: a source drawn from `1..=sources` (one source at
least), an item, and then four times out of five an order of 1 to 5 and otherwise a restock
of 1 to 10.
-/

namespace EventSourcing

/-- The state of a workload: the generator and the number of sources. -/
structure Workload where
  rng : Random.WyRand
  sources : Int32
  deriving Repr

namespace Workload

/-- A workload from a seed; fewer than one source counts as one. -/
def seeded (seed : UInt64) (sources : Int32) : Workload := ⟨.seeded seed, max sources 1⟩

/-- The next command: its source, payload type and payload text. Each draw is a value with
the generator after it. -/
def next (w : Workload) : (SourceId × PayloadType × String) × Workload :=
  let s := w.rng.below32 w.sources.toInt.toNat
  let source : SourceId := 1 + Int32.ofNat s.1
  let i := s.2.below64 Warehouse.items.length
  let item := Warehouse.items.getD i.1 ""
  let kind := i.2.below32 10
  if kind.1 < 8 then
    let q := kind.2.below64 5
    ((source, Warehouse.order, s!"{item}:{q.1 + 1}"), ⟨q.2, w.sources⟩)
  else
    let q := kind.2.below64 10
    ((source, Warehouse.restock, s!"{item}:{q.1 + 1}"), ⟨q.2, w.sources⟩)

/-- The first `count` commands. -/
def take (w : Workload) : Nat → List (SourceId × PayloadType × String)
  | 0 => []
  | count + 1 => let p := w.next; p.1 :: take p.2 count

end Workload

end EventSourcing
