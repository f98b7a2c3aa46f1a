import EventSourcing.Transaction
import EventSourcing.State.Base
import EventSourcing.Chain

/-!
# Processors

A processor turns a command into routed events, reading the base state and the
application's state `W`. It may also abort the transaction, fail, or panic; routing and
aborting are all it can do to the transaction. The chain of
processors puts the application's processor first; it stops before a processor once the
transaction is aborted, and at the first processor that fails or panics. A failure is
reported in the context of the processor's name; a panic is reported as it is.
-/

namespace EventSourcing

/-- A processor of commands over the application's state `W`. -/
structure Processor (W : Type) where
  name : String
  /-- A processor that does nothing; chains leave it out. -/
  isNoop : Bool := false
  process : Command → BaseState → W → Router → Except Halt Unit × W × Router
  /-- Processing only routes events and aborts the transaction. -/
  process_extends : ∀ c b w (r : Router), r.Extends (process c b w r).2.2

instance {W : Type} : Member (Processor W) := ⟨Processor.name, Processor.isNoop⟩

namespace Processor

variable {W : Type}

/-- The processor that does nothing. -/
def noop : Processor W :=
  ⟨"lockstep::processor::NoopProcessor", true, fun _ _ w r => (.ok (), w, r),
    fun _ _ _ r => Router.Extends.refl r⟩

/-- The name of a chain of processors taken as one processor. -/
def compositeName : String := "composite-processor"

/-- Runs processors in order until one fails or panics, skipping the rest once the
transaction is aborted. -/
def runAll (c : Command) (base : BaseState) : List (Processor W) → W → Router →
    Except Halt Unit × W × Router
  | [], w, r => (.ok (), w, r)
  | p :: rest, w, r =>
    if r.aborted then (.ok (), w, r)
    else
      match p.process c base w r with
      | (.ok (), w', r') => runAll c base rest w' r'
      | (.error (.failed f), w', r') =>
        (.error (.failed (f.within s!"command processor '{p.name}' failed")), w', r')
      | (.error (.panicked m), w', r') => (.error (.panicked m), w', r')

/-- The chain of processors only extends the transaction it is given. -/
theorem runAll_extends (c : Command) (base : BaseState) :
    ∀ (ps : List (Processor W)) (w : W) (r : Router), r.Extends (runAll c base ps w r).2.2
  | [], w, r => .refl r
  | p :: rest, w, r => by
    unfold runAll
    split
    · exact .refl r
    · have hp := p.process_extends c base w r
      split
      · rename_i w' r' hr
        rw [hr] at hp
        exact hp.trans (runAll_extends c base rest w' r')
      · rename_i f w' r' hr
        rw [hr] at hp
        exact hp
      · rename_i m w' r' hr
        rw [hr] at hp
        exact hp

end Processor

end EventSourcing
