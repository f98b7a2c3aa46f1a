import EventSourcing.State.Base
import EventSourcing.ReplayMode
import EventSourcing.Chain

/-!
# Applying events

The application of events keeps the base state and a chain of appliers. Events must come
gapless and once each: an event at or below the last applied sequence is applied again,
and one past the next sequence leaves a gap. Either is refused and changes nothing. An
accepted event always moves the base state on; it reaches the appliers when the replay mode
admits its kind.

The chain of appliers puts the extensions' appliers first and the application's last.
-/

namespace EventSourcing

/-- An event offered out of order. -/
inductive ReplayError where
  /-- The event is at or below the last applied one. -/
  | alreadyApplied (sequence last : UInt64)
  /-- The event is past the next one. -/
  | gap (expected received : UInt64)
  deriving DecidableEq, Repr

namespace ReplayError

/-- The sentence that reports the error. -/
def message : ReplayError → String
  | alreadyApplied sequence last => s!"event {sequence} applied again: last applied event is {last}"
  | gap expected received => s!"event sequence gap: expected {expected}, received {received}"

end ReplayError

/-- An applier: it folds events into the application's state `W`. -/
structure Applier (W : Type) where
  name : String
  /-- An applier that does nothing; chains leave it out. -/
  isNoop : Bool := false
  apply : Event → W → W

instance {W : Type} : Member (Applier W) := ⟨Applier.name, Applier.isNoop⟩

namespace Applier

/-- The applier that does nothing. -/
def noop {W : Type} : Applier W := ⟨"lockstep::applier::NoopApplier", true, fun _ w => w⟩

/-- The name of a chain of appliers taken as one applier. -/
def compositeName : String := "composite-applier"

end Applier

/-- The base state, the chain of appliers and the replay mode. -/
structure Application (W : Type) where
  base : BaseState
  appliers : Chain (Applier W)
  mode : ReplayMode

namespace Application

variable {W : Type}

/-- Composes the application's appliers after the extensions' ones. -/
def compose (base : BaseState) (application extensions : List (Applier W)) (mode : ReplayMode) :
    Application W :=
  ⟨base, Chain.compose application extensions .applicationLast, mode⟩

/-- Whether an event is the next one, and the error if it is not. -/
def order (last sequence : UInt64) : Except ReplayError Unit :=
  if sequence ≤ last then .error (.alreadyApplied sequence last)
  else if sequence ≠ last + 1 then .error (.gap (last + 1) sequence)
  else .ok ()

/-- Applies an event: refuses it out of order, else moves the base state on and, when the
mode admits it, runs the appliers. Says whether the appliers ran. -/
def apply (a : Application W) (e : Event) (w : W) : Except ReplayError (Bool × Application W × W) :=
  match order a.base.lastEvent e.sequence with
  | .error err => .error err
  | .ok () =>
    let a' := { a with base := a.base.record e }
    if a.mode.admits e.kind then
      .ok (true, a', a.appliers.members.foldl (fun w ap => ap.apply e w) w)
    else .ok (false, a', w)

/-- An event is accepted only as the next one; it then moves the base state on, and reaches
the appliers as the mode says. -/
theorem apply_eq_ok {a a' : Application W} {e : Event} {w w' : W} {d : Bool}
    (h : a.apply e w = .ok (d, a', w')) :
    a.base.lastEvent < e.sequence ∧ e.sequence = a.base.lastEvent + 1 ∧
      a' = { a with base := a.base.record e } ∧ d = a.mode.admits e.kind ∧
      w' = if d then a.appliers.members.foldl (fun w ap => ap.apply e w) w else w := by
  unfold apply order at h
  split at h
  · cases h
  · rename_i horder
    split at horder
    · cases horder
    · split at horder
      · cases horder
      · rename_i hle hne
        have hlt : a.base.lastEvent < e.sequence := UInt64.not_le.mp hle
        split at h
        · rename_i hadmits
          cases h
          exact ⟨hlt, Classical.not_not.1 hne, rfl, hadmits.symm, by simp⟩
        · rename_i hadmits
          cases h
          exact ⟨hlt, Classical.not_not.1 hne, rfl, by simpa using hadmits, by simp⟩

theorem apply_of_next {a : Application W} {e : Event} (w : W) (hlt : a.base.lastEvent < e.sequence)
    (heq : e.sequence = a.base.lastEvent + 1) :
    a.apply e w = .ok (a.mode.admits e.kind, { a with base := a.base.record e },
      if a.mode.admits e.kind then a.appliers.members.foldl (fun w ap => ap.apply e w) w else w) := by
  have horder : order a.base.lastEvent e.sequence = .ok () := by
    have hnle : ¬ e.sequence ≤ a.base.lastEvent := UInt64.not_le.2 hlt
    unfold order
    rw [if_neg hnle, if_neg (Classical.not_not.2 heq)]
  unfold apply
  rw [horder]
  cases a.mode.admits e.kind <;> rfl

/-- The last applied event, the appliers and the mode, as dumps write them. -/
def dump (a : Application W) : String :=
  "EventApplication \x7b last_applied_event_sequence: " ++ toString a.base.lastEvent ++
    ", appliers: CompositeApplier \x7b chain: " ++ a.appliers.dump ++ " \x7d, mode: " ++
    a.mode.dumpName ++ " \x7d"

end Application

end EventSourcing
