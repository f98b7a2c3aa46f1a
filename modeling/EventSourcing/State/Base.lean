import EventSourcing.Record.Basic
import EventSourcing.Keyed

/-!
# The base state

The base state is what replay keeps about the event log itself: the sequence of the last
event applied, and for each source the sequence of the last command whose transaction
ended, by commit or by rollback. A command at or below its source's watermark has been
processed; the dispatcher skips it as a duplicate.

Applying an event overwrites both watermarks; it checks nothing, so that the ordering rules
live in one place (`EventSourcing.Application`).
-/

namespace EventSourcing

/-- The watermarks of replay: the last event applied and the last command of each source. -/
structure BaseState where
  lastEvent : UInt64 := 0
  /-- The last command sequence of each source, by ascending source. -/
  sources : List (SourceId × UInt64) := []
  deriving DecidableEq, Repr, Inhabited

namespace BaseState

/-- The sequence of the last command of the source whose transaction ended; 0 for none. -/
def lastCommand (b : BaseState) (source : SourceId) : UInt64 := Keyed.findD b.sources source 0

/-- Whether a command of the source with this sequence has been processed. -/
def isApplied (b : BaseState) (source : SourceId) (sequence : UInt64) : Bool :=
  sequence ≤ b.lastCommand source

/-- Records an event as applied: it becomes the last event, and a terminal event makes its
command the last of its source. -/
def record (b : BaseState) (e : Event) : BaseState :=
  { lastEvent := e.sequence
    sources := if e.kind.isTerminal then Keyed.insert b.sources e.source e.sourceSequence
      else b.sources }

/-- The state after recording events one by one. -/
def recordAll (b : BaseState) (events : List Event) : BaseState := events.foldl record b

@[simp]
theorem lastEvent_record (b : BaseState) (e : Event) : (b.record e).lastEvent = e.sequence := rfl

theorem lastCommand_record_self (b : BaseState) (e : Event) (h : e.kind.isTerminal = true) :
    (b.record e).lastCommand e.source = e.sourceSequence := by
  simp [record, lastCommand, Keyed.findD, h]

theorem recordAll_append (b : BaseState) (evs evs' : List Event) :
    b.recordAll (evs ++ evs') = (b.recordAll evs).recordAll evs' := by
  simp [recordAll, List.foldl_append]

/-- After recording events, the last event is the last of them, or the one before for none. -/
theorem lastEvent_recordAll (b : BaseState) (evs : List Event) :
    (b.recordAll evs).lastEvent = (evs.getLast?.map Event.sequence).getD b.lastEvent := by
  induction evs generalizing b with
  | nil => rfl
  | cons e rest ih =>
    show ((b.record e).recordAll rest).lastEvent = _
    rw [ih, List.getLast?_cons]
    cases rest.getLast? <;> rfl

theorem lastCommand_record_of_ne (b : BaseState) (e : Event) {x : SourceId} (h : x ≠ e.source) :
    (b.record e).lastCommand x = b.lastCommand x := by
  unfold record lastCommand Keyed.findD
  split
  · rw [Keyed.find?_insert_of_ne _ _ _ _ h]
  · rfl

/-- Events that end no transaction leave the watermarks alone. -/
theorem lastCommand_recordAll_of_not_terminal {b : BaseState} {evs : List Event}
    (h : ∀ e ∈ evs, e.kind.isTerminal = false) (x : SourceId) :
    (b.recordAll evs).lastCommand x = b.lastCommand x := by
  induction evs generalizing b with
  | nil => rfl
  | cons e rest ih =>
    show ((b.record e).recordAll rest).lastCommand x = _
    rw [ih fun e' he' => h e' (List.mem_cons_of_mem _ he')]
    simp [record, lastCommand, h e (List.mem_cons_self ..)]

/-- Recording the events of one command, one of them terminal, makes the command the last of
its source and leaves the other sources as they were. -/
theorem lastCommand_recordAll_of_terminal {b : BaseState} {evs : List Event} {source : SourceId}
    {sequence : UInt64} (hall : ∀ e ∈ evs, e.source = source ∧ e.sourceSequence = sequence)
    (hterm : ∃ e ∈ evs, e.kind.isTerminal = true) (x : SourceId) :
    (b.recordAll evs).lastCommand x = if x = source then sequence else b.lastCommand x := by
  induction evs generalizing b with
  | nil => simp at hterm
  | cons e rest ih =>
    obtain ⟨hsrc, hseq⟩ := hall e (List.mem_cons_self ..)
    have hrest : ∀ e ∈ rest, e.source = source ∧ e.sourceSequence = sequence :=
      fun e he => hall e (List.mem_cons_of_mem _ he)
    show ((b.record e).recordAll rest).lastCommand x = _
    by_cases hlater : ∃ e ∈ rest, e.kind.isTerminal = true
    · rw [ih hrest hlater]
      split
      · rfl
      · rename_i hx
        exact lastCommand_record_of_ne b e (hsrc ▸ hx)
    · -- `e` is the terminal one, and the events after it leave the watermarks alone
      have he : e.kind.isTerminal = true := by
        obtain ⟨e', he', ht⟩ := hterm
        rcases List.mem_cons.1 he' with rfl | he'
        · exact ht
        · exact absurd ⟨e', he', ht⟩ hlater
      rw [lastCommand_recordAll_of_not_terminal (by simpa using hlater)]
      split
      · rename_i hx
        subst hx
        rw [← hsrc, ← hseq]
        exact lastCommand_record_self b e he
      · rename_i hx
        exact lastCommand_record_of_ne b e (hsrc ▸ hx)

/-- The snapshot text: the last event and the watermarks of the sources, by ascending
source, as a JSON object. -/
def snapshot (b : BaseState) : String :=
  let entries := b.sources.map fun (s, q) => "\"" ++ toString s ++ "\":" ++ toString q
  "\x7b\"last_event_sequence\":" ++ toString b.lastEvent ++ ",\"command_sequences\":\x7b" ++
    ",".intercalate entries ++ "\x7d\x7d"

end BaseState

end EventSourcing
