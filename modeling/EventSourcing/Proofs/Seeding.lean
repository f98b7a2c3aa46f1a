import EventSourcing.Proofs.Tracker

/-!
# Sequencers seeded from any logs

An engine may start over a command log holding commands of any sources and sequences, and from
a restored base state whose watermarks stand above them. A source's sequencer starts, on its
first use, from the larger of its watermark and the highest sequence of it in the log: its
seed. `Outbox.Seeded` says that every started sequencer stands at its source's seed, and every
sender keeps it so (`Seeded.sends`). `Life` is one life of an engine, built from any blueprint,
started, and moved on by calls; along it the sequencers stay seeded (`Life.sequenced`), so
every send takes one above the seed (`send_takes_next_sequence`).
-/

namespace EventSourcing

namespace Outbox

variable {o o' : Outbox} {ctx : SendContext} {w : SourceId → UInt64} {x : SourceId}
  {payloadType : PayloadType} {payload : Bytes}

/-- Where the sequencer of `x` starts, for the watermarks `w`: the larger of the watermark and
the highest sequence of `x` in the log. -/
def seed (o : Outbox) (w : SourceId → UInt64) (x : SourceId) : UInt64 :=
  max (w x) (Command.highest o.commands.readCommands x)

/-- The sequencers are seeded from the watermarks `w`: every record reads, the maxima seen
stand at the highest logged sequences, and a started sequencer stands at its source's seed,
unless one above the seed is past the largest word. -/
structure Seeded (o : Outbox) (w : SourceId → UInt64) : Prop where
  readable : o.commands.Readable
  seen : ∀ x, o.transient.maxSource x = Command.highest o.commands.readCommands x
  sequencers : ∀ x l, o.sequencers.last? x = some l → (o.seed w x).toNat + 1 < UInt64.size →
    l = o.seed w x

/-- A seed only grows as the log grows. -/
theorem seed_le_of_highest_le {o' : Outbox}
    (h : Command.highest o.commands.readCommands x ≤ Command.highest o'.commands.readCommands x) :
    o.seed w x ≤ o'.seed w x := by
  simp only [seed, UInt64.le_iff_toNat_le, UInt64.toNat_max] at h ⊢
  omega

/-- Asking for a source's next sequence gives one above its seed and keeps the sequencers
seeded: a fresh sequencer starts from the seed. -/
theorem Seeded.nextSequence (h : o.Seeded ctx.base.lastCommand) (x : SourceId) :
    ((o.seed ctx.base.lastCommand x).toNat + 1 < UInt64.size →
      (o.nextSequence ctx x).1 = o.seed ctx.base.lastCommand x + 1) ∧
      (o.nextSequence ctx x).2.Seeded ctx.base.lastCommand := by
  unfold Outbox.nextSequence Sequencers.next
  cases hl : o.sequencers.last? x with
  | some l => exact ⟨fun hfits => by rw [h.sequencers x l hl hfits], h⟩
  | none =>
    have hstart : max (ctx.base.lastCommand x) (o.transient.maxSource x) =
        o.seed ctx.base.lastCommand x := by
      rw [h.seen x]
      rfl
    refine ⟨fun _ => by rw [hstart], h.readable, h.seen, ?_⟩
    intro y l hy hfits
    by_cases hyx : y = x
    · subst hyx
      simp only [Sequencers.last?, Keyed.find?_insert_self, Option.some.injEq] at hy
      rw [← hy, hstart]
      rfl
    · exact h.sequencers y l (by
        simpa only [Sequencers.last?, Keyed.find?_insert_of_ne _ _ _ _ hyx] using hy) hfits

/-- A send that goes through keeps the sequencers seeded. Its sequence is one above the seed,
which it becomes; past the largest word the seed stays there, and nothing is asked of it. -/
theorem Seeded.send_ok (h : o.Seeded ctx.base.lastCommand) {q : UInt64}
    (hsend : o.send ctx x payloadType payload = (.ok q, o')) : o'.Seeded ctx.base.lastCommand := by
  obtain ⟨hq, hcommands, -, hsequencers, htransient⟩ := send_eq_ok hsend
  obtain ⟨hnext, h₁⟩ := h.nextSequence x
  obtain ⟨c', hread, hentry⟩ : ∃ c' : Command,
      o'.commands.readCommands = o.commands.readCommands ++ [c'] ∧
        c'.entry = ⟨x, q, ctx.now⟩ :=
    ⟨_, by rw [hcommands]; exact MessageLog.readCommands_push _ (Command.decode_encode _), rfl⟩
  have hsource : c'.source = x := congrArg InFlightEntry.source hentry
  have hsequence : c'.sequence = q := congrArg InFlightEntry.sequence hentry
  have hhighest : ∀ y, Command.highest o'.commands.readCommands y =
      if x = y ∧ Command.highest o.commands.readCommands y < q then q
      else Command.highest o.commands.readCommands y := by
    intro y
    rw [hread, Command.highest_append_singleton, hsource, hsequence]
  have hgrows : ∀ y, o.seed ctx.base.lastCommand y ≤ o'.seed ctx.base.lastCommand y :=
    fun y => seed_le_of_highest_le (by rw [hread]; exact Command.highest_le_append _ _ _)
  refine ⟨?_, fun y => ?_, fun y l hy hfits => ?_⟩
  · intro b hb
    rw [hcommands, Array.toList_push, List.mem_append, List.mem_singleton] at hb
    rcases hb with hb | rfl
    · exact h.readable b hb
    · exact ⟨_, Command.decode_encode _⟩
  · rw [htransient, Transient.maxSource_noteCommand_eq, h.seen y, hhighest]
  · rw [hsequencers, Sequencers.last?_commit] at hy
    by_cases hyx : y = x
    · subst hyx
      simp only [if_true, Option.some.injEq] at hy
      obtain rfl : q = l := hy
      -- the old seed fits too, so the sequence is one above it and the new highest
      have hfits₀ : (o.seed ctx.base.lastCommand y).toNat + 1 < UInt64.size := by
        have := UInt64.le_iff_toNat_le.1 (hgrows y)
        omega
      have hq' : q = o.seed ctx.base.lastCommand y + 1 := hq.trans (hnext hfits₀)
      have hlt : o.seed ctx.base.lastCommand y < q := hq' ▸ lt_add_one_of_fits hfits₀
      have hle : Command.highest o.commands.readCommands y ≤ o.seed ctx.base.lastCommand y := by
        simp only [seed, UInt64.le_iff_toNat_le, UInt64.toNat_max]
        omega
      have hwle : ctx.base.lastCommand y ≤ o.seed ctx.base.lastCommand y := by
        simp only [seed, UInt64.le_iff_toNat_le, UInt64.toNat_max]
        omega
      have hnew : Command.highest o'.commands.readCommands y = q := by
        rw [hhighest, if_pos ⟨rfl, UInt64.lt_of_le_of_lt hle hlt⟩]
      simp only [seed, hnew, UInt64.ext_iff, UInt64.toNat_max]
      have := UInt64.lt_iff_toNat_lt.1 (UInt64.lt_of_le_of_lt hwle hlt)
      omega
    · rw [if_neg hyx] at hy
      have hseed : o'.seed ctx.base.lastCommand y = o.seed ctx.base.lastCommand y := by
        simp only [seed, hhighest, Ne.symm hyx, false_and, if_false]
      rw [hseed] at hfits ⊢
      exact h₁.sequencers y l hy hfits

/-- A failed send keeps the sequencers seeded. -/
theorem Seeded.send_error (h : o.Seeded ctx.base.lastCommand) {e : EngineError}
    (hsend : o.send ctx x payloadType payload = (.error e, o')) : o'.Seeded ctx.base.lastCommand := by
  obtain ⟨-, hcommands, -, htransient, hsequencers⟩ := send_eq_error hsend
  have h₁ := (h.nextSequence x).2
  have hseed : o'.seed = o.seed := by unfold seed; rw [hcommands]
  refine ⟨hcommands ▸ h.readable, ?_, ?_⟩
  · rw [htransient, hcommands]
    exact h.seen
  · rw [hsequencers, hseed]
    exact h₁.sequencers

/-- Senders keep the sequencers seeded. -/
theorem Seeded.sends (hs : Sends ctx o o') (h : o.Seeded ctx.base.lastCommand) :
    o'.Seeded ctx.base.lastCommand := by
  induction hs with
  | refl => exact h
  | @send o o' x payloadType payload hrest ih =>
    cases hsend : o.send ctx x payloadType payload with
    | mk r o₁ =>
    rw [hsend] at hrest ih
    cases r with
    | ok q => exact ih (h.send_ok hsend)
    | error e => exact ih (h.send_error hsend)
  | next x hrest ih => exact ih (h.nextSequence x).2

end Outbox

namespace Engine

variable {W : Type} {s s' : Engine W × W} {now : Timestamp}

/-- One life of an engine: built from any blueprint whose command log reads, over logs of any
commands and events and from any base state, started, and moved on by calls. -/
inductive Life : Engine W × W → Prop where
  | start {b : Blueprint W} {e : Engine W} {st : EngineStatus} {s : Engine W × W} (w : W)
      (now : Timestamp) (hb : b.build = .ok e) (hread : b.commands.Readable)
      (hstart : exec Engine.start now (e, w) = (.ok st, s)) : Life s
  | moves {s s' : Engine W × W} {ls : List Label} (now : Timestamp) (hlife : Life s)
      (hmoves : Moves now s ls s') : Life s'

theorem Life.started (hlife : Life s) : Started s := by
  induction hlife with
  | start w now hb hread hstart => exact (starts_of_exec hstart).choose_spec.started
  | moves now _ hmoves ih => exact (hmoves.keeps ih).1

/-- What holds at every point of a life: the engine has started, its applier is at the end of
the event log, and its sequencers are seeded from the watermarks of its base state. -/
structure Sequenced (s : Engine W × W) : Prop where
  started : Started s
  caughtUp : s.1.applierAt = s.1.events.length
  seeded : s.1.outbox.Seeded s.1.base.lastCommand

namespace Sequenced

/-- A start over a freshly built engine seeds nothing yet: the scan saw every logged command,
and the replay took the applier to the end of the event log. -/
theorem start {b : Blueprint W} {e : Engine W} {w : W} {st : EngineStatus}
    (hb : b.build = .ok e) (hread : b.commands.Readable)
    (hstart : exec Engine.start now (e, w) = (.ok st, s)) : Sequenced s := by
  obtain ⟨evs, hst⟩ := starts_of_exec hstart
  obtain ⟨-, -, hcommands, -⟩ := Blueprint.build_eq_ok hb
  obtain ⟨hentries, hsequencers, hmax⟩ := Blueprint.outbox_fresh_build hb
  have hread' : e.outbox.commands.Readable := hcommands ▸ hread
  obtain ⟨-, hseen⟩ := hst.restored hentries hmax hread'
  refine ⟨hst.started, ?_, ⟨hst.commands ▸ hread', fun x => ?_, fun x l hl => ?_⟩⟩
  · rw [hst.applierAt]
    simp only [MessageLog.length, hst.messages]
  · rw [hseen x, hst.commands]
  · rw [hst.sequencers, hsequencers] at hl
    cases hl

/-- A round that took a command keeps the sequencers seeded: the command is in the log, so its
sequence is at or below the highest of its source, and the watermark it sets stays within the
seed. -/
theorem took (h : Sequenced s) {m : Stored} {c : Command} (ht : Took s m c now s') :
    Sequenced s' := by
  have hmem : c ∈ s.1.outbox.commands.readCommands := List.mem_of_getElem? ht.command
  have hle := Command.le_highest_of_mem hmem
  have hread : s'.1.outbox.commands.readCommands = s.1.outbox.commands.readCommands := by
    unfold MessageLog.readCommands
    rw [ht.commands]
  have hseed : ∀ y, s'.1.outbox.seed s'.1.base.lastCommand y =
      s.1.outbox.seed s.1.base.lastCommand y := by
    intro y
    simp only [Outbox.seed, hread, ht.base, lastCommand_recordAll_batch]
    split
    · -- the watermark rises to the command's sequence, within the highest of its source
      rename_i hup
      obtain ⟨rfl, hlt⟩ := hup
      simp only [UInt64.ext_iff, UInt64.toNat_max]
      have := UInt64.le_iff_toNat_le.1 hle
      have := UInt64.lt_iff_toNat_lt.1 hlt
      omega
    · rfl
  refine ⟨?_, ht.applierAt, ⟨?_, fun y => ?_, fun y l hy hfits => ?_⟩⟩
  · unfold Started
    rw [ht.fixed.status]
    exact h.started
  · intro b hb
    rw [ht.commands] at hb
    exact h.seeded.readable b hb
  · -- noting the command leaves every maximum seen, already at or above it
    have hnote : (s.1.outbox.transient.noteCommand c.source c.sequence).maxSource y =
        s.1.outbox.transient.maxSource y := by
      rw [Transient.maxSource_noteCommand_eq, if_neg]
      rintro ⟨rfl, hlt⟩
      rw [h.seeded.seen] at hlt
      exact absurd hle (UInt64.not_le.2 hlt)
    rw [hread, ← h.seeded.seen y, ← hnote]
    unfold Transient.maxSource
    rw [ht.sources]
  · rw [hseed] at hfits ⊢
    rw [ht.sequencers] at hy
    exact h.seeded.sequencers y l hy hfits

/-- A move keeps the invariant, while the event log it leaves holds no more events than a
machine word counts. -/
theorem move (h : Sequenced s) {ls : List Label} (hm : Move now s ls s')
    (hbound : s'.1.events.length ≤ unbounded) : Sequenced s' := by
  -- the applier is at the end of the log, where no poller points at a record
  have hend : ∀ {p : String}, s.1.events.position p = s.1.applierAt →
      s.1.events.peek? p = none := fun hp =>
    MessageLog.peek?_eq_none.2 (Nat.le_of_eq (by rw [hp, h.caughtUp]))
  cases hm with
  | applied hpeek => rw [hend rfl] at hpeek; cases hpeek
  | dispatched hpeek hdecode hround =>
    exact h.took (took_of_bound h.started h.seeded.readable h.caughtUp hpeek hdecode hround hbound)
  | counted | changed | attempted => exact ⟨h.started, h.caughtUp, h.seeded⟩
  | hostSent source payloadType payload =>
    exact ⟨h.started, h.caughtUp, h.seeded.sends (.send source payloadType payload (.refl _))⟩
  | sent w hsends => exact ⟨h.started, h.caughtUp, h.seeded.sends hsends⟩
  | @published poller m ev events hpeek hdecode happlied hadvance =>
    obtain ⟨-, rfl⟩ := MessageLog.advance_eq_ok hadvance
    have hne : s.1.config.applierPoller ≠ poller := by
      rintro rfl
      rw [hend rfl] at hpeek
      cases hpeek
    refine ⟨h.started, ?_, h.seeded⟩
    show (s.1.events.setPosition poller _).position s.1.config.applierPoller = _
    rw [MessageLog.position_setPosition_of_ne _ _ hne]
    exact h.caughtUp.trans (by simp [MessageLog.length])

theorem moves (h : Sequenced s) {ls : List Label} (hm : Moves now s ls s')
    (hbound : s'.1.events.length ≤ unbounded) : Sequenced s' := by
  induction hm with
  | refl => exact h
  | step hm hms ih =>
    -- the log only grows, so the bound holds after the first move too
    obtain ⟨hs₁, -⟩ := hm.keeps h.started
    exact ih (h.move hm (Nat.le_trans (hms.keeps hs₁).2 hbound)) hbound

end Sequenced

/-- Every point of a life is sequenced, while the event log holds no more events than a
machine word counts. -/
theorem Life.sequenced (hlife : Life s) (hbound : s.1.events.length ≤ unbounded) :
    Sequenced s := by
  induction hlife with
  | start w now hb hread hstart => exact Sequenced.start hb hread hstart
  | moves now hlife hmoves ih =>
    exact (ih (Nat.le_trans (hmoves.keeps hlife.started).2 hbound)).moves hmoves hbound

section Sending

variable {x : SourceId} {payloadType : PayloadType} {payload : Bytes}

/-- Source sequencing over one life of an engine started over any logs and base state. While
the event log holds no more events than a machine word counts and one above the seed of `x`
(the larger of its watermark and its highest logged sequence) fits a word, a send for `x`
leaves the engine in the same life, and either goes through with one above the seed, so above
every logged sequence of `x` and above its watermark, appends exactly the command's record to
the log, writes the command at the back of the tracker, and leaves the next sequence of `x` one
above it; or it fails, on a payload too large for a record or because appending the record
with that sequence failed, with an error the engine goes on past, and leaves the log, the
tracker, the maxima seen and every source's next sequence as they were. -/
theorem send_takes_next_sequence (hlife : Life s) (hbound : s.1.events.length ≤ unbounded)
    (hfits : (max (s.1.base.lastCommand x)
      (Command.highest s.1.outbox.commands.readCommands x)).toNat + 1 < UInt64.size)
    {r : Except EngineError UInt64} {s' : Engine W × W}
    (hsend : exec (send x payloadType payload) now s = (r, s')) :
    Life s' ∧
    (∀ q, r = .ok q →
      q.toNat = (max (s.1.base.lastCommand x)
        (Command.highest s.1.outbox.commands.readCommands x)).toNat + 1 ∧
      (∀ c ∈ s.1.outbox.commands.readCommands, c.source = x → c.sequence < q) ∧
      s.1.base.lastCommand x < q ∧
      s'.1.outbox.commands = { s.1.outbox.commands with
        messages := s.1.outbox.commands.messages.push
          (Command.encode ⟨x, q, now, payloadType, payload⟩) } ∧
      s'.1.outbox.inFlight.entries = s.1.outbox.inFlight.entries ++ [⟨x, q, now⟩] ∧
      ∀ now', (exec (nextSequence x) now' s').1 = .ok (q + 1)) ∧
    (∀ e, r = .error e →
      (4294967296 ≤ payload.length ∧ e = .payloadTooLarge payload.length ∨
        ∃ err, s.1.outbox.commands.append (Command.encode
          ⟨x, max (s.1.base.lastCommand x) (Command.highest s.1.outbox.commands.readCommands x) + 1,
            now, payloadType, payload⟩) = .error err ∧ e = .send x err) ∧
      e.isFatal = false ∧ s'.1.outbox.commands = s.1.outbox.commands ∧
      s'.1.outbox.inFlight.entries = s.1.outbox.inFlight.entries ∧
      s'.1.outbox.transient = s.1.outbox.transient ∧
      ∀ y now', (exec (nextSequence y) now' s').1 = (exec (nextSequence y) now' s).1) := by
  have hseq := hlife.sequenced hbound
  have hs := hseq.started
  rw [exec_send_of_started hs] at hsend
  obtain ⟨rfl, rfl⟩ := Prod.mk.inj hsend
  set seed := s.1.outbox.seed s.1.base.lastCommand x with hseed
  have hseeded : s.1.outbox.Seeded (SendContext.base ⟨s.1.base, now⟩).lastCommand := hseq.seeded
  have hnext := (hseeded.nextSequence x).1 hfits
  -- the send is one move of the sender, so the engine stays in its life and started
  have hlife' := Life.moves now hlife
    (.single (.hostSent s x payloadType payload))
  have hs' : Started ({ s.1 with
      outbox := (s.1.outbox.send ⟨s.1.base, now⟩ x payloadType payload).2 }, s.2) := hs
  refine ⟨hlife', fun q hq => ?_, fun e he => ?_⟩
  · have hok : s.1.outbox.send ⟨s.1.base, now⟩ x payloadType payload =
        (.ok q, (s.1.outbox.send ⟨s.1.base, now⟩ x payloadType payload).2) := by
      rw [← hq]
    obtain ⟨hq', hcommands, hinFlight, -, -⟩ := Outbox.send_eq_ok hok
    rw [hnext] at hq'
    have habove : seed < q := hq' ▸ lt_add_one_of_fits hfits
    have hhigh : Command.highest s.1.outbox.commands.readCommands x ≤ seed := by
      simp only [hseed, Outbox.seed, UInt64.le_iff_toNat_le, UInt64.toNat_max]
      omega
    have hw : s.1.base.lastCommand x ≤ seed := by
      simp only [hseed, Outbox.seed, UInt64.le_iff_toNat_le, UInt64.toNat_max]
      omega
    refine ⟨by rw [hq']; exact toNat_add_one_of_fits hfits, fun c hc hsource => ?_,
      UInt64.lt_of_le_of_lt hw habove, hcommands, by rw [hinFlight]; rfl, fun now' => ?_⟩
    · exact UInt64.lt_of_le_of_lt
        (UInt64.le_trans (hsource ▸ Command.le_highest_of_mem hc) hhigh) habove
    · rw [exec_nextSequence_of_started hs']
      exact congrArg Except.ok (Outbox.nextSequence_send_ok hok _)
  · have herr : s.1.outbox.send ⟨s.1.base, now⟩ x payloadType payload =
        (.error e, (s.1.outbox.send ⟨s.1.base, now⟩ x payloadType payload).2) := by
      rw [← he]
    obtain ⟨hcause, hcommands, hentries, htransient, -⟩ := Outbox.send_eq_error herr
    refine ⟨?_, Outbox.send_error_not_fatal herr, hcommands, hentries, htransient,
      fun y now' => ?_⟩
    · rcases hcause with hlarge | ⟨-, err, happend, rfl⟩
      · exact .inl hlarge
      · rw [hnext] at happend
        exact .inr ⟨err, happend, rfl⟩
    · rw [exec_nextSequence_of_started hs', exec_nextSequence_of_started hs]
      exact congrArg Except.ok (Outbox.nextSequence_send_error herr y now')

/-- A log a producer filled before the start: a command of source 1 at sequence 3 and one of
source 2 at sequence 7, both with empty payloads. -/
def restoredCommands : MessageLog :=
  { messages := #[Command.encode ⟨1, 3, 0, 1, []⟩, Command.encode ⟨2, 7, 0, 1, []⟩] }

/-- An engine over that log, restored from a base state whose watermark for source 1 is 5. -/
def restoredBlueprint : Blueprint Unit :=
  { commands := restoredCommands, events := {}, baseState := some { sources := [(1, 5)] } }

/-- Where starting that engine at time 0 leaves it. -/
def restoredStart : Option (Engine Unit × Unit) :=
  restoredBlueprint.build.toOption.bind fun e =>
    match exec Engine.start 0 (e, ()) with
    | (.ok _, s) => some s
    | (.error _, _) => none

/-- The law at an engine restored over a log whose highest sequence of source 1, 3, lies below
the watermark 5 of source 1: a send for source 1 takes 6. -/
theorem send_takes_next_sequence_of_restored :
    ∃ s : Engine Unit × Unit, Life s ∧ s.1.base.lastCommand 1 = 5 ∧
      Command.highest s.1.outbox.commands.readCommands 1 = 3 ∧
      s.1.outbox.commands.readCommands.length = 2 ∧ (exec (send 1 1 []) 0 s).1 = .ok 6 ∧
      s.1.events.length ≤ unbounded ∧
      (max (s.1.base.lastCommand 1)
        (Command.highest s.1.outbox.commands.readCommands 1)).toNat + 1 < UInt64.size ∧
      ∀ {r : Except EngineError UInt64} {s' : Engine Unit × Unit},
        exec (send 1 1 []) 0 s = (r, s') →
        Life s' ∧
        (∀ q, r = .ok q →
          q.toNat = (max (s.1.base.lastCommand 1)
            (Command.highest s.1.outbox.commands.readCommands 1)).toNat + 1 ∧
          (∀ c ∈ s.1.outbox.commands.readCommands, c.source = 1 → c.sequence < q) ∧
          s.1.base.lastCommand 1 < q ∧
          s'.1.outbox.commands = { s.1.outbox.commands with
            messages := s.1.outbox.commands.messages.push (Command.encode ⟨1, q, 0, 1, []⟩) } ∧
          s'.1.outbox.inFlight.entries = s.1.outbox.inFlight.entries ++ [⟨1, q, 0⟩] ∧
          ∀ now', (exec (nextSequence 1) now' s').1 = .ok (q + 1)) ∧
        (∀ e, r = .error e →
          (4294967296 ≤ ([] : Bytes).length ∧ e = .payloadTooLarge ([] : Bytes).length ∨
            ∃ err, s.1.outbox.commands.append (Command.encode
              ⟨1, max (s.1.base.lastCommand 1)
                (Command.highest s.1.outbox.commands.readCommands 1) + 1, 0, 1, []⟩) =
                  .error err ∧ e = .send 1 err) ∧
          e.isFatal = false ∧ s'.1.outbox.commands = s.1.outbox.commands ∧
          s'.1.outbox.inFlight.entries = s.1.outbox.inFlight.entries ∧
          s'.1.outbox.transient = s.1.outbox.transient ∧
          ∀ y now', (exec (nextSequence y) now' s').1 = (exec (nextSequence y) now' s).1) := by
  have hcheck : restoredStart.any (fun s => s.1.base.lastCommand 1 == 5 &&
      Command.highest s.1.outbox.commands.readCommands 1 == 3 &&
      s.1.outbox.commands.readCommands.length == 2 && s.1.events.length == 0 &&
      (exec (send 1 1 []) 0 s).1.toOption == some 6) = true := by
    decide +kernel
  obtain ⟨s, hend, hfacts⟩ := (Option.any_eq_true _ _).1 hcheck
  obtain ⟨e, hb⟩ : ∃ e, restoredBlueprint.build = .ok e := ⟨_, rfl⟩
  rw [restoredStart, hb] at hend
  obtain ⟨st, hstart⟩ : ∃ st, exec Engine.start 0 (e, ()) = (.ok st, s) := by
    change (match exec Engine.start 0 (e, ()) with
      | (.ok _, s) => some s
      | (.error _, _) => none) = some s at hend
    generalize exec Engine.start 0 (e, ()) = p at hend ⊢
    obtain ⟨r, s₁⟩ := p
    cases r with
    | ok st => exact ⟨st, by cases Option.some.inj hend; rfl⟩
    | error => cases hend
  have hread : restoredBlueprint.commands.Readable := by
    intro b hb
    simp only [restoredBlueprint, restoredCommands, List.mem_cons, List.not_mem_nil,
      or_false] at hb
    rcases hb with rfl | rfl <;> exact ⟨_, Command.decode_encode _⟩
  have hlife := Life.start () 0 hb hread hstart
  simp only [Bool.and_eq_true, beq_iff_eq] at hfacts
  obtain ⟨⟨⟨⟨hlast, hhigh⟩, hlen⟩, hevents⟩, hsent⟩ := hfacts
  have hok : (exec (send 1 1 []) 0 s).1 = .ok 6 := by
    revert hsent
    cases (exec (send 1 1 []) 0 s).1 <;> simp [Except.toOption]
  have hbound : s.1.events.length ≤ unbounded := by rw [hevents]; exact Nat.zero_le _
  have hfits : (max (s.1.base.lastCommand 1)
      (Command.highest s.1.outbox.commands.readCommands 1)).toNat + 1 < UInt64.size := by
    rw [hlast, hhigh]
    decide
  exact ⟨s, hlife, hlast, hhigh, hlen, hok, hbound, hfits,
    fun hsend => send_takes_next_sequence hlife hbound hfits hsend⟩

end Sending

end Engine

end EventSourcing
