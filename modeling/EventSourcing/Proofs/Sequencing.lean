import EventSourcing.Proofs.CommandLog
import EventSourcing.Outbox

/-!
# Sequencing commands

An outbox tracks its command log (`Outbox.Tracks`) when the maxima it has seen and its started
sequencers stand at each source's highest logged sequence, and its tracker holds, in log order,
the logged commands the dispatcher has still to process. Under it:

* a source's next sequence is one above the highest sequence of it in the log, which is at or
  above its watermark (`Tracks.nextSequence`);
* a send that goes through appends the command's record to the log and writes the command at
  the back of the tracker (`send_eq_ok`), with that sequence (`Tracks.send_ok`);
* a send that fails, on a payload too large for a record or on the append, leaves the log, the
  tracker and the maxima seen as they were (`send_eq_error`); the sequence is not used up
  (`nextSequence_send_error`), while after a send that goes through the source counts on from
  it (`nextSequence_send_ok`).

Every sender keeps the outbox tracking its log (`Tracks.sends`) as long as no sequence it logs
is the largest word: one above the largest word wraps around to 0.
-/

namespace EventSourcing

/-- One above a sequence whose successor fits a word, as a number. -/
theorem toNat_add_one_of_fits {q : UInt64} (h : q.toNat + 1 < UInt64.size) :
    (q + 1).toNat = q.toNat + 1 := by
  rw [UInt64.toNat_add, UInt64.toNat_one]
  exact Nat.mod_eq_of_lt h

theorem lt_add_one_of_fits {q : UInt64} (h : q.toNat + 1 < UInt64.size) : q < q + 1 := by
  rw [UInt64.lt_iff_toNat_lt, toNat_add_one_of_fits h]
  exact Nat.lt_succ_self _

namespace Command

/-- A command above the highest sequence of its source becomes its source's highest, and leaves
every other source's as it was. -/
theorem highest_append_of_lt {cs : List Command} {c : Command}
    (h : highest cs c.source < c.sequence) (x : SourceId) :
    highest (cs ++ [c]) x = if x = c.source then c.sequence else highest cs x := by
  rw [highest_append_singleton]
  by_cases hx : x = c.source
  · subst hx
    simp [h]
  · simp [Ne.symm hx, hx]

/-- When one above every sequence fits a word, so does one above every highest sequence. -/
theorem highest_fits {cs : List Command} (h : ∀ c ∈ cs, c.sequence.toNat + 1 < UInt64.size)
    (x : SourceId) : (highest cs x).toNat + 1 < UInt64.size := by
  have hlt : (highest cs x).toNat < UInt64.size - 1 :=
    highest_toNat_lt (by decide) (fun c hc => by have := h c hc; omega) x
  omega

end Command

namespace Sequencers

/-- Asking for a next sequence uses none up: asking again, for any source, gives what asking
the first time would have. -/
theorem fst_next_next (s : Sequencers) (x y : SourceId) (b : BaseState) (t : Transient) :
    ((s.next x b t).2.next y b t).1 = (s.next y b t).1 := by
  unfold Sequencers.next
  cases hx : s.last? x with
  | some l => rfl
  | none =>
    -- the sequencer of `x` now stands where it would have started
    by_cases hyx : y = x
    · subst hyx
      simp only [Sequencers.last?, Keyed.find?_insert_self]
      rw [show Keyed.find? s.lastSent y = none from hx]
    · simp only [Sequencers.last?, Keyed.find?_insert_of_ne _ _ _ _ hyx]
      cases Keyed.find? s.lastSent y <;> rfl

end Sequencers

namespace Outbox

/-- The outbox agrees with its command log, for the watermarks `w` and the dispatcher at `p`:
every record reads, the watermarks are at or below the highest logged sequences, the dispatcher
is within the log, the maxima seen and the started sequencers stand at the highest logged
sequences, and the tracker holds the commands from `p` on that the dispatcher will process. -/
structure Tracks (o : Outbox) (w : SourceId → UInt64) (p : Nat) : Prop where
  readable : o.commands.Readable
  below : ∀ x, w x ≤ Command.highest o.commands.readCommands x
  passed : p ≤ o.commands.readCommands.length
  seen : ∀ x, o.transient.maxSource x = Command.highest o.commands.readCommands x
  sequencers : ∀ x l, o.sequencers.last? x = some l →
    l = Command.highest o.commands.readCommands x
  inFlight : o.inFlight.entries = InFlight.pending w o.commands.readCommands p

variable {o o' : Outbox} {ctx : SendContext} {p : Nat} {x : SourceId} {payloadType : PayloadType}
  {payload : Bytes}

@[simp]
theorem commands_nextSequence (o : Outbox) (ctx : SendContext) (x : SourceId) :
    (o.nextSequence ctx x).2.commands = o.commands := rfl

@[simp]
theorem inFlight_nextSequence (o : Outbox) (ctx : SendContext) (x : SourceId) :
    (o.nextSequence ctx x).2.inFlight = o.inFlight := rfl

@[simp]
theorem transient_nextSequence (o : Outbox) (ctx : SendContext) (x : SourceId) :
    (o.nextSequence ctx x).2.transient = o.transient := rfl

theorem fst_nextSequence (o : Outbox) (ctx : SendContext) (x : SourceId) :
    (o.nextSequence ctx x).1 = (o.sequencers.next x ctx.base o.transient).1 := rfl

/-- Asking for a source's next sequence gives one above its highest logged sequence, and keeps
the outbox tracking its log: a fresh sequencer starts from the larger of the watermark and the
maximum seen, which is the highest logged sequence. -/
theorem Tracks.nextSequence (h : o.Tracks ctx.base.lastCommand p) (x : SourceId) :
    (o.nextSequence ctx x).1 = Command.highest o.commands.readCommands x + 1 ∧
      (o.nextSequence ctx x).2.Tracks ctx.base.lastCommand p := by
  unfold Outbox.nextSequence Sequencers.next
  cases hl : o.sequencers.last? x with
  | some l => exact ⟨by rw [h.sequencers x l hl], h⟩
  | none =>
    have hstart : max (ctx.base.lastCommand x) (o.transient.maxSource x) =
        Command.highest o.commands.readCommands x := by
      rw [h.seen x]
      exact if_pos (h.below x)
    refine ⟨by rw [hstart], h.readable, h.below, h.passed, h.seen, ?_, h.inFlight⟩
    intro y l hy
    by_cases hyx : y = x
    · subst hyx
      simp only [Sequencers.last?, Keyed.find?_insert_self, Option.some.injEq] at hy
      rw [← hy, hstart]
    · exact h.sequencers y l (by
        simpa only [Sequencers.last?, Keyed.find?_insert_of_ne _ _ _ _ hyx] using hy)

/-- A send that goes through gives the source's next sequence, appends the command's record to
the log, writes the command at the back of the tracker, moves the source's sequencer to it and
notes it as seen. -/
theorem send_eq_ok {q : UInt64} (h : o.send ctx x payloadType payload = (.ok q, o')) :
    q = (o.nextSequence ctx x).1 ∧
      o'.commands = { o.commands with
        messages := o.commands.messages.push (Command.encode ⟨x, q, ctx.now, payloadType, payload⟩) } ∧
      o'.inFlight = o.inFlight.send x q ctx.now ∧
      o'.sequencers = (o.nextSequence ctx x).2.sequencers.commit x q ∧
      o'.transient = o.transient.noteCommand x q := by
  unfold send at h
  generalize hn : o.nextSequence ctx x = r at h
  obtain ⟨n, o₁⟩ := r
  dsimp only at h
  rw [if_neg (by intro hlarge; rw [if_pos hlarge] at h; cases h)] at h
  split at h
  · cases h
  · rename_i i commands happend
    obtain ⟨-, rfl⟩ := MessageLog.append_eq_ok happend
    simp only [Prod.mk.injEq, Except.ok.injEq] at h
    obtain ⟨rfl, rfl⟩ := h
    have ho₁ : o₁ = (o.nextSequence ctx x).2 := by rw [hn]
    subst ho₁
    exact ⟨by rw [hn], rfl, rfl, rfl, rfl⟩

/-- A send fails when the payload does not fit the size field of a record, before anything is
recorded, or when appending the command's record fails, with a send error. Either way it leaves
the log, the commands in flight and the maxima seen as they were; only a sequencer started by
the send stays started. -/
theorem send_eq_error {e : EngineError} (h : o.send ctx x payloadType payload = (.error e, o')) :
    (4294967296 ≤ payload.length ∧ e = .payloadTooLarge payload.length ∨
      payload.length < 4294967296 ∧ ∃ err, o.commands.append
        (Command.encode ⟨x, (o.nextSequence ctx x).1, ctx.now, payloadType, payload⟩) =
          .error err ∧ e = .send x err) ∧
      o'.commands = o.commands ∧ o'.inFlight.entries = o.inFlight.entries ∧
      o'.transient = o.transient ∧ o'.sequencers = (o.nextSequence ctx x).2.sequencers := by
  unfold send at h
  generalize hn : o.nextSequence ctx x = r at h
  obtain ⟨n, o₁⟩ := r
  have ho₁ : o₁ = (o.nextSequence ctx x).2 := by rw [hn]
  subst ho₁
  dsimp only at h
  split at h
  · rename_i hlarge
    simp only [Prod.mk.injEq, Except.error.injEq] at h
    obtain ⟨rfl, rfl⟩ := h
    exact ⟨.inl ⟨hlarge, rfl⟩, rfl, rfl, rfl, rfl⟩
  rename_i hsmall
  split at h
  · rename_i err happend
    simp only [Prod.mk.injEq, Except.error.injEq] at h
    obtain ⟨rfl, rfl⟩ := h
    exact ⟨.inr ⟨Nat.lt_of_not_le hsmall, err, by rw [hn]; exact happend, rfl⟩, rfl,
      InFlight.entries_undo_send .., rfl, rfl⟩
  · cases h

/-- After a send that goes through, the source's next sequence is one above the one sent. -/
theorem nextSequence_send_ok {q : UInt64} (h : o.send ctx x payloadType payload = (.ok q, o'))
    (ctx' : SendContext) : (o'.nextSequence ctx' x).1 = q + 1 := by
  obtain ⟨-, -, -, hsequencers, -⟩ := send_eq_ok h
  rw [fst_nextSequence, hsequencers]
  unfold Sequencers.next
  rw [Sequencers.last?_commit, if_pos rfl]

/-- A failed send uses up no sequence: every source's next sequence, at the same base state, is
what it was before. -/
theorem nextSequence_send_error {e : EngineError}
    (h : o.send ctx x payloadType payload = (.error e, o')) (y : SourceId) (now : Timestamp) :
    (o'.nextSequence ⟨ctx.base, now⟩ y).1 = (o.nextSequence ⟨ctx.base, now⟩ y).1 := by
  obtain ⟨-, -, -, htransient, hsequencers⟩ := send_eq_error h
  rw [fst_nextSequence, fst_nextSequence, hsequencers, htransient]
  exact Sequencers.fst_next_next _ x y _ _

/-- A send that goes through, from an outbox that tracks its log and whose source's highest
logged sequence is not the largest word, gives one above that sequence and keeps the outbox
tracking its log. -/
theorem Tracks.send_ok (h : o.Tracks ctx.base.lastCommand p) {q : UInt64}
    (hsend : o.send ctx x payloadType payload = (.ok q, o'))
    (hfree : (Command.highest o.commands.readCommands x).toNat + 1 < UInt64.size) :
    q = Command.highest o.commands.readCommands x + 1 ∧ o'.Tracks ctx.base.lastCommand p := by
  obtain ⟨hq, hcommands, hinFlight, hsequencers, htransient⟩ := send_eq_ok hsend
  obtain ⟨hnext, h₁⟩ := h.nextSequence x
  rw [hnext] at hq
  -- the record reads back as the command, its payload cut to what a record holds
  obtain ⟨c', hread, hentry⟩ : ∃ c' : Command,
      o'.commands.readCommands = o.commands.readCommands ++ [c'] ∧
        c'.entry = ⟨x, q, ctx.now⟩ :=
    ⟨_, by rw [hcommands]; exact MessageLog.readCommands_push _ (Command.decode_encode _), rfl⟩
  have hsource : c'.source = x := congrArg InFlightEntry.source hentry
  have hsequence : c'.sequence = q := congrArg InFlightEntry.sequence hentry
  have habove : Command.highest o.commands.readCommands x < q := by
    rw [hq]
    exact lt_add_one_of_fits hfree
  have hhighest : ∀ y, Command.highest o'.commands.readCommands y =
      if y = x then q else Command.highest o.commands.readCommands y := by
    intro y
    rw [hread, Command.highest_append_of_lt (by rw [hsource, hsequence]; exact habove), hsource,
      hsequence]
  refine ⟨hq, ⟨?_, ?_, ?_, ?_, ?_, ?_⟩⟩
  · intro b hb
    rw [hcommands, Array.toList_push, List.mem_append, List.mem_singleton] at hb
    rcases hb with hb | rfl
    · exact h.readable b hb
    · exact ⟨_, Command.decode_encode _⟩
  · intro y
    rw [hread]
    exact UInt64.le_trans (h.below y) (Command.highest_le_append _ _ _)
  · rw [hread, List.length_append]
    exact Nat.le_add_right_of_le h.passed
  · intro y
    rw [htransient, Transient.maxSource_noteCommand_eq, hhighest, h.seen y]
    by_cases hy : y = x
    · subst hy
      simp [habove]
    · simp [Ne.symm hy, hy]
  · intro y l hy
    rw [hsequencers, Sequencers.last?_commit] at hy
    rw [hhighest]
    by_cases hyx : y = x
    · subst hyx
      simpa using hy.symm
    · rw [if_neg hyx] at hy ⊢
      exact h₁.sequencers y l hy
  · -- the command is above its watermark and every logged sequence of its source
    have hpending : ctx.base.lastCommand c'.source < c'.sequence ∧
        Command.highest o.commands.readCommands c'.source < c'.sequence := by
      rw [hsource, hsequence]
      exact ⟨UInt64.lt_of_le_of_lt (h.below x) habove, habove⟩
    rw [hinFlight, InFlight.entries_send, hread, h.inFlight,
      InFlight.pending_append_singleton _ h.passed, if_pos hpending, hentry]

/-- A failed send keeps an outbox tracking its log. -/
theorem Tracks.send_error (h : o.Tracks ctx.base.lastCommand p) {e : EngineError}
    (hsend : o.send ctx x payloadType payload = (.error e, o')) :
    o'.Tracks ctx.base.lastCommand p := by
  obtain ⟨-, hcommands, hentries, htransient, hsequencers⟩ := send_eq_error hsend
  have h₁ := (h.nextSequence x).2
  refine ⟨?_, ?_, ?_, ?_, ?_, ?_⟩ <;> simp only [hcommands, hentries, htransient, hsequencers]
  · exact h.readable
  · exact h.below
  · exact h.passed
  · exact h.seen
  · exact h₁.sequencers
  · exact h.inFlight

/-- Senders only add commands after those of the log. -/
theorem Sends.readCommands_extends (hs : Sends ctx o o') :
    o.commands.readCommands <+: o'.commands.readCommands := by
  obtain ⟨-, cs, hcs⟩ := hs.commands
  unfold MessageLog.readCommands
  rw [hcs, List.filterMap_append]
  exact List.prefix_append _ _

/-- Senders keep an outbox tracking its log, as long as no sequence in the log they leave is
the largest word. -/
theorem Tracks.sends (hs : Sends ctx o o') (h : o.Tracks ctx.base.lastCommand p)
    (hfree : ∀ c ∈ o'.commands.readCommands, c.sequence.toNat + 1 < UInt64.size) :
    o'.Tracks ctx.base.lastCommand p := by
  induction hs with
  | refl => exact h
  | @send o o' x payloadType payload hrest ih =>
    cases hsend : o.send ctx x payloadType payload with
    | mk r o₁ =>
    rw [hsend] at hrest ih
    cases r with
    | ok q =>
      -- the commands logged so far are among those the senders leave in the log
      have hfits := Command.highest_fits (fun c hc =>
        hfree c ((Sends.of_send hsend).trans hrest |>.readCommands_extends.subset hc)) x
      exact ih (h.send_ok hsend hfits).2 hfree
    | error e => exact ih (h.send_error hsend) hfree
  | next x hrest ih => exact ih (h.nextSequence x).2 hfree

end Outbox

end EventSourcing
