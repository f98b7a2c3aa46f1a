import EventSourcing.Proofs.Invariant

/-!
# Resuming from a snapshot

A base state taken after the first `k` events of the log, and handed to an engine built over
the same logs, lets the engine start where that state left off: the applier's poller moves to
`k`, the replay takes exactly the events from `k` on, the appliers see those events as the
replay mode admits them, and the engine ends with the base state that a fresh engine reaches by
replaying the whole log (`start_from_snapshot_matches_full_replay`).

The split works at every `k`, also in the middle of a batch, because the event at index `i` of
the log has sequence `i + 1`: the snapshot's last event is `k`.
-/

namespace EventSourcing

namespace Engine

variable {W : Type} {D : String} {ls : List Label} {s : Engine W × W}

namespace Consistent

theorem length_batches (h : Consistent D ls s) :
    s.1.events.length = (Label.batches ls).length := by
  have := congrArg List.length h.events
  simpa [MessageLog.length] using this

/-- The base state recorded from the first `k` events of a consistent log is at event `k`. -/
theorem lastEvent_recordAll_take (h : Consistent D ls s) (hbound : s.1.events.length ≤ unbounded)
    {k : Nat} (hk : k ≤ s.1.events.length) :
    (BaseState.recordAll {} ((Label.batches ls).take k)).lastEvent.toNat = k := by
  rw [BaseState.lastEvent_recordAll, List.getLast?_take]
  split
  · rename_i hzero
    subst hzero
    rfl
  · -- the last event taken is the one at index `k - 1`, numbered `k`
    have hlt : k - 1 < (Label.batches ls).length := by
      rw [← h.length_batches]
      omega
    have hseq := h.sequence_toNat hbound (List.getElem?_eq_getElem hlt)
    rw [List.getElem?_eq_getElem hlt, Option.some_or]
    simp only [Option.map_some, Option.getD_some, hseq]
    omega

end Consistent

/-- An engine built over the logs of a run, from the base state of the first `k` events,
starts: it replays the events of the log from `k` on. -/
theorem starts_from_prefix (hrun : Run D ls s) (hbound : s.1.events.length ≤ unbounded)
    {k : Nat} (hk : k ≤ s.1.events.length) {b : Blueprint W} {e : Engine W}
    (hb : b.build = .ok e) (hcommands : b.commands = s.1.outbox.commands)
    (hevents : b.events = s.1.events)
    (hbase : b.chosenBase = BaseState.recordAll {} ((Label.batches ls).take k)) (w : W)
    (now : Timestamp) :
    e.base.lastEvent.toNat = k ∧ ∃ st s', exec start now (e, w) = (.ok st, s') ∧
      Starts (e, w) ((Label.batches ls).drop k) st s' := by
  have h := hrun.consistent hbound
  obtain ⟨-, hevents', hcommands', hempty, -, -, hbase', -, hstatus⟩ := Blueprint.build_eq_ok hb
  have hlast : (e, w).1.base.lastEvent.toNat = k := by
    simp only [Engine.base, hbase', hbase]
    exact h.lastEvent_recordAll_take hbound hk
  -- the records from the snapshot's last event on read as the batches from `k` on
  have hrec : ((e, w).1.events.messages.toList.drop (e, w).1.base.lastEvent.toNat).map
      Event.decode = ((Label.batches ls).drop k).map .ok := by
    rw [hlast, hevents', hevents, h.events, ← List.map_drop]
    exact decode_map_encode fun x hx => h.fits x (List.mem_of_mem_drop hx)
  have hnum : ∀ i (hi : i < ((Label.batches ls).drop k).length),
      ((Label.batches ls).drop k)[i].sequence.toNat = (e, w).1.base.lastEvent.toNat + i + 1 := by
    intro i hi
    rw [List.getElem_drop, hlast,
      h.sequence_toNat hbound (List.getElem?_eq_getElem (by simp at hi; omega))]
  obtain ⟨st, s', hstart⟩ := start_ok (by simp [hstatus]) hempty
    (by rw [hcommands', hcommands]; exact h.readable) (by rw [hlast, hevents', hevents]; exact hk)
    hrec hnum
  obtain ⟨evs, hst⟩ := starts_of_exec hstart
  obtain rfl : evs = (Label.batches ls).drop k :=
    (List.map_inj_right fun _ _ hxy => Except.ok.inj hxy).1 (hst.records.symm.trans hrec)
  exact ⟨hlast, st, s', hstart, hst⟩

/-- Resuming from a snapshot equals replaying the whole log. Over the logs of a run, an engine
whose base state is that of the first `k` events moves its applier to `k`, replays exactly the
records from `k` on, hands its appliers those events as the replay mode admits them, and ends
with the base state of an engine started fresh over the same logs. -/
theorem start_from_snapshot_matches_full_replay (hrun : Run D ls s)
    (hbound : s.1.events.length ≤ unbounded) {k : Nat} (hk : k ≤ s.1.events.length)
    {b : Blueprint W} {e : Engine W} (hb : b.build = .ok e)
    (hcommands : b.commands = s.1.outbox.commands) (hevents : b.events = s.1.events)
    (hbase : b.chosenBase = BaseState.recordAll {} ((Label.batches ls).take k))
    {b₀ : Blueprint W} {e₀ : Engine W} (hb₀ : b₀.build = .ok e₀)
    (hcommands₀ : b₀.commands = s.1.outbox.commands) (hevents₀ : b₀.events = s.1.events)
    (hbase₀ : b₀.chosenBase = {}) (w w₀ : W) (now : Timestamp) :
    ∃ st s' st₀ s₀, exec start now (e, w) = (.ok st, s') ∧
      exec start now (e₀, w₀) = (.ok st₀, s₀) ∧ e.base.lastEvent.toNat = k ∧
      (s.1.events.messages.toList.drop k).map Event.decode =
        ((Label.batches ls).drop k).map .ok ∧
      st.replayedEvents = s.1.events.length - k ∧
      s'.2 = e.application.deliverAll ((Label.batches ls).drop k) w ∧
      s'.1.base = s₀.1.base := by
  have h := hrun.consistent hbound
  obtain ⟨hlast, st, s', hstart, hst⟩ :=
    starts_from_prefix hrun hbound hk hb hcommands hevents hbase w now
  -- the fresh engine is the same start from the snapshot of no event
  obtain ⟨-, st₀, s₀, hstart₀, hst₀⟩ := starts_from_prefix hrun hbound (Nat.zero_le _) hb₀
    hcommands₀ hevents₀ (by rw [hbase₀]; rfl) w₀ now
  have hrecords : (s.1.events.messages.toList.drop k).map Event.decode =
      ((Label.batches ls).drop k).map .ok := by
    rw [h.events, ← List.map_drop]
    exact decode_map_encode fun x hx => h.fits x (List.mem_of_mem_drop hx)
  have hbases : s'.1.base = s₀.1.base := by
    obtain ⟨-, -, -, -, -, -, hbase', -, -⟩ := Blueprint.build_eq_ok hb
    obtain ⟨-, -, -, -, -, -, hbase₀', -, -⟩ := Blueprint.build_eq_ok hb₀
    rw [hst.base, hst₀.base]
    simp only [Engine.base, hbase', hbase, hbase₀', hbase₀, List.drop_zero,
      ← BaseState.recordAll_append, List.take_append_drop]
  refine ⟨st, s', st₀, s₀, hstart, hstart₀, hlast, hrecords, ?_, hst.world, hbases⟩
  rw [hst.replayed, List.length_drop, h.length_batches]

/-- After the sample run, whose event log holds two events, an engine started from the snapshot
of the first event replays the second alone and matches a fresh one. -/
theorem start_from_snapshot_matches_full_replay_of_sample :
    ∃ (ls : List Label) (s : Engine Unit × Unit) (b : Blueprint Unit) (e : Engine Unit)
      (b₀ : Blueprint Unit) (e₀ : Engine Unit),
      Run "dispatcher" ls s ∧ s.1.events.length ≤ unbounded ∧ s.1.events.length = 2 ∧
      1 ≤ s.1.events.length ∧ b.build = .ok e ∧ b.commands = s.1.outbox.commands ∧
      b.events = s.1.events ∧ b.chosenBase = BaseState.recordAll {} ((Label.batches ls).take 1) ∧
      b₀.build = .ok e₀ ∧ b₀.commands = s.1.outbox.commands ∧ b₀.events = s.1.events ∧
      b₀.chosenBase = {} ∧
      ∃ st s' st₀ s₀, exec start 0 (e, ()) = (.ok st, s') ∧
        exec start 0 (e₀, ()) = (.ok st₀, s₀) ∧ e.base.lastEvent.toNat = 1 ∧
        (s.1.events.messages.toList.drop 1).map Event.decode =
          ((Label.batches ls).drop 1).map .ok ∧
        st.replayedEvents = s.1.events.length - 1 ∧
        s'.2 = e.application.deliverAll ((Label.batches ls).drop 1) () ∧
        s'.1.base = s₀.1.base := by
  obtain ⟨ls, s, hrun, -, hlen, -⟩ := Run.sample
  have hbound : s.1.events.length ≤ unbounded := by rw [hlen]; decide
  have hk : 1 ≤ s.1.events.length := by rw [hlen]; decide
  obtain ⟨e, hb⟩ : ∃ e,
      ({ commands := s.1.outbox.commands, events := s.1.events,
         baseState := some (BaseState.recordAll {} ((Label.batches ls).take 1)) } :
        Blueprint Unit).build = .ok e :=
    ⟨_, rfl⟩
  obtain ⟨e₀, hb₀⟩ : ∃ e,
      ({ commands := s.1.outbox.commands, events := s.1.events } : Blueprint Unit).build = .ok e :=
    ⟨_, rfl⟩
  exact ⟨ls, s, _, e, _, e₀, hrun, hbound, hlen, hk, hb, rfl, rfl, rfl, hb₀, rfl, rfl, rfl,
    start_from_snapshot_matches_full_replay hrun hbound hk hb rfl rfl rfl hb₀ rfl rfl rfl () () 0⟩

end Engine

end EventSourcing
