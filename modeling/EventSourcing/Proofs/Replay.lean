import EventSourcing.Proofs.Invariant

/-!
# Replay reproduces the live engine

At the end of a run whose live engine has applied every event, an engine built over the same
logs with a fresh base state and the same replay mode starts without an error. It replays
every event of the log, ends with the live engine's base state, and its appliers receive
exactly the events the live engine's appliers took since that engine started, in the same
order and with the same ones passed over (`start_reproduces_live`).
-/

namespace EventSourcing

namespace Engine

variable {W : Type} {D : String} {ls : List Label} {s : Engine W × W}

/-- A fresh engine started over the logs of a run whose live engine has applied every event
replays all of them, reaches the live engine's base state, and hands its appliers what the
live engine's appliers took since it started. -/
theorem start_reproduces_live (hrun : Run D ls s) (hs : Started s)
    (hall : s.1.base.lastEvent.toNat = s.1.events.length) {b : Blueprint W} {e : Engine W}
    (hb : b.build = .ok e) (hcommands : b.commands = s.1.outbox.commands)
    (hevents : b.events = s.1.events) (hbase : b.chosenBase = {})
    (hmode : b.config.replayMode = s.1.application.mode) (w : W) (now : Timestamp) :
    ∃ evs st s', exec start now (e, w) = (.ok st, s') ∧
      st.replayedEvents = s.1.events.length ∧ s'.1.base = s.1.base ∧
      s'.2 = e.application.deliverAll evs w ∧
      Label.appliedEvents (startLabels e.application.mode evs) =
        Label.appliedEvents (Label.latestLife ls) := by
  have hbound : s.1.events.length ≤ unbounded := by
    have := s.1.base.lastEvent.toNat_lt
    unfold unbounded
    omega
  have h := hrun.consistent hbound
  obtain ⟨-, hevents', hcommands', hempty, -, -, hbase', hmode', hstatus⟩ :=
    Blueprint.build_eq_ok hb
  have hlast : (e, w).1.base.lastEvent = 0 := by simp [Engine.base, hbase', hbase]
  -- the fresh engine's replay reads the whole log, which is the batches
  have hrec : ((e, w).1.events.messages.toList.drop (e, w).1.base.lastEvent.toNat).map
      Event.decode = (Label.batches ls).map .ok := by
    rw [hlast, hevents', hevents, h.events]
    exact decode_map_encode h.fits
  obtain ⟨st, s', hstart⟩ := start_ok (by simp [hstatus]) hempty
    (by rw [hcommands', hcommands]; exact h.readable)
    (by simp [hlast]) hrec
    (fun i hi => by
      rw [hlast, h.sequence_toNat hbound (List.getElem?_eq_getElem hi)]
      simp)
  obtain ⟨evs, hst⟩ := starts_of_exec hstart
  obtain rfl : evs = Label.batches ls :=
    (List.map_inj_right fun _ _ hxy => Except.ok.inj hxy).1 (hst.records.symm.trans hrec)
  have hlen : s.1.events.length = (Label.batches ls).length := by
    have := congrArg List.length h.events
    simpa [MessageLog.length] using this
  refine ⟨Label.batches ls, st, s', hstart, by rw [hst.replayed, hlen], ?_, hst.world, ?_⟩
  · rw [hst.base, h.base hs]
    simp [Engine.base, hbase', hbase]
  · rw [h.life hs, startLabels, hmode', hmode]
    exact Label.appliedEvents_map_applied _ _

/-- After the sample run, whose live engine applied the two events its dispatcher appended, a
second engine built over the logs replays both and reproduces it. -/
theorem start_reproduces_live_of_sample :
    ∃ (s : Engine Unit × Unit) (ls : List Label) (b : Blueprint Unit) (e : Engine Unit),
      Run "dispatcher" ls s ∧ Started s ∧ s.1.events.length = 2 ∧
      s.1.base.lastEvent.toNat = s.1.events.length ∧
      b.build = .ok e ∧ b.commands = s.1.outbox.commands ∧ b.events = s.1.events ∧
      b.chosenBase = {} ∧ b.config.replayMode = s.1.application.mode ∧
      ∃ evs st s', exec start 0 (e, ()) = (.ok st, s') ∧
        st.replayedEvents = s.1.events.length ∧ s'.1.base = s.1.base ∧
        s'.2 = e.application.deliverAll evs () ∧
        Label.appliedEvents (startLabels e.application.mode evs) =
          Label.appliedEvents (Label.latestLife ls) := by
  obtain ⟨ls, s, hrun, hs, hlen, hlast, -⟩ := Run.sample
  have hall : s.1.base.lastEvent.toNat = s.1.events.length := hlast.trans hlen.symm
  obtain ⟨e, hb⟩ : ∃ e,
      ({ commands := s.1.outbox.commands, events := s.1.events,
         config := { replayMode := s.1.application.mode } } : Blueprint Unit).build = .ok e :=
    ⟨_, rfl⟩
  exact ⟨s, ls, _, e, hrun, hs, hlen, hall, hb, rfl, rfl, rfl, rfl,
    start_reproduces_live hrun hs hall hb rfl rfl rfl rfl () 0⟩

end Engine

end EventSourcing
