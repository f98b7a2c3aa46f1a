import EventSourcing.Proofs.Invariant

/-!
# Processing does not depend on scheduling

Whatever the host interleaves (sends, cycles, dispatch, apply and publish calls with any
limits, restarts), every dispatch of a run takes the command after those the earlier
dispatches took, and runs the processor chain on a base state that is the fold of the batches
the earlier dispatches appended. Since the engine's latest start its appliers have been handed
exactly those batches, in order and as the replay mode admits them, so an application state
that appliers keep as a fold of the events they are handed is the fold of those batches too
(`Run.sawBatches`).

This holds because a round of the dispatcher applies the whole batch it appended before the
next command is taken, and because a start replays the whole log into a fresh base state.
-/

namespace EventSourcing

namespace Engine

variable {W : Type} {D : String} {ls : List Label} {s : Engine W × W}

/-- What the dispatch `d`, made after the labels `ls`, saw: it took the command after those the
dispatches of `ls` took, from a state whose base state is the fold of their batches and whose
appliers have been handed those batches since the latest start. -/
def SawBatches (W : Type) (ls : List Label) (d : Dispatch) : Prop :=
  (Label.dispatches ls).map Dispatch.index = List.range d.index ∧
  ∃ (t : Engine W × W) (c : Command) (now : Timestamp), d = dispatchOf t d.index c now ∧
    t.1.base = BaseState.recordAll {} (Label.batches ls) ∧
    Label.appliedEvents (Label.latestLife ls) =
      (Label.batches ls).map fun e => (e, t.1.application.mode.admits e.kind)

/-- A label that sits in `ls ++ ls'` sits in `ls` or in `ls'`. -/
theorem append_eq_append_cons {α : Type} {ls ls' ls₁ ls₂ : List α} {x : α}
    (h : ls ++ ls' = ls₁ ++ x :: ls₂) :
    (∃ rest, ls = ls₁ ++ x :: rest) ∨ ∃ mid, ls₁ = ls ++ mid ∧ ls' = mid ++ x :: ls₂ := by
  rcases List.append_eq_append_iff.1 h with ⟨mid, hls₁, hls'⟩ | ⟨mid, hls, hcons⟩
  · exact .inr ⟨mid, hls₁, hls'⟩
  · cases mid with
    | nil =>
      simp only [List.append_nil, List.nil_append] at hls hcons
      exact .inr ⟨[], by rw [hls, List.append_nil], hcons.symm⟩
    | cons y rest =>
      obtain ⟨rfl, -⟩ := List.cons.inj hcons
      exact .inl ⟨rest, hls⟩

/-- A consistent started engine that takes a command saw the batches of its labels. -/
theorem Consistent.sawBatches (h : Consistent D ls s) (hs : Started s) {m : Stored}
    {c : Command} (now : Timestamp)
    (hpeek : s.1.outbox.commands.peek? s.1.config.dispatcherPoller = some m) :
    SawBatches W ls (dispatchOf s m.index c now) := by
  have hindex : m.index = s.1.dispatcherAt := (MessageLog.peek?_eq_some.1 hpeek).1
  refine ⟨?_, s, c, now, rfl, h.base hs, h.life hs⟩
  rw [h.indexes, hindex]
  rfl

/-- The dispatches a move of a consistent started engine shows saw the batches of the labels
before it. -/
theorem Move.sawBatches {now : Timestamp} {s' : Engine W × W} {ls' : List Label}
    (h : Consistent D ls s) (hs : Started s) (hm : Move now s ls' s') {ls₁ ls₂ : List Label}
    {d : Dispatch} (hsplit : ls' = ls₁ ++ .dispatched d :: ls₂) :
    SawBatches W (ls ++ ls₁) d := by
  cases hm with
  | @dispatched _ m c n hpeek hdecode hround =>
    -- the dispatch is the move's first label: the applier's labels show no dispatch
    cases ls₁ with
    | nil =>
      obtain ⟨hd, -⟩ := List.cons.inj hsplit
      rw [← Label.dispatched.inj hd, List.append_nil]
      exact h.sawBatches hs now hpeek
    | cons l rest =>
      obtain ⟨-, hrest⟩ := List.cons.inj hsplit
      have hmem : Label.dispatched d ∈ appliedBetween s s' := by
        rw [hrest]
        simp
      simp [appliedBetween] at hmem
  | applied =>
    cases ls₁ with
    | nil => cases List.cons.inj hsplit |>.1
    | cons l rest => simp at hsplit
  | counted | changed | sent | attempted | published => simp at hsplit
  | hostSent =>
    cases ls₁ with
    | nil => cases List.cons.inj hsplit |>.1
    | cons l rest => simp at hsplit

/-- The dispatches moves of a consistent started engine show saw the batches of the labels
before them. -/
theorem Moves.sawBatches {now : Timestamp} {s' : Engine W × W} {ls' : List Label}
    (h : Consistent D ls s) (hs : Started s) (hm : Moves now s ls' s')
    (hbound : s'.1.events.length ≤ unbounded) {ls₁ ls₂ : List Label} {d : Dispatch}
    (hsplit : ls' = ls₁ ++ .dispatched d :: ls₂) : SawBatches W (ls ++ ls₁) d := by
  induction hm generalizing ls ls₁ with
  | refl => simp at hsplit
  | step hm hms ih =>
    obtain ⟨hs₁, -⟩ := hm.keeps hs
    have hbound₁ := Nat.le_trans (hms.keeps hs₁).2 hbound
    rcases append_eq_append_cons hsplit with ⟨rest, hfirst⟩ | ⟨mid, hls₁, hlater⟩
    · exact Move.sawBatches h hs hm hfirst
    · -- the dispatch is one of the later moves', after the first move's labels
      rw [hls₁, ← List.append_assoc]
      exact ih (h.move hs hm hbound₁) hs₁ hbound hlater

/-- Every dispatch of a run saw the batches of the labels before it. -/
theorem Run.sawBatches (hrun : Run D ls s) (hbound : s.1.events.length ≤ unbounded)
    {ls₁ ls₂ : List Label} {d : Dispatch} (hsplit : ls = ls₁ ++ .dispatched d :: ls₂) :
    SawBatches W ls₁ d := by
  induction hrun generalizing ls₁ ls₂ with
  | build => simp at hsplit
  | rebuild w _ hb hcommands hevents hbase hD ih =>
    obtain ⟨-, hevents', -⟩ := Blueprint.build_eq_ok hb
    exact ih (by simpa only [hevents', hevents] using hbound) hsplit
  | @start _ s₀ _ _ evs₀ now _ hstart hreplay ih =>
    obtain ⟨evs, hst⟩ := starts_of_exec hstart
    have hbound' : s₀.1.events.length ≤ unbounded := by
      simpa only [MessageLog.length, hst.messages] using hbound
    rcases append_eq_append_cons hsplit with ⟨rest, hearlier⟩ | ⟨mid, -, hlater⟩
    · exact ih hbound' hearlier
    · -- a start shows no dispatch
      have hmem : Label.dispatched d ∈ startLabels s₀.1.application.mode evs₀ := by
        rw [hlater]
        simp
      simp [startLabels] at hmem
  | moves now hrun' hs hmoves ih =>
    have hbound' := Nat.le_trans (hmoves.keeps hs).2 hbound
    rcases append_eq_append_cons hsplit with ⟨rest, hearlier⟩ | ⟨mid, hls₁, hlater⟩
    · exact ih hbound' hearlier
    · rw [hls₁]
      exact Moves.sawBatches (hrun'.consistent hbound') hs hmoves hbound hlater
  | @append _ _ _ c _ _ _ hdecode happend ih =>
    rcases append_eq_append_cons hsplit with ⟨rest, hearlier⟩ | ⟨mid, -, hlater⟩
    · exact ih hbound hearlier
    · -- a command appended from outside shows no dispatch
      have hmem : Label.dispatched d ∈ [Label.appended c] := by
        rw [hlater]
        simp
      simp at hmem

end Engine

end EventSourcing
