import EventSourcing.Proofs.Applier
import EventSourcing.Proofs.Sequencing

/-!
# Events are applied gapless and once each

The application takes an event only as the one after the last it applied. Offered events one
after the other, it answers each against a running counter: an event at or below the counter
was applied already, one more than one past it leaves a gap, and the one just past it is taken
(`offer_answer`). The comparisons are made in that order, so that the next sequence is never
computed for a counter at the top of its range. A refused event changes nothing.

The events taken are then those that `gapless` picks from the offered ones, numbered on from
the first counter without a gap (`sequence_gapless`). The base state is what recording them
makes of the first (`offerAll_state`): the last event is the last taken, and each source's
watermark is the command of its last terminal event taken, filtered by the mode or not
(`lastCommand_recordAll`). The appliers see the taken events that the mode admits, in order,
each through the whole chain, the extensions' appliers before the application's.
-/

namespace EventSourcing

namespace BaseState

/-- A source's watermark after recording events: the command of the last terminal event of
the source among them, or the watermark before for none. -/
theorem lastCommand_recordAll (b : BaseState) (evs : List Event) (x : SourceId) :
    (b.recordAll evs).lastCommand x =
      (((evs.filter fun e => e.kind.isTerminal && e.source == x).getLast?).map
        Event.sourceSequence).getD (b.lastCommand x) := by
  induction evs using List.reverseRecOn with
  | nil => rfl
  | append_singleton evs e ih =>
    rw [recordAll_append, List.filter_append]
    show ((b.recordAll evs).record e).lastCommand x = _
    by_cases hx : e.kind.isTerminal = true ∧ e.source = x
    · obtain ⟨hterm, rfl⟩ := hx
      rw [lastCommand_record_self _ _ hterm]
      simp [hterm]
    · -- an event that ends no transaction of `x` leaves its watermark, and is filtered out
      have hkeep : ((b.recordAll evs).record e).lastCommand x = (b.recordAll evs).lastCommand x := by
        by_cases hsrc : x = e.source
        · have hnot : e.kind.isTerminal = false := by simpa [hsrc] using hx
          simp [record, lastCommand, hnot]
        · exact lastCommand_record_of_ne _ _ hsrc
      have hout : [e].filter (fun e => e.kind.isTerminal && e.source == x) = [] := by
        simp only [List.filter_cons, List.filter_nil, Bool.and_eq_true, beq_iff_eq]
        rw [if_neg hx]
      rw [hkeep, ih, hout, List.append_nil]

end BaseState

namespace Application

variable {W : Type}

/-- An event offered to the application: the answer, and the application and its state after
it. A refused event leaves both as they were. -/
def offer (a : Application W) (w : W) (e : Event) : Except ReplayError Bool × Application W × W :=
  match a.apply e w with
  | .ok (d, a', w') => (.ok d, a', w')
  | .error err => (.error err, a, w)

/-- Events offered one after the other: the answers, in order, and the application and its
state after the last. -/
def offerAll (a : Application W) (w : W) :
    List Event → List (Except ReplayError Bool) × Application W × W
  | [] => ([], a, w)
  | e :: evs =>
    let (r, a₁, w₁) := a.offer w e
    let (rs, a₂, w₂) := a₁.offerAll w₁ evs
    (r :: rs, a₂, w₂)

/-- The events gapless application takes from those offered, with `last` the sequence of the
last event applied: each event numbered one past the last taken. -/
def gapless (last : Nat) : List Event → List Event
  | [] => []
  | e :: evs => if e.sequence.toNat = last + 1 then e :: gapless (last + 1) evs else gapless last evs

/-- The events taken, of those offered, by the answers they got. -/
def taken (evs : List Event) (answers : List (Except ReplayError Bool)) : List Event :=
  ((evs.zip answers).filter fun p => p.2.isOk).map Prod.fst

@[simp]
theorem deliverAll_nil (a : Application W) (w : W) : a.deliverAll [] w = w := rfl

theorem deliverAll_cons (a : Application W) (e : Event) (evs : List Event) (w : W) :
    a.deliverAll (e :: evs) w = a.deliverAll evs
      (if a.mode.admits e.kind then a.appliers.members.foldl (fun w ap => ap.apply e w) w else w) := by
  unfold deliverAll
  rw [List.filter_cons]
  split <;> simp_all

section Offer

variable (a : Application W) (w : W) (e : Event)

theorem offer_of_applied (h : e.sequence.toNat ≤ a.base.lastEvent.toNat) :
    a.offer w e = (.error (.alreadyApplied e.sequence a.base.lastEvent), a, w) := by
  have hle : e.sequence ≤ a.base.lastEvent := UInt64.le_iff_toNat_le.2 h
  simp [offer, apply, order, hle]

theorem offer_of_gap (h : a.base.lastEvent.toNat + 1 < e.sequence.toNat) :
    a.offer w e = (.error (.gap (a.base.lastEvent + 1) e.sequence), a, w) := by
  have hnle : ¬ e.sequence ≤ a.base.lastEvent := by
    rw [UInt64.le_iff_toNat_le]
    omega
  -- the counter is below the top of its range, so the next sequence is exact
  have hne : e.sequence ≠ a.base.lastEvent + 1 := by
    intro heq
    have hnext := toNat_add_one_of_fits (q := a.base.lastEvent)
      (by have := e.sequence.toNat_lt; simp only [UInt64.size] at *; omega)
    rw [← heq] at hnext
    omega
  simp [offer, apply, order, hnle, hne]

theorem offer_of_next (h : e.sequence.toNat = a.base.lastEvent.toNat + 1) :
    a.offer w e = (.ok (a.mode.admits e.kind), { a with base := a.base.record e },
      if a.mode.admits e.kind then a.appliers.members.foldl (fun w ap => ap.apply e w) w
      else w) := by
  have hlt : a.base.lastEvent < e.sequence := by
    rw [UInt64.lt_iff_toNat_lt]
    omega
  have heq : e.sequence = a.base.lastEvent + 1 := by
    apply UInt64.toNat_inj.1
    rw [h, toNat_add_one_of_fits (by have := e.sequence.toNat_lt; simp only [UInt64.size] at *; omega)]
  simp only [offer, apply_of_next w hlt heq]

/-- The answer to an offered event, against the sequence `L` of the last event applied: it was
applied already exactly when it is at or below `L`; it leaves a gap, reported with `L + 1`
computed without overflow, exactly when it is past `L + 1`; it is taken exactly when it is
`L + 1`, with the appliers run as the mode says. A refused event changes nothing. -/
theorem offer_answer :
    ((a.offer w e).1 = .error (.alreadyApplied e.sequence a.base.lastEvent) ↔
        e.sequence.toNat ≤ a.base.lastEvent.toNat) ∧
      ((∃ x, (a.offer w e).1 = .error (.gap x e.sequence) ∧ x.toNat = a.base.lastEvent.toNat + 1) ↔
        a.base.lastEvent.toNat + 1 < e.sequence.toNat) ∧
      ((a.offer w e).1 = .ok (a.mode.admits e.kind) ↔
        e.sequence.toNat = a.base.lastEvent.toNat + 1) ∧
      ∀ err, (a.offer w e).1 = .error err → (a.offer w e).2 = (a, w) := by
  rcases Nat.lt_trichotomy e.sequence.toNat (a.base.lastEvent.toNat + 1) with hlt | heq | hgt
  · rw [offer_of_applied a w e (by omega)]
    refine ⟨by simp; omega, ⟨by simp, by omega⟩, ⟨by simp, by omega⟩, fun _ _ => rfl⟩
  · rw [offer_of_next a w e heq]
    refine ⟨⟨by simp, by omega⟩, ⟨by simp, by omega⟩, by simp [heq], by simp⟩
  · have hfits : a.base.lastEvent.toNat + 1 < UInt64.size := by
      have := e.sequence.toNat_lt
      simp only [UInt64.size] at *
      omega
    rw [offer_of_gap a w e hgt]
    refine ⟨⟨by simp, by omega⟩, ⟨fun _ => hgt, fun _ => ⟨_, rfl, toNat_add_one_of_fits hfits⟩⟩,
      ⟨by simp, by omega⟩, fun _ _ => rfl⟩

end Offer

/-- Offering events keeps the appliers and the mode, records the events `gapless` takes in the
base state, and runs the appliers on those the mode admits. -/
theorem offerAll_state (a : Application W) (w : W) (evs : List Event) :
    (a.offerAll w evs).2 = ({ a with base := a.base.recordAll (gapless a.base.lastEvent.toNat evs) },
      a.deliverAll (gapless a.base.lastEvent.toNat evs) w) := by
  induction evs generalizing a w with
  | nil => rfl
  | cons e evs ih =>
    rw [offerAll, gapless]
    rcases Nat.lt_trichotomy e.sequence.toNat (a.base.lastEvent.toNat + 1) with hlt | heq | hgt
    · rw [offer_of_applied a w e (by omega), if_neg (by omega)]
      exact ih a w
    · rw [offer_of_next a w e heq, if_pos heq]
      -- the taken event moves the counter to its own sequence
      have hlast : ({ a with base := a.base.record e } : Application W).base.lastEvent.toNat =
          a.base.lastEvent.toNat + 1 := by simp [heq]
      simp only [ih, hlast]
      rw [deliverAll_cons]
      rfl
    · rw [offer_of_gap a w e hgt, if_neg (by omega)]
      exact ih a w

/-- The events answered as taken are those `gapless` takes. -/
theorem taken_offerAll (a : Application W) (w : W) (evs : List Event) :
    taken evs (a.offerAll w evs).1 = gapless a.base.lastEvent.toNat evs := by
  induction evs generalizing a w with
  | nil => rfl
  | cons e evs ih =>
    rw [offerAll, gapless]
    rcases Nat.lt_trichotomy e.sequence.toNat (a.base.lastEvent.toNat + 1) with hlt | heq | hgt
    · rw [offer_of_applied a w e (by omega), if_neg (by omega), ← ih a w]
      simp [taken, Except.isOk, Except.toBool]
    · rw [offer_of_next a w e heq, if_pos heq]
      have hrest := ih { a with base := a.base.record e }
        (if a.mode.admits e.kind then a.appliers.members.foldl (fun w ap => ap.apply e w) w else w)
      rw [show ({ a with base := a.base.record e } : Application W).base.lastEvent.toNat =
        a.base.lastEvent.toNat + 1 by simp [heq]] at hrest
      rw [← hrest]
      simp [taken, Except.isOk, Except.toBool]
    · rw [offer_of_gap a w e hgt, if_neg (by omega), ← ih a w]
      simp [taken, Except.isOk, Except.toBool]

theorem length_offerAll (a : Application W) (w : W) (evs : List Event) :
    (a.offerAll w evs).1.length = evs.length := by
  induction evs generalizing a w with
  | nil => rfl
  | cons e evs ih => simp [offerAll, ih]

/-- The events `gapless` takes are numbered on from the one after `last`, without a gap. -/
theorem sequence_gapless (last : Nat) (evs : List Event) :
    (gapless last evs).map (fun e => e.sequence.toNat) =
      List.range' (last + 1) (gapless last evs).length := by
  induction evs generalizing last with
  | nil => rfl
  | cons e evs ih =>
    rw [gapless]
    split
    · rename_i h
      simp [ih, h, List.range'_succ]
    · exact ih last

/-- Gapless, exactly-once application. Each offered event is answered against the sequence `L`
of the last event applied at the moment: applied already exactly when at or below `L`, a gap
reported with `L + 1` exactly when past `L + 1`, and otherwise taken, with the appliers run as
the mode admits it; a refused event changes nothing. Over offers one after the other to an
application composed with its appliers after the extensions' ones, the events taken are
those `gapless` picks, numbered on from the first `L` without a gap; the base state is their
record, with the last taken as last event and, for each source, the command of its last
terminal event taken as watermark, rollbacks the mode filters out included; and the chain's
appliers, no-ops left out, see each taken event the mode admits once, in the order taken. -/
theorem applies_gapless_once (base : BaseState) (application extensions : List (Applier W))
    (mode : ReplayMode) (w : W) (evs : List Event) :
    let a := compose base application extensions mode
    let r := a.offerAll w evs
    let acc := taken evs r.1
    (∀ (b : Application W) (v : W) (e : Event),
      ((b.offer v e).1 = .error (.alreadyApplied e.sequence b.base.lastEvent) ↔
          e.sequence.toNat ≤ b.base.lastEvent.toNat) ∧
        ((∃ x, (b.offer v e).1 = .error (.gap x e.sequence) ∧
            x.toNat = b.base.lastEvent.toNat + 1) ↔
          b.base.lastEvent.toNat + 1 < e.sequence.toNat) ∧
        ((b.offer v e).1 = .ok (b.mode.admits e.kind) ↔
          e.sequence.toNat = b.base.lastEvent.toNat + 1) ∧
        ∀ err, (b.offer v e).1 = .error err → (b.offer v e).2 = (b, v)) ∧
      acc = gapless base.lastEvent.toNat evs ∧
      acc.map (fun e => e.sequence.toNat) = List.range' (base.lastEvent.toNat + 1) acc.length ∧
      r.2.1 = { a with base := base.recordAll acc } ∧
      r.2.1.base.lastEvent = (acc.getLast?.map Event.sequence).getD base.lastEvent ∧
      (∀ x, r.2.1.base.lastCommand x =
        (((acc.filter fun e => e.kind.isTerminal && e.source == x).getLast?).map
          Event.sourceSequence).getD (base.lastCommand x)) ∧
      r.2.2 = (acc.filter fun e => mode.admits e.kind).foldl
        (fun w e => ((extensions ++ application).filter fun ap => !ap.isNoop).foldl
          (fun w ap => ap.apply e w) w) w := by
  intro a r acc
  have hacc : acc = gapless base.lastEvent.toNat evs := taken_offerAll a w evs
  have hstate := offerAll_state a w evs
  refine ⟨offer_answer, hacc, hacc ▸ sequence_gapless _ _, ?_, ?_, fun x => ?_, ?_⟩
  · rw [hstate, hacc]
    rfl
  · rw [hstate, hacc]
    exact BaseState.lastEvent_recordAll _ _
  · rw [hstate, hacc]
    exact BaseState.lastCommand_recordAll _ _ x
  · rw [hstate, hacc]
    rfl

/-- Offered the same commit twice, then one past a gap, then the missing one: the second copy is
applied already, the third leaves a gap, and the last is taken. -/
example :
    let ev : UInt64 → Event := fun n =>
      { source := 1, sourceSequence := n, sequence := n, index := 0, kind := .commit, time := 0,
        payloadType := 0, payload := [] }
    ((compose {} [] [] .all : Application Unit).offerAll () [ev 1, ev 1, ev 3, ev 2]).1 =
      [.ok true, .error (.alreadyApplied 1 1), .error (.gap 2 3), .ok true] := by
  decide

end Application

end EventSourcing
