import Mathlib
import EventSourcing.Proofs.Offers

/-!
# The delivery law

Each output is offered the events of the log in order, from where its poller stood. An event
is offered at attempts one, two and on, until the output takes or ignores it, or fails it at
the last attempt of the budget, when the output-error handler is told once. A failure with
attempts left ends the output's turn in the publishing call, and one call finishes at most the
publishing limit of events for the output. The output's poller always stands at its first
position plus the events it finished.

`Cursor.follow` reads this law off the labels of the steps, one output at a time; a turn is
the label of the round of one publishing call (`Deliver.round`). The main
statement, `outputs_follow_delivery_law`, says that along the lifetime of an engine whose
applier does not share an output's poller, the steps show every output offered as the law says,
and leave its poller and its count of attempts where the law leaves them. When the applier
does share an output's poller, applying events moves that output on without an offer:
`shared_poller_moves_output`.
-/

namespace EventSourcing

/-- Where an output stands in the law of its offers: the log index of its current event, the
attempts made at it, and, within the current publishing call, whether its turn goes on and how
many events it finished. -/
structure Cursor where
  position : Nat
  attempts : Nat
  turn : Bool
  finished : Nat
  deriving DecidableEq, Repr

namespace Cursor

variable (B L i : Nat)

/-- The output is done with its event and moves on to the next. -/
def finish (c : Cursor) : Cursor :=
  { c with position := c.position + 1, attempts := 0, finished := c.finished + 1 }

/-- The law of the offers to the output at slot `i`, under the budget `B` and the limit `L` of
events a publishing call finishes, read one label at a time; `none` when the label breaks it.
A publishing call gives the output a turn. The output is offered the event at its position, at
the attempt after the last, while its turn goes on and it finished fewer than `L` events in the
call. Taking or ignoring the event finishes it. A failure with attempts left counts the attempt
and ends the turn; a failure at the `B`-th attempt is reported once, with `B` attempts, and
finishes the event. -/
def next (c : Cursor) : Delivery → Option Cursor
  | .turn => some { c with turn := true, finished := 0 }
  | .offered o =>
    if o.slot ≠ i then some c
    else if c.turn = true ∧ c.finished < L ∧ o.index = c.position ∧
        o.context.attempt = c.attempts + 1 then
      match failureOf o.context.attempt o.answer, o.report with
      | none, none => some c.finish
      | some _, none =>
        if c.attempts + 1 < B then some { c with attempts := c.attempts + 1, turn := false }
        else none
      | some f, some r => if c.attempts + 1 = B ∧ r = (B, f) then some c.finish else none
      | none, some _ => none
    else none

/-- Reads the law along labels. -/
def follow (c : Cursor) (ds : List Delivery) : Option Cursor :=
  ds.foldlM (next B L i) c

variable {B L i}

/-- An offer the output at slot `i` is due: its turn goes on, it finished fewer than `L` events
in the call, and the offer is of its event at the attempt after the last. -/
structure Due (L i : Nat) (c : Cursor) (o : Offer) : Prop where
  slot : o.slot = i
  turn : c.turn = true
  room : c.finished < L
  index : o.index = c.position
  attempt : o.context.attempt = c.attempts + 1

@[simp]
theorem next_turn (c : Cursor) : next B L i c .turn = some { c with turn := true, finished := 0 } :=
  rfl

theorem next_other {c : Cursor} {o : Offer} (h : o.slot ≠ i) : next B L i c (.offered o) = some c := by
  simp [next, h]

theorem next_taken {c : Cursor} {o : Offer} (h : Due L i c o)
    (hf : failureOf o.context.attempt o.answer = none) (hr : o.report = none) :
    next B L i c (.offered o) = some c.finish := by
  rw [next, if_neg (not_not.2 h.slot), if_pos ⟨h.turn, h.room, h.index, h.attempt⟩, hf, hr]

theorem next_retried {c : Cursor} {o : Offer} {f : Failure} (h : Due L i c o)
    (hf : failureOf o.context.attempt o.answer = some f) (hr : o.report = none)
    (hB : c.attempts + 1 < B) :
    next B L i c (.offered o) = some { c with attempts := c.attempts + 1, turn := false } := by
  rw [next, if_neg (not_not.2 h.slot), if_pos ⟨h.turn, h.room, h.index, h.attempt⟩, hf, hr]
  exact if_pos hB

theorem next_gaveUp {c : Cursor} {o : Offer} {f : Failure} (h : Due L i c o)
    (hf : failureOf o.context.attempt o.answer = some f) (hr : o.report = some (B, f))
    (hB : c.attempts + 1 = B) : next B L i c (.offered o) = some c.finish := by
  rw [next, if_neg (not_not.2 h.slot), if_pos ⟨h.turn, h.room, h.index, h.attempt⟩, hf, hr]
  exact if_pos ⟨hB, rfl⟩

@[simp]
theorem follow_nil (c : Cursor) : follow B L i c [] = some c := rfl

theorem follow_cons (c : Cursor) (d : Delivery) (ds : List Delivery) :
    follow B L i c (d :: ds) = (next B L i c d).bind (follow B L i · ds) := rfl

@[simp]
theorem follow_singleton (c : Cursor) (d : Delivery) : follow B L i c [d] = next B L i c d := by
  rw [follow_cons]
  cases next B L i c d <;> rfl

theorem follow_append (c : Cursor) (ds ds' : List Delivery) :
    follow B L i c (ds ++ ds') = (follow B L i c ds).bind (follow B L i · ds') :=
  List.foldlM_append

/-- What the law allows an offer to the output: it is due, and either finishes the event or
fails it with attempts left, counting the attempt and ending the turn. -/
theorem next_eq_some {c c' : Cursor} {o : Offer} (hslot : o.slot = i)
    (h : next B L i c (.offered o) = some c') :
    Due L i c o ∧ (o.finishes = true ∧ c' = c.finish ∨
      o.finishes = false ∧ c.attempts + 1 < B ∧
        c' = { c with attempts := c.attempts + 1, turn := false }) := by
  rw [next, if_neg (not_not.2 hslot)] at h
  by_cases hdue : c.turn = true ∧ c.finished < L ∧ o.index = c.position ∧
      o.context.attempt = c.attempts + 1
  swap
  · rw [if_neg hdue] at h
    cases h
  rw [if_pos hdue] at h
  obtain ⟨hturn, hroom, hindex, hattempt⟩ := hdue
  refine ⟨⟨hslot, hturn, hroom, hindex, hattempt⟩, ?_⟩
  unfold Offer.finishes
  split at h
  · cases h
    simp_all
  · by_cases hB : c.attempts + 1 < B
    · rw [if_pos hB] at h
      cases h
      simp_all
    · rw [if_neg hB] at h
      cases h
  · rename_i f r _ _
    by_cases hB : c.attempts + 1 = B ∧ r = (B, f)
    · rw [if_pos hB] at h
      cases h
      simp_all
    · rw [if_neg hB] at h
      cases h
  · cases h

end Cursor

namespace Delivery

/-- The events the output at slot `i` finished along labels. -/
def finished (i : Nat) (ds : List Delivery) : Nat :=
  ((offers ds).filter fun o => o.slot == i && o.finishes).length

theorem finished_append (i : Nat) (ds ds' : List Delivery) :
    finished i (ds ++ ds') = finished i ds + finished i ds' := by
  simp only [finished, offers_append, List.filter_append, List.length_append]

end Delivery

namespace Cursor

variable {B L i : Nat}

theorem next_position {c c' : Cursor} {d : Delivery} (h : next B L i c d = some c') :
    c'.position = c.position + Delivery.finished i [d] := by
  cases d with
  | turn =>
    cases h
    rfl
  | offered o =>
    by_cases hslot : o.slot = i
    · obtain ⟨-, ⟨hfin, rfl⟩ | ⟨hfin, -, rfl⟩⟩ := next_eq_some hslot h
      · simp [Delivery.finished, hslot, hfin, finish]
      · simp [Delivery.finished, hslot, hfin]
    · rw [next_other hslot] at h
      cases h
      simp [Delivery.finished, hslot]

/-- Along the law, the output's position grows by the events it finished. -/
theorem follow_position : ∀ {c c' : Cursor} {ds : List Delivery}, follow B L i c ds = some c' →
    c'.position = c.position + Delivery.finished i ds
  | c, c', [], h => by
    cases h
    rfl
  | c, c', d :: ds, h => by
    rw [follow_cons] at h
    obtain ⟨c₁, h₁, h₂⟩ := Option.bind_eq_some_iff.1 h
    rw [follow_position h₂, next_position h₁, show d :: ds = [d] ++ ds from rfl,
      Delivery.finished_append]
    omega

theorem next_attempts {c c' : Cursor} {d : Delivery} (hB : c.attempts < B)
    (h : next B L i c d = some c') :
    c'.attempts < B ∧ ∀ o ∈ Delivery.offers [d], o.slot = i →
      1 ≤ o.context.attempt ∧ o.context.attempt ≤ B := by
  cases d with
  | turn =>
    cases h
    exact ⟨hB, by simp⟩
  | offered o =>
    by_cases hslot : o.slot = i
    · obtain ⟨hdue, hnext⟩ := next_eq_some hslot h
      have hoffer : ∀ o' ∈ Delivery.offers [.offered o], o'.slot = i →
          1 ≤ o'.context.attempt ∧ o'.context.attempt ≤ B := by
        simp only [Delivery.offers_cons_offered, Delivery.offers_nil, List.mem_singleton, forall_eq,
          hdue.attempt]
        omega
      rcases hnext with ⟨-, rfl⟩ | ⟨-, hleft, rfl⟩
      · exact ⟨by simp [finish]; omega, hoffer⟩
      · exact ⟨hleft, hoffer⟩
    · rw [next_other hslot] at h
      cases h
      simp [hslot, hB]

/-- Along the law, every attempt at an event is one of the budget. -/
theorem follow_attempts : ∀ {c c' : Cursor} {ds : List Delivery}, c.attempts < B →
    follow B L i c ds = some c' →
    c'.attempts < B ∧ ∀ o ∈ Delivery.offers ds, o.slot = i →
      1 ≤ o.context.attempt ∧ o.context.attempt ≤ B
  | c, c', [], hB, h => by
    cases h
    exact ⟨hB, by simp⟩
  | c, c', d :: ds, hB, h => by
    rw [follow_cons] at h
    obtain ⟨c₁, h₁, h₂⟩ := Option.bind_eq_some_iff.1 h
    obtain ⟨hB₁, hd⟩ := next_attempts hB h₁
    obtain ⟨hB', hds⟩ := follow_attempts hB₁ h₂
    refine ⟨hB', fun o ho => ?_⟩
    rw [show d :: ds = [d] ++ ds from rfl, Delivery.offers_append, List.mem_append] at ho
    exact ho.elim (hd o) (hds o)

theorem next_finished {c c' : Cursor} {o : Offer} (hL : c.finished ≤ L)
    (h : next B L i c (.offered o) = some c') :
    c'.finished = c.finished + Delivery.finished i [.offered o] ∧ c'.finished ≤ L := by
  by_cases hslot : o.slot = i
  · obtain ⟨hdue, ⟨hfin, rfl⟩ | ⟨hfin, -, rfl⟩⟩ := next_eq_some hslot h
    · exact ⟨by simp [Delivery.finished, hslot, hfin, finish], hdue.room⟩
    · simp [Delivery.finished, hslot, hfin, hL]
  · rw [next_other hslot] at h
    cases h
    simp [Delivery.finished, hslot, hL]

/-- Along offers with no turn among them, the events the output finished in the call are counted
on, never past `L`. -/
theorem follow_finished : ∀ {c c' : Cursor} {os : List Offer}, c.finished ≤ L →
    follow B L i c (os.map .offered) = some c' →
    c'.finished = c.finished + Delivery.finished i (os.map .offered) ∧ c'.finished ≤ L
  | c, c', [], hL, h => by
    cases h
    simp [Delivery.finished, hL]
  | c, c', o :: os, hL, h => by
    rw [List.map_cons, follow_cons] at h
    obtain ⟨c₁, h₁, h₂⟩ := Option.bind_eq_some_iff.1 h
    obtain ⟨hstep, hL₁⟩ := next_finished hL h₁
    obtain ⟨hrest, hL'⟩ := follow_finished hL₁ h₂
    rw [List.map_cons, show Delivery.offered o :: os.map .offered = [.offered o] ++ os.map .offered
      from rfl, Delivery.finished_append]
    omega

/-- An output whose turn is over is offered nothing until the next turn. -/
theorem follow_closed : ∀ {c c' : Cursor} {os : List Offer}, c.turn = false →
    follow B L i c (os.map .offered) = some c' → ∀ o ∈ os, o.slot ≠ i
  | _, _, [], _, _ => by simp
  | c, c', o :: os, hclosed, h => by
    rw [List.map_cons, follow_cons] at h
    obtain ⟨c₁, h₁, h₂⟩ := Option.bind_eq_some_iff.1 h
    -- an offer to the output needs its turn to go on
    have hslot : o.slot ≠ i := fun hslot => by
      have hturn := (next_eq_some hslot h₁).1.turn
      rw [hclosed] at hturn
      cases hturn
    rw [next_other hslot] at h₁
    cases h₁
    rintro o' (_ | ⟨_, ho'⟩)
    · exact hslot
    · exact follow_closed hclosed h₂ o' ho'

/-- Once the output fails an event with attempts left, it is offered nothing more until the
next turn. -/
theorem follow_retried {c c' : Cursor} {front back : List Offer} {o : Offer}
    (h : follow B L i c ((front ++ o :: back).map .offered) = some c') (hslot : o.slot = i)
    (hfailed : o.finishes = false) : ∀ o' ∈ back, o'.slot ≠ i := by
  rw [List.map_append, List.map_cons, follow_append] at h
  obtain ⟨c₁, -, h₁⟩ := Option.bind_eq_some_iff.1 h
  rw [follow_cons] at h₁
  obtain ⟨c₂, h₂, h₃⟩ := Option.bind_eq_some_iff.1 h₁
  obtain ⟨-, ⟨hfinishes, -⟩ | ⟨-, -, rfl⟩⟩ := next_eq_some hslot h₂
  · rw [hfailed] at hfinishes
    cases hfinishes
  · exact follow_closed rfl h₃

/-- Within the offers that follow a turn, up to the next, the output finishes at most `L`
events, and once it fails an event with attempts left it is offered nothing more. -/
theorem follow_round {c c' : Cursor} {pre post : List Delivery} {os : List Offer}
    (h : follow B L i c (pre ++ .turn :: os.map .offered ++ post) = some c') :
    Delivery.finished i (os.map .offered) ≤ L ∧
      ∀ front o back, os = front ++ o :: back → o.slot = i → o.finishes = false →
        ∀ o' ∈ back, o'.slot ≠ i := by
  rw [follow_append] at h
  obtain ⟨c₂, hround, -⟩ := Option.bind_eq_some_iff.1 h
  rw [follow_append] at hround
  obtain ⟨c₁, -, hround⟩ := Option.bind_eq_some_iff.1 hround
  rw [follow_cons, next_turn, Option.bind_some] at hround
  obtain ⟨hcount, hle⟩ := follow_finished (Nat.zero_le L) hround
  refine ⟨?_, ?_⟩
  · dsimp only at hcount
    omega
  · rintro front o back rfl hslot hfailed
    exact follow_retried hround hslot hfailed

end Cursor

namespace Publisher

variable {W : Type}

/-- Placing outputs gives each a fresh slot under the poller named after it, the names distinct
and none of them among those already seen. -/
theorem build.place_eq_ok {seen : List String} {os : List (Output W)}
    {slots : List (OutputSlot W)} (h : build.place seen os = .ok slots) :
    (slots.map (·.output.name)).Nodup ∧ ∀ slot ∈ slots, slot.output.name ∉ seen ∧
      slot.poller = "output:" ++ slot.output.name ∧ slot.attempts = 0 := by
  induction os generalizing seen slots with
  | nil =>
    simp only [build.place, Except.ok.injEq] at h
    subst h
    simp
  | cons o rest ih =>
    unfold build.place at h
    split at h
    · cases h
    · rename_i hfresh
      cases hrest : build.place (o.name :: seen) rest with
      | error err => simp only [hrest] at h; cases h
      | ok slots' =>
        simp only [hrest] at h
        cases h
        obtain ⟨hnodup, hslots'⟩ := ih hrest
        refine ⟨List.nodup_cons.2 ⟨fun hmem => ?_, hnodup⟩, ?_⟩
        · obtain ⟨slot, hslot, hname⟩ := List.mem_map.1 hmem
          exact (hslots' slot hslot).1 (by simp [hname])
        · rintro slot (_ | ⟨_, hslot⟩)
          · exact ⟨by simpa using hfresh, rfl, rfl⟩
          · obtain ⟨hseen, hpoller, hattempts⟩ := hslots' slot hslot
            exact ⟨fun hmem => hseen (List.mem_cons_of_mem _ hmem), hpoller, hattempts⟩

/-- A built publisher has the budget the settings give, one at least, its outputs' pollers
distinct, and no attempt made. -/
theorem build_eq_ok {application extensions : List (Output W)} {budget : UInt32}
    {source : SourceId} {p : Publisher W} (h : build application extensions budget source = .ok p) :
    p.retryBudget = max budget.toNat 1 ∧ p.pollers.Nodup ∧ ∀ slot ∈ p.slots, slot.attempts = 0 := by
  unfold build at h
  cases hplace : build.place [] (Chain.compose application extensions .applicationFirst).members with
  | error err => simp only [hplace] at h; cases h
  | ok slots =>
    simp only [hplace] at h
    cases h
    obtain ⟨hnames, hslots⟩ := build.place_eq_ok hplace
    refine ⟨rfl, ?_, fun slot hslot => (hslots slot hslot).2.2⟩
    -- the pollers are the names behind one prefix
    have hpollers : slots.map (·.poller) = (slots.map (·.output.name)).map ("output:" ++ ·) := by
      rw [List.map_map]
      exact List.map_congr_left fun slot hslot => (hslots slot hslot).2.1
    show (slots.map (·.poller)).Nodup
    rw [hpollers]
    exact hnames.map fun _ _ => String.append_right_inj _ |>.1

end Publisher

namespace Blueprint

variable {W : Type}

/-- A built engine publishes through the publisher built from the application's and the
plugins' outputs. -/
theorem build_publisher {b : Blueprint W} {e : Engine W} (h : b.build = .ok e) :
    Publisher.build b.outputs b.installed.outputs b.config.outputRetryBudget
      b.config.loopbackSource = .ok e.publisher := by
  unfold build at h
  cases hp : Publisher.build b.outputs b.installed.outputs b.config.outputRetryBudget
      b.config.loopbackSource with
  | error err => simp only [hp] at h; cases h
  | ok p => simp only [hp] at h; cases h; rfl

end Blueprint

namespace Engine

variable {W : Type}

theorem poller_mem_pollers {p : Publisher W} {i : Nat} {slot : OutputSlot W}
    (h : p.slots[i]? = some slot) : slot.poller ∈ p.pollers :=
  List.mem_map.2 ⟨slot, List.mem_of_getElem? h, rfl⟩

/-- What publishing relies on: the outputs' pollers are distinct and none is the applier's, and
no output has spent its budget. -/
structure Sound (s : Engine W × W) : Prop where
  distinct : s.1.publisher.pollers.Nodup
  apart : s.1.config.applierPoller ∉ s.1.publisher.pollers
  budget : ∀ slot ∈ s.1.publisher.slots, slot.attempts < s.1.publisher.retryBudget

namespace Sound

variable {s : Engine W × W} {i j : Nat} {a b : OutputSlot W}

theorem poller_ne_applier (hs : Sound s) (h : s.1.publisher.slots[i]? = some a) :
    a.poller ≠ s.1.config.applierPoller :=
  fun heq => hs.apart (heq ▸ poller_mem_pollers h)

/-- Two outputs of a sound engine have distinct pollers. -/
theorem poller_ne (hs : Sound s) (hi : s.1.publisher.slots[i]? = some a)
    (hj : s.1.publisher.slots[j]? = some b) (hij : i ≠ j) : a.poller ≠ b.poller := by
  intro heq
  obtain ⟨hi', rfl⟩ := List.getElem?_eq_some_iff.1 hi
  obtain ⟨hj', rfl⟩ := List.getElem?_eq_some_iff.1 hj
  have hlen : ∀ k, k < s.1.publisher.slots.length → k < s.1.publisher.pollers.length := by
    simp [Publisher.pollers]
  have hi'' := hlen i hi'
  have hj'' := hlen j hj'
  have hpollers : s.1.publisher.pollers[i] = s.1.publisher.pollers[j] := by
    simpa [Publisher.pollers] using heq
  exact hij ((hs.distinct.getElem_inj_iff).1 hpollers)

theorem attempts_lt (hs : Sound s) (h : s.1.publisher.slots[i]? = some a) :
    a.attempts < s.1.publisher.retryBudget :=
  hs.budget a (List.mem_of_getElem? h)

end Sound

/-- The cursor `c` says where the output that `slot` held at slot `i` stands in `s`: the slot
holds it with `c.attempts` attempts, and its poller is at `c.position`. -/
structure Matches (i : Nat) (slot : OutputSlot W) (s : Engine W × W) (c : Cursor) : Prop where
  held : s.1.publisher.slots[i]? = some { slot with attempts := c.attempts }
  position : s.1.events.position slot.poller = c.position

namespace Matches

variable {i : Nat} {slot : OutputSlot W} {s t : Engine W × W} {c : Cursor}

/-- Steps that leave the outputs alone leave every output where it stood. -/
theorem kept (hm : Matches i slot s c) (hs : Sound s) (h : OutputsKept s t) : Matches i slot t c where
  held := by rw [h.publisher]; exact hm.held
  position := by
    rw [h.positions _ (poller_mem_pollers hm.held) (hs.poller_ne_applier hm.held), hm.position]

/-- Counting attempts at another output, and moving its poller, leave this one where it stood. -/
theorem other {j : Nat} {slot' : OutputSlot W} {n : Nat} (hm : Matches i slot s c) (hs : Sound s)
    (hheld : s.1.publisher.slots[j]? = some slot') (hij : i ≠ j)
    (hslots : t.1.publisher = s.1.publisher.setAttempts j slot' n)
    (hpositions : ∀ q, q ≠ slot'.poller → t.1.events.position q = s.1.events.position q) :
    Matches i slot t c where
  held := by rw [hslots, Publisher.getElem?_setAttempts_of_ne _ _ _ _ hij]; exact hm.held
  position := by rw [hpositions _ (hs.poller_ne hm.held hheld hij), hm.position]

/-- The output, counted at `c'.attempts` attempts with its poller at `c'.position`, stands at
`c'`. -/
theorem moved {slot' : OutputSlot W} {c' : Cursor} (hm : Matches i slot s c)
    (hheld : s.1.publisher.slots[i]? = some slot')
    (hslots : t.1.publisher = s.1.publisher.setAttempts i slot' c'.attempts)
    (hposition : t.1.events.position slot.poller = c'.position) : Matches i slot t c' where
  held := by
    rw [hslots, Publisher.getElem?_setAttempts_self _ hheld]
    obtain rfl := Option.some.inj (hheld.symm.trans hm.held)
    rfl
  position := hposition

end Matches

namespace Sound

variable {s t : Engine W × W} {i : Nat} {slot : OutputSlot W}

/-- Counting attempts at an output within its budget keeps an engine sound. -/
theorem setAttempts {n : Nat} (hs : Sound s) (hheld : s.1.publisher.slots[i]? = some slot)
    (hn : n < s.1.publisher.retryBudget) (hconfig : t.1.config = s.1.config)
    (hslots : t.1.publisher = s.1.publisher.setAttempts i slot n) : Sound t where
  distinct := by rw [hslots, Publisher.pollers_setAttempts _ hheld]; exact hs.distinct
  apart := by rw [hslots, hconfig, Publisher.pollers_setAttempts _ hheld]; exact hs.apart
  budget x hx := by
    rw [hslots] at hx ⊢
    rcases Publisher.mem_slots_setAttempts _ hx with hx | rfl
    · exact hs.budget x hx
    · exact hn

/-- Clearing the attempts at an output keeps an engine sound. -/
theorem resetAttempts (hs : Sound s) (hheld : s.1.publisher.slots[i]? = some slot)
    (hconfig : t.1.config = s.1.config)
    (hslots : t.1.publisher = s.1.publisher.setAttempts i slot 0) : Sound t :=
  hs.setAttempts hheld (Nat.zero_lt_of_lt (hs.attempts_lt hheld)) hconfig hslots

end Sound

namespace Offered

variable {s s' : Engine W × W} {o : Offer}

/-- An offer keeps an engine sound. -/
theorem sound (h : Offered s o s') (hs : Sound s) : Sound s' := by
  cases h with
  | taken h | gaveUp h => exact hs.resetAttempts h.held rfl rfl
  | retried h _ hleft => exact hs.setAttempts h.held hleft rfl rfl

/-- An offer to another output leaves the output at slot `j` where it stood. -/
theorem matches_other {j : Nat} {slot : OutputSlot W} {c : Cursor} (h : Offered s o s')
    (hs : Sound s) (hm : Matches j slot s c) (hj : o.slot ≠ j) : Matches j slot s' c := by
  cases h with
  | taken h _ hadvance | gaveUp h _ _ hadvance =>
    exact hm.other hs h.held (Ne.symm hj) rfl fun _ hq => MessageLog.position_advance_of_ne hadvance hq
  | retried h => exact hm.other hs h.held (Ne.symm hj) rfl fun _ _ => rfl

end Offered

namespace Offers

variable {s s' : Engine W × W} {os : List Offer}

theorem sound (h : Offers s os s') (hs : Sound s) : Sound s' := by
  induction h with
  | refl => exact hs
  | step ho _ ih => exact ih (ho.sound hs)

/-- Offers to other outputs leave the output at slot `j` where it stood, and its law where it
was. -/
theorem follow_other {j : Nat} {slot : OutputSlot W} {c : Cursor} (h : Offers s os s')
    (hs : Sound s) (hm : Matches j slot s c) (hos : ∀ o ∈ os, o.slot ≠ j) (B L : Nat) :
    Cursor.follow B L j c (os.map .offered) = some c ∧ Matches j slot s' c := by
  induction h with
  | refl => exact ⟨rfl, hm⟩
  | step ho _ ih =>
    have hj := hos _ List.mem_cons_self
    obtain ⟨hrest, hm'⟩ :=
      ih (ho.sound hs) (ho.matches_other hs hm hj) fun o h => hos o (List.mem_cons_of_mem _ h)
    exact ⟨by rw [List.map_cons, Cursor.follow_cons, Cursor.next_other hj]; exact hrest, hm'⟩

end Offers

namespace Deliver

variable {s s' : Engine W × W} {ds : List Delivery}

/-- A step keeps an engine sound. -/
theorem sound (h : Deliver s ds s') (hs : Sound s) : Sound s' := by
  cases h with
  | kept h => exact ⟨h.publisher ▸ hs.distinct, h.publisher ▸ h.config ▸ hs.apart, h.publisher ▸ hs.budget⟩
  | round _ _ hoffers => exact hoffers.sound hs

end Deliver

namespace Delivers

variable {s s' : Engine W × W} {ds : List Delivery}

theorem sound (h : Delivers s ds s') (hs : Sound s) : Sound s' := by
  induction h with
  | refl => exact hs
  | step hd _ ih => exact ih (hd.sound hs)

theorem config (h : Delivers s ds s') : s'.1.config = s.1.config := by
  induction h with
  | refl => rfl
  | step hd _ ih => rw [ih, hd.config]

theorem retryBudget (h : Delivers s ds s') :
    s'.1.publisher.retryBudget = s.1.publisher.retryBudget := by
  induction h with
  | refl => rfl
  | step hd _ ih => rw [ih, hd.retryBudget]

theorem grows (h : Delivers s ds s') :
    s.1.events.messages.toList <+: s'.1.events.messages.toList := by
  induction h with
  | refl => exact List.prefix_refl _
  | step hd _ ih => exact hd.grows.trans ih

/-- Every event offered along steps is the one the log holds at its index. -/
theorem read (h : Delivers s ds s') :
    ∀ o ∈ Delivery.offers ds, o.ReadIn s'.1.events.messages.toList := by
  induction h with
  | refl => simp
  | step hd hrest ih =>
    intro o ho
    rw [Delivery.offers_append, List.mem_append] at ho
    exact ho.elim (fun ho => (hd.read o ho).mono hrest.grows) (ih o)

end Delivers

/-- The offer matches the output's cursor: the slot holds the output at the cursor's attempts,
and the offer is due while the turn goes on with room left. -/
theorem Offering.due {s : Engine W × W} {i : Nat} {slot slot' : OutputSlot W} {m : Stored}
    {ev : Event} {ctx : OutputContext} {answer : Except Failure Ack} {w : W} {o : Outbox}
    {c : Cursor} {L : Nat} (h : Offering s i slot' m ev ctx answer w o) (hm : Matches i slot s c)
    (hturn : c.turn = true) (hroom : c.finished < L) (r : Option (Nat × Failure)) :
    slot' = { slot with attempts := c.attempts } ∧
      Cursor.Due L i c ⟨i, m.index, ev, ctx, answer, r⟩ := by
  obtain rfl := Option.some.inj (h.held.symm.trans hm.held)
  refine ⟨rfl, rfl, hturn, hroom, ?_, h.attempted⟩
  rw [(MessageLog.peek?_eq_some.1 h.peeked).1]
  exact hm.position

/-- Publishing to the output at slot `i` took `s` to `s'`: the offers are all to it, and, while
its turn goes on with room for `limit` more events, they keep its law. -/
def SlotDelivered (i limit : Nat) (s s' : Engine W × W) : Prop :=
  ∃ os, Offers s os s' ∧ (∀ o ∈ os, o.slot = i) ∧
    ∀ slot c, Matches i slot s c → c.turn = true →
      c.finished + limit ≤ s.1.config.publishBatchLimit →
      ∃ c', Cursor.follow s.1.publisher.retryBudget s.1.config.publishBatchLimit i c
          (os.map .offered) = some c' ∧ Matches i slot s' c'

namespace SlotDelivered

variable {i limit : Nat} {s s' : Engine W × W} {slot : OutputSlot W} {m : Stored} {ev : Event}
  {ctx : OutputContext} {answer : Except Failure Ack} {w : W} {o : Outbox} {f : Failure}
  {events : MessageLog}

theorem refl (s : Engine W × W) : SlotDelivered i limit s s :=
  ⟨[], .refl s, by simp, fun _ c hm _ _ => ⟨c, rfl, hm⟩⟩

/-- A step at which the output finishes its event, leaving its poller one on and no attempt in
its slot, followed by the rest of the call. -/
theorem finish {r : Option (Nat × Failure)} {w' : W} (h : Offering s i slot m ev ctx answer w o)
    (hadvance : s.1.events.advance slot.poller = .ok events)
    (hstep : Offered s ⟨i, m.index, ev, ctx, answer, r⟩ ({ s.1 with
      publisher := s.1.publisher.setAttempts i slot 0, outbox := o, events := events }, w'))
    (hnext : ∀ c, Cursor.Due s.1.config.publishBatchLimit i c ⟨i, m.index, ev, ctx, answer, r⟩ →
      Cursor.next s.1.publisher.retryBudget s.1.config.publishBatchLimit i c
        (.offered ⟨i, m.index, ev, ctx, answer, r⟩) = some c.finish)
    (hrest : SlotDelivered i limit ({ s.1 with
      publisher := s.1.publisher.setAttempts i slot 0, outbox := o, events := events }, w') s') :
    SlotDelivered i (limit + 1) s s' := by
  obtain ⟨os, hd, hslots, hlaw⟩ := hrest
  refine ⟨_, .step hstep hd, ?_, ?_⟩
  · rintro o (_ | ⟨_, ho⟩)
    · rfl
    · exact hslots o ho
  intro slot₀ c hm hopen hroom
  have hroom' : c.finished < s.1.config.publishBatchLimit := by omega
  obtain ⟨rfl, hdue⟩ := h.due hm hopen hroom' r
  have hm₁ : Matches i slot₀ ({ s.1 with
      publisher := s.1.publisher.setAttempts i _ 0, outbox := o, events := events }, w')
      c.finish :=
    hm.moved h.held rfl (by
      show events.position slot₀.poller = c.position + 1
      rw [← hm.position]
      exact MessageLog.position_advance hadvance)
  obtain ⟨c', hfollow, hm'⟩ := hlaw slot₀ c.finish hm₁ hopen (by simp [Cursor.finish]; omega)
  refine ⟨c', ?_, hm'⟩
  rw [List.map_cons, Cursor.follow_cons, hnext c hdue]
  exact hfollow

/-- The output takes or ignores its event, and the call goes on from there. -/
theorem taken (h : Offering s i slot m ev ctx answer w o)
    (htaken : failureOf ctx.attempt answer = none)
    (hadvance : s.1.events.advance slot.poller = .ok events)
    (hrest : SlotDelivered i limit ({ s.1 with
      publisher := s.1.publisher.setAttempts i slot 0, outbox := o, events := events }, w) s') :
    SlotDelivered i (limit + 1) s s' :=
  finish h hadvance (.taken h htaken hadvance) (fun _ hdue => Cursor.next_taken hdue htaken rfl) hrest

/-- The output fails its event at the last attempt of its budget: the failure is reported, and
the call goes on from there. -/
theorem gaveUp (hs : Sound s) (h : Offering s i slot m ev ctx answer w o)
    (hfailed : failureOf ctx.attempt answer = some f)
    (hspent : s.1.publisher.retryBudget ≤ ctx.attempt)
    (hadvance : s.1.events.advance slot.poller = .ok events)
    (hrest : SlotDelivered i limit ({ s.1 with
      publisher := s.1.publisher.setAttempts i slot 0, outbox := o, events := events },
        s.1.handlers.outputError slot.output.name ev ctx.attempt f w) s') :
    SlotDelivered i (limit + 1) s s' := by
  -- the budget is spent exactly at this attempt
  have hlast : ctx.attempt = s.1.publisher.retryBudget := by
    have := hs.attempts_lt h.held
    have := h.attempted
    omega
  refine finish h hadvance (.gaveUp h hfailed hspent hadvance) (fun c hdue => ?_) hrest
  exact Cursor.next_gaveUp hdue hfailed (by rw [hlast]) (by rw [← hlast, hdue.attempt])

/-- The output fails its event with attempts left: the attempt is counted and its turn ends. -/
theorem retried (h : Offering s i slot m ev ctx answer w o)
    (hfailed : failureOf ctx.attempt answer = some f)
    (hleft : ctx.attempt < s.1.publisher.retryBudget) :
    SlotDelivered i (limit + 1) s ({ s.1 with
      publisher := s.1.publisher.setAttempts i slot ctx.attempt, outbox := o }, w) := by
  refine ⟨_, .single (.retried h hfailed hleft), by simp, ?_⟩
  intro slot₀ c hm hopen hroom
  have hroom' : c.finished < s.1.config.publishBatchLimit := by omega
  obtain ⟨rfl, hdue⟩ := h.due hm hopen hroom' none
  refine ⟨{ c with attempts := c.attempts + 1, turn := false }, ?_, ?_⟩
  · rw [List.map_singleton, Cursor.follow_singleton]
    exact Cursor.next_retried hdue hfailed rfl (by rw [← hdue.attempt]; exact hleft)
  · exact hm.moved h.held (by rw [hdue.attempt]) hm.position

end SlotDelivered

theorem slotDelivered_publishSlot (i : Nat) (lastApplied : UInt64) (replayEnd : Nat) :
    ∀ (limit : Nat) (report : PublishReport) (now : Timestamp) (s : Engine W × W), Sound s →
      SlotDelivered i limit s (exec (publishSlot i lastApplied replayEnd limit report) now s).2
  | 0, report, now, s, _ => .refl s
  | limit + 1, report, now, s, hs => by
    rw [publishSlot, exec_engine_bind]
    cases hslot : s.1.publisher.slots[i]? with
    | none => exact .refl s
    | some slot =>
    dsimp only
    cases hpeek : s.1.events.peek? slot.poller with
    | none => exact .refl s
    | some m =>
    dsimp only
    cases hdecode : Event.decode m.bytes with
    | error r =>
      simp only [exec_bind, exec_lift_error]
      exact .refl s
    | ok ev =>
    simp only [exec_bind, exec_lift_ok]
    by_cases hlate : lastApplied < ev.sequence
    · simp only [hlate, if_true, exec_pure]
      exact .refl s
    simp only [hlate, if_false]
    unfold offer
    simp only [exec_bind, exec_engine, setSlot, exec_modifyEngine, exec_sendContext, exec_world,
      exec_modify]
    generalize hctx : (OutputContext.mk _ _ _ _) = ctx
    have hattempt : ctx.attempt = slot.attempts + 1 := by rw [← hctx]
    generalize hpub : slot.output.publish ev ctx s.2 s.1.outbox = a
    obtain ⟨answer, w, o⟩ := a
    have hoffer : Offering s i slot m ev ctx answer w o := ⟨hslot, hpeek, hdecode, hattempt, hpub⟩
    obtain ⟨events, hadvance⟩ : ∃ events, s.1.events.advance slot.poller = .ok events :=
      ⟨_, MessageLog.advance_of_peek? hpeek⟩
    rcases hans : report.answer (slot.attempts + 1) answer with ⟨r, _ | f⟩
    · -- the output took or ignored the event
      have htaken : failureOf ctx.attempt answer = none := by
        rw [hattempt, ← PublishReport.answer_snd report, hans]
      simp only [exec_pure, exec_bind, exec_modifyEngine, exec_engine, hadvance, exec_lift_ok,
        List.set_set]
      refine SlotDelivered.taken hoffer htaken hadvance ?_
      exact slotDelivered_publishSlot i lastApplied replayEnd limit r now _
        (hs.resetAttempts hslot rfl rfl)
    · -- the output failed the event
      have hfailed : failureOf ctx.attempt answer = some f := by
        rw [hattempt, ← PublishReport.answer_snd report, hans]
      by_cases hleft : slot.attempts + 1 < s.1.publisher.retryBudget
      · simp only [hleft, if_true, exec_pure]
        have hretried : SlotDelivered i (limit + 1) s _ :=
          SlotDelivered.retried hoffer hfailed (by rw [hattempt]; exact hleft)
        rw [hattempt] at hretried
        exact hretried
      · simp only [hleft, if_false, exec_bind, exec_modifyWorld, exec_pure, exec_modifyEngine,
          exec_engine, hadvance, exec_lift_ok, List.set_set]
        refine SlotDelivered.gaveUp hs hoffer hfailed (by omega) hadvance ?_
        rw [hattempt]
        exact slotDelivered_publishSlot i lastApplied replayEnd limit _ now _
          (hs.resetAttempts hslot rfl rfl)

/-- From a sound engine, `s'` follows `s` by steps that keep the law for every output. -/
def Delivered (s s' : Engine W × W) : Prop :=
  Sound s → ∃ ds, Delivers s ds s' ∧ ∀ i slot c, Matches i slot s c →
    ∃ c', Cursor.follow s.1.publisher.retryBudget s.1.config.publishBatchLimit i c ds = some c' ∧
      Matches i slot s' c'

namespace Delivered

theorem refl (s : Engine W × W) : Delivered s s :=
  fun _ => ⟨[], .refl s, fun _ _ c hm => ⟨c, rfl, hm⟩⟩

theorem trans {s₁ s₂ s₃ : Engine W × W} (h : Delivered s₁ s₂) (h' : Delivered s₂ s₃) :
    Delivered s₁ s₃ := by
  intro hs
  obtain ⟨ds, hd, hlaw⟩ := h hs
  obtain ⟨ds', hd', hlaw'⟩ := h' (hd.sound hs)
  refine ⟨ds ++ ds', hd.trans hd', fun i slot c hm => ?_⟩
  obtain ⟨c₁, hfollow, hm₁⟩ := hlaw i slot c hm
  obtain ⟨c', hfollow', hm'⟩ := hlaw' i slot c₁ hm₁
  rw [hd.retryBudget, hd.config] at hfollow'
  exact ⟨c', by rw [Cursor.follow_append, hfollow]; exact hfollow', hm'⟩

instance : Std.Refl (Delivered (W := W)) := ⟨refl⟩

instance : Trans (Delivered (W := W)) Delivered Delivered := ⟨trans⟩

/-- Steps that leave the outputs alone keep the law. -/
theorem of_kept {s s' : Engine W × W} (h : OutputsKept s s') : Delivered s s' :=
  fun hs => ⟨[], .single (.kept h), fun _ _ c hm => ⟨c, rfl, hm.kept hs h⟩⟩

end Delivered

theorem Relates.delivered {α : Type} {m : EngineM W α} (h : Relates OutputsKept m) :
    Relates Delivered m :=
  h.mono fun _ _ => Delivered.of_kept

/-- Publishing to the outputs at the slots `l` in turn, each up to the limit `L`: the offers of
the slots follow their law from a fresh turn, and the other outputs stay where they stood. -/
theorem offers_publishSlots (lastApplied : UInt64) (replayEnd : Nat) (now : Timestamp) (L : Nat) :
    ∀ (l : List Nat) (report : PublishReport) (s : Engine W × W), l.Nodup → Sound s →
      L = s.1.config.publishBatchLimit →
      ∃ os, Offers s os (exec (l.foldlM (fun report i => publishSlot i lastApplied replayEnd L report)
          report) now s).2 ∧
        ∀ j slot c, Matches j slot s c → (j ∈ l → c.turn = true ∧ c.finished = 0) →
          ∃ c', Cursor.follow s.1.publisher.retryBudget L j c (os.map .offered) = some c' ∧
            Matches j slot (exec (l.foldlM (fun report i => publishSlot i lastApplied replayEnd L report)
              report) now s).2 c'
  | [], report, s, _, _, _ => ⟨[], .refl s, fun _ _ c hm _ => ⟨c, rfl, hm⟩⟩
  | k :: l, report, s, hnodup, hs, hL => by
    obtain ⟨hk, hnodup⟩ := List.nodup_cons.1 hnodup
    obtain ⟨os₁, hd₁, hslots₁, hlaw₁⟩ :=
      slotDelivered_publishSlot k lastApplied replayEnd L report now s hs
    -- the output at slot `k` has its turn; the others stay where they stood
    have hfirst : ∀ j slot c, Matches j slot s c → (j ∈ k :: l → c.turn = true ∧ c.finished = 0) →
        ∃ c₁, Cursor.follow s.1.publisher.retryBudget L j c (os₁.map .offered) = some c₁ ∧
          Matches j slot (exec (publishSlot k lastApplied replayEnd L report) now s).2 c₁ ∧
          (j ∈ l → c₁.turn = true ∧ c₁.finished = 0) := by
      intro j slot c hm hfresh
      by_cases hj : j = k
      · subst hj
        obtain ⟨hopen, hzero⟩ := hfresh List.mem_cons_self
        obtain ⟨c₁, hfollow, hm₁⟩ := hlaw₁ slot c hm hopen (by omega)
        exact ⟨c₁, hL ▸ hfollow, hm₁, fun hjl => absurd hjl hk⟩
      · obtain ⟨hfollow, hm₁⟩ := hd₁.follow_other hs hm
          (fun o ho => by rw [hslots₁ o ho]; exact Ne.symm hj) _ L
        exact ⟨c, hfollow, hm₁, fun hjl => hfresh (List.mem_cons_of_mem _ hjl)⟩
    rw [List.foldlM_cons, exec_bind]
    split
    · rename_i r hr
      obtain ⟨os₂, hd₂, hlaw₂⟩ := offers_publishSlots lastApplied replayEnd now L l r _
        hnodup (hd₁.sound hs) (by rw [hd₁.config, hL])
      refine ⟨os₁ ++ os₂, hd₁.trans hd₂, fun j slot c hm hfresh => ?_⟩
      obtain ⟨c₁, hfollow₁, hm₁, hfresh₁⟩ := hfirst j slot c hm hfresh
      obtain ⟨c', hfollow', hm'⟩ := hlaw₂ j slot c₁ hm₁ hfresh₁
      rw [hd₁.retryBudget] at hfollow'
      exact ⟨c', by rw [List.map_append, Cursor.follow_append, hfollow₁]; exact hfollow', hm'⟩
    · refine ⟨os₁, hd₁, fun j slot c hm hfresh => ?_⟩
      obtain ⟨c₁, hfollow₁, hm₁, -⟩ := hfirst j slot c hm hfresh
      exact ⟨c₁, hfollow₁, hm₁⟩

/-- The round of a publishing call gives every output a fresh turn, then offers to each in
turn. -/
theorem delivered_publishRound (now : Timestamp) (s : Engine W × W) :
    Delivered s (exec (publishRound s.1) now s).2 := by
  intro hs
  obtain ⟨os, hd, hlaw⟩ := offers_publishSlots s.1.base.lastEvent s.1.status.replayEnd now _
    (List.range s.1.publisher.slots.length) {} s List.nodup_range hs rfl
  refine ⟨.turn :: os.map .offered, .single (.round now rfl hd), fun j slot c hm => ?_⟩
  have hfresh : Matches j slot s { c with turn := true, finished := 0 } := ⟨hm.held, hm.position⟩
  obtain ⟨c', hfollow, hm'⟩ := hlaw j slot _ hfresh fun _ => ⟨rfl, rfl⟩
  exact ⟨c', by rw [Cursor.follow_cons, Cursor.next_turn]; exact hfollow, hm'⟩

theorem delivered_publish : Relates Delivered (publish : EngineM W Nat) := by
  unfold publish
  refine .bind .ensureStarted fun _ => .engine_bind fun now s => ?_
  dsimp only
  split
  · exact .refl s
  · rw [exec_bind]
    split
    · simp only [exec_bind, exec_count, exec_pure]
      exact (delivered_publishRound now s).trans (.of_kept (.of_events rfl rfl rfl))
    · exact delivered_publishRound now s

theorem delivered_runCycle : Relates Delivered (runCycle : EngineM W Nat) := by
  have hcount : ∀ f : EngineCounters → EngineCounters, Relates Delivered (count f : EngineM W Unit) :=
    fun f => .count f fun _ => .of_kept (.of_events rfl rfl rfl)
  have hsteps : Relates Delivered (runSteps : EngineM W Nat) := by
    unfold runSteps
    exact .bind (outputsKept_pollInputs false).delivered fun _ =>
      .bind outputsKept_dispatch.delivered fun _ => .bind .engine fun _ =>
      .bind (outputsKept_apply _).delivered fun _ => .bind delivered_publish fun _ =>
      .bind (outputsKept_pollInputs true).delivered fun _ => .pure _
  unfold runCycle
  exact .bind .ensureStarted fun _ =>
    .tryCatch (.bind hsteps fun _ => .bind (hcount _) fun _ => .pure _)
      fun _ => .bind (hcount _) fun _ => .throw _

theorem delivered_runCycles : ∀ budget total, Relates Delivered (runCycles budget total : EngineM W Nat)
  | 0, total => .pure total
  | budget + 1, total => by
    rw [runCycles]
    refine .bind delivered_runCycle fun work => ?_
    split
    · exact .pure _
    · exact delivered_runCycles budget _

/-- Every call of the host keeps the law. -/
theorem Call.delivered {α : Type} {m : EngineM W α} (h : Call m) : Relates Delivered m := by
  cases h with
  | send source payloadType payload => exact (outputsKept_send source payloadType payload).delivered
  | nextSequence source => exact (outputsKept_nextSequence source).delivered
  | runCycle => exact delivered_runCycle
  | runUntilIdle => exact .bind .engine fun _ => delivered_runCycles _ 0
  | dispatch => exact outputsKept_dispatch.delivered
  | apply limit => exact (outputsKept_apply limit).delivered
  | publish => exact delivered_publish

/-- The states an engine reaches in its lifetime from `s₀`: the host starts it and makes calls,
each ending however it ends, and producers outside append records of commands to the command
log. -/
inductive Lifetime (s₀ : Engine W × W) : Engine W × W → Prop where
  | built : Lifetime s₀ s₀
  | start {s : Engine W × W} (now : Timestamp) : Lifetime s₀ s → Lifetime s₀ (exec start now s).2
  | call {α : Type} {m : EngineM W α} {s : Engine W × W} (hm : Call m) (now : Timestamp) :
      Lifetime s₀ s → Lifetime s₀ (exec m now s).2
  | append {s : Engine W × W} {bytes : Bytes} {i : Nat} {log : MessageLog} :
      Lifetime s₀ s → s.1.outbox.commands.append bytes = .ok (i, log) →
      Lifetime s₀ ({ s.1 with outbox := { s.1.outbox with commands := log } }, s.2)

/-- A lifetime keeps the law. -/
theorem Lifetime.delivered {s₀ s : Engine W × W} (h : Lifetime s₀ s) : Delivered s₀ s := by
  induction h with
  | built => exact .refl _
  | start now _ ih => exact ih.trans (outputsKept_start.delivered now _)
  | call hm now _ ih => exact ih.trans (hm.delivered now _)
  | append _ _ ih => exact ih.trans (.of_kept (.of_events rfl rfl rfl))

/-- A built engine whose applier shares no output's poller is sound. -/
theorem sound_of_build {b : Blueprint W} {e : Engine W} (w : W) (hb : b.build = .ok e)
    (hapart : b.config.applierPoller ∉ e.publisher.pollers) : Sound (e, w) := by
  obtain ⟨hbudget, hdistinct, hfresh⟩ := Publisher.build_eq_ok (Blueprint.build_publisher hb)
  refine ⟨hdistinct, by rw [(Blueprint.build_eq_ok hb).1]; exact hapart, fun slot hslot => ?_⟩
  rw [hfresh slot hslot, hbudget]
  omega

/-- What the law of its offers says of the output that `slot` held at slot `i` of an engine
built from `b`, along the labels `ds` of steps that end at `s`: it follows its cursor from where
its poller stood at the build, with no attempt made, and its slot keeps the attempts the cursor
counts; its poller stands past every event it finished; every attempt at an event lies within
the budget; and within the round of one publishing call, it finishes at most the publishing
limit of events and, once it fails an event with attempts left, is offered nothing more. -/
structure FollowsLaw (b : Blueprint W) (i : Nat) (slot : OutputSlot W) (ds : List Delivery)
    (s : Engine W × W) : Prop where
  follows : ∃ c, Cursor.follow (max b.config.outputRetryBudget.toNat 1) b.config.publishBatchLimit
      i ⟨b.events.position slot.poller, 0, false, 0⟩ ds = some c ∧
    s.1.publisher.slots[i]? = some { slot with attempts := c.attempts }
  position : s.1.events.position slot.poller = b.events.position slot.poller + Delivery.finished i ds
  attempts : ∀ o ∈ Delivery.offers ds, o.slot = i →
    1 ≤ o.context.attempt ∧ o.context.attempt ≤ max b.config.outputRetryBudget.toNat 1
  rounds : ∀ pre os post, ds = pre ++ .turn :: os.map .offered ++ post →
    Delivery.finished i (os.map .offered) ≤ b.config.publishBatchLimit ∧
      ∀ front o back, os = front ++ o :: back → o.slot = i → o.finishes = false →
        ∀ o' ∈ back, o'.slot ≠ i

/-- Along the lifetime of a built engine whose applier shares no output's poller, the steps
show each output offered events read from the log, as the law of its offers says, each turn of
the law being the round of one publishing call. -/
theorem outputs_follow_delivery_law {b : Blueprint W} {e : Engine W} (w : W)
    (hb : b.build = .ok e) (hapart : b.config.applierPoller ∉ e.publisher.pollers)
    {s : Engine W × W} (hlife : Lifetime (e, w) s) :
    ∃ ds, Delivers (e, w) ds s ∧ (∀ o ∈ Delivery.offers ds, o.ReadIn s.1.events.messages.toList) ∧
      ∀ i slot, e.publisher.slots[i]? = some slot → FollowsLaw b i slot ds s := by
  obtain ⟨hconfig, hevents, -⟩ := Blueprint.build_eq_ok hb
  obtain ⟨hbudget, -, hfresh⟩ := Publisher.build_eq_ok (Blueprint.build_publisher hb)
  obtain ⟨ds, hds, hlaw⟩ := hlife.delivered (sound_of_build w hb hapart)
  refine ⟨ds, hds, hds.read, fun i slot hslot => ?_⟩
  -- at the build the slot holds the output with no attempt, its poller where the log has it
  have hstart : Matches i slot (e, w) ⟨b.events.position slot.poller, 0, false, 0⟩ := by
    have hzero : slot.attempts = 0 := hfresh slot (List.mem_of_getElem? hslot)
    refine ⟨?_, by rw [hevents]⟩
    rw [hslot]
    cases slot
    simp_all
  obtain ⟨c, hfollow, hm⟩ := hlaw i slot _ hstart
  rw [hbudget, hconfig] at hfollow
  exact {
    follows := ⟨c, hfollow, hm.held⟩
    position := by rw [hm.position, Cursor.follow_position hfollow]
    attempts := (Cursor.follow_attempts (lt_max_of_lt_right Nat.one_pos) hfollow).2
    rounds := fun pre os post hds => Cursor.follow_round (hds ▸ hfollow) }

/-- An output that fails every event at its first attempt, over a log of two events: started
and published three times, it has finished both, each at its second attempt, in the publishing
call after the failure that ended its turn. -/
theorem outputs_follow_delivery_law_of_flaky_output :
    let ev (n : UInt64) : Event :=
      { source := 1, sourceSequence := n, sequence := n, index := 0, kind := .commit, time := 0,
        payloadType := 1, payload := [] }
    let x : Output Unit :=
      { name := "x",
        publish := fun _ ctx w o =>
          (if ctx.attempt = 1 then .error (.plain "busy") else .ok .committed, w, o),
        publish_sends := fun _ _ _ _ => .refl _ }
    let b : Blueprint Unit :=
      { commands := {}, events := { messages := #[(ev 1).encode, (ev 2).encode] }, outputs := [x] }
    ∃ e : Engine Unit, b.build = .ok e ∧ b.config.applierPoller ∉ e.publisher.pollers ∧
      let s := (exec publish 0 (exec publish 0 (exec publish 0 (exec start 0 (e, ())).2).2).2).2
      ∃ ds, Delivers (e, ()) ds s ∧ Delivery.finished 0 ds = 2 ∧
        (∀ o ∈ Delivery.offers ds, o.ReadIn s.1.events.messages.toList) ∧
        ∀ i slot, e.publisher.slots[i]? = some slot → FollowsLaw b i slot ds s := by
  intro ev x b
  obtain ⟨e, hb⟩ : ∃ e, b.build = .ok e := ⟨_, rfl⟩
  have hapart : b.config.applierPoller ∉ e.publisher.pollers := by
    cases hb
    decide
  obtain ⟨ds, hds, hread, hlaw⟩ := outputs_follow_delivery_law () hb hapart
    (.call .publish 0 (.call .publish 0 (.call .publish 0 (.start 0 .built))))
  obtain ⟨slot, hslot⟩ : ∃ slot, e.publisher.slots[0]? = some slot := by
    cases hb
    exact ⟨_, rfl⟩
  have hposition := (hlaw 0 slot hslot).position
  -- the output's poller went from the first event past the second
  have hmoved : (exec publish 0 (exec publish 0 (exec publish 0
      (exec start 0 (e, ())).2).2).2).2.1.events.position slot.poller = 2 ∧
      b.events.position slot.poller = 0 := by
    cases hb
    cases hslot
    decide +kernel
  exact ⟨e, hb, hapart, ds, hds, by omega, hread, hlaw⟩

/-- An applier that polls under an output's name moves that output on as it applies: replaying
one logged event at the start leaves the output past it, though nothing was ever offered. -/
theorem shared_poller_moves_output :
    let ev : Event :=
      { source := 1, sourceSequence := 1, sequence := 1, index := 0, kind := .commit, time := 0,
        payloadType := 1, payload := [] }
    let x : Output Unit :=
      { name := "x", publish := fun _ _ w o => (.ok .committed, w, o),
        publish_sends := fun _ _ _ _ => .refl _ }
    let b : Blueprint Unit :=
      { commands := {}, events := { messages := #[ev.encode] },
        config := { applierPoller := "output:x" }, outputs := [x] }
    ∃ e : Engine Unit, b.build = .ok e ∧ "output:x" ∈ e.publisher.pollers ∧
      e.events.position "output:x" = 0 ∧ (exec start 0 (e, ())).2.1.events.position "output:x" = 1 := by
  refine ⟨_, rfl, ?_, ?_, ?_⟩
  · decide
  · decide
  · decide

end Engine

end EventSourcing
