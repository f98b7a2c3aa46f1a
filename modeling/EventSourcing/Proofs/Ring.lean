import Mathlib
import EventSourcing.InFlight.Ring

/-!
# The ring refines the queue

The tracker of commands in flight is laid out as a ring of slots with a head, a length and a
count per source (`EventSourcing.InFlight.Ring`); the engine reasons about it as a queue
(`EventSourcing.InFlight`). This module proves that the ring is that queue.

`Ring.Holds r t` says that the ring `r` holds the queue `t`: the ring keeps its shape (a power
of two slots, the head at one of them, room for the entries), reads back the queue's entries
oldest first, has as many slots as the queue's capacity, and keeps each source's count. Every
operation of the interface keeps the relation and answers as the queue does
(`Ring.Holds.step`), and so does every run of operations (`Ring.Holds.run`).

From an empty tracker of capacity `c`, for `c` up to `2^58`, every run with fewer than `2^32`
sends goes through on the ring and answers as the queue (`ring_refines_queue`). Past `2^58` the
room cannot be set up, and past `2^63` it wraps around to a ring without slots
(`withCapacity_past_two_pow_63`).
-/

open private Nat.nextPowerOfTwo.go from Init.Data.Nat.Power2.Basic

namespace EventSourcing.InFlight

/-! ## The room of an empty tracker -/

theorem le_nextPowerOfTwo_go (n power : Nat) (h : power > 0) :
    n ≤ Nat.nextPowerOfTwo.go n power h := by
  fun_induction Nat.nextPowerOfTwo.go n power h with
  | case1 power h hlt ih => exact ih
  | case2 power h hge => omega

theorem nextPowerOfTwo_go_le {n k : Nat} (hn : n ≤ 2 ^ k) (power : Nat) (h : power > 0)
    (hpow : power.isPowerOfTwo) (hle : power ≤ 2 ^ k) :
    Nat.nextPowerOfTwo.go n power h ≤ 2 ^ k := by
  fun_induction Nat.nextPowerOfTwo.go n power h with
  | case1 power h hlt ih =>
    -- a power of two below `n` is below `2 ^ k`, so its double is at most `2 ^ k`
    obtain ⟨j, rfl⟩ := hpow
    have hj : j < k := (Nat.pow_lt_pow_iff_right Nat.one_lt_two).1 (by omega)
    apply ih (Nat.isPowerOfTwo_mul_two_of_isPowerOfTwo ⟨j, rfl⟩)
    rw [← Nat.pow_succ]
    exact Nat.pow_le_pow_right (by decide) hj
  | case2 power h hge => exact hle

theorem le_nextPowerOfTwo (n : Nat) : n ≤ n.nextPowerOfTwo := by
  unfold Nat.nextPowerOfTwo
  exact le_nextPowerOfTwo_go n 1 _

theorem nextPowerOfTwo_le {n k : Nat} (hn : n ≤ 2 ^ k) : n.nextPowerOfTwo ≤ 2 ^ k := by
  unfold Nat.nextPowerOfTwo
  exact nextPowerOfTwo_go_le hn 1 _ Nat.isPowerOfTwo_one Nat.one_le_two_pow

/-- Up to `2^63` commands the room does not wrap: it is the least power of two at or above the
capacity and two. -/
theorem roomFor_of_le {c : Nat} (hc : c ≤ 2 ^ 63) : roomFor c = (max c 2).nextPowerOfTwo := by
  have hle : (max c 2).nextPowerOfTwo ≤ 2 ^ 63 := nextPowerOfTwo_le (by omega)
  exact Nat.mod_eq_of_lt (by omega)

/-- Past `2^63` commands, up to `2^64`, the room wraps around to zero. -/
theorem roomFor_of_gt {c : Nat} (hc : 2 ^ 63 < c) (hc' : c ≤ 2 ^ 64) : roomFor c = 0 := by
  obtain ⟨k, hk⟩ := Nat.isPowerOfTwo_nextPowerOfTwo (max c 2)
  have hlo : max c 2 ≤ 2 ^ k := hk ▸ le_nextPowerOfTwo _
  have hhi : 2 ^ k ≤ 2 ^ 64 := hk ▸ nextPowerOfTwo_le (by omega)
  have hk64 : k = 64 := by
    have h63 : 63 < k := (Nat.pow_lt_pow_iff_right Nat.one_lt_two).1 (by omega)
    have h64 : k ≤ 64 := (Nat.pow_le_pow_iff_right Nat.one_lt_two).1 hhi
    omega
  rw [roomFor, hk, hk64]

/-- The room for up to `2^58` commands can be set up. -/
theorem fits_of_le {c : Nat} (hc : c ≤ 2 ^ 58) : fits c = true := by
  have hle : (max c 2).nextPowerOfTwo ≤ 2 ^ 58 := nextPowerOfTwo_le (by omega)
  simp only [fits, roomFor_of_le (by omega : c ≤ 2 ^ 63), decide_eq_true_eq]
  omega

/-- Whether an operation sends a command, the one operation that adds an entry. -/
def Op.isSend : Op → Bool
  | .sent .. => true
  | _ => false

/-- The number of sends among the operations. -/
def sends (ops : List Op) : Nat := ops.countP Op.isSend

namespace Ring

/-- Past `2^58` commands, up to `2^63`, the room is too large to be set up. -/
theorem withCapacity_eq_none {c : Nat} (hc : 2 ^ 58 < c) (hc' : c ≤ 2 ^ 63) :
    withCapacity c = none := by
  obtain ⟨k, hk⟩ := Nat.isPowerOfTwo_nextPowerOfTwo (max c 2)
  have hlo : max c 2 ≤ 2 ^ k := hk ▸ le_nextPowerOfTwo _
  have h59 : 2 ^ 59 ≤ 2 ^ k :=
    Nat.pow_le_pow_right (by decide) ((Nat.pow_lt_pow_iff_right Nat.one_lt_two).1 (by omega))
  simp only [withCapacity, fits, roomFor_of_le hc', hk, decide_eq_true_eq]
  rw [if_neg (by omega)]

/-! ## Slots -/

variable {r : Ring}

/-- The shape of every ring reached from an empty one: a power of two slots, the head at one
of them, and room for the entries. -/
structure Valid (r : Ring) : Prop where
  pow : r.capacity.isPowerOfTwo
  head_lt : r.head < r.capacity
  len_le : r.len ≤ r.capacity

theorem Valid.pos (hv : r.Valid) : 0 < r.capacity := Nat.pos_of_isPowerOfTwo hv.pow

/-- Masking with a power of two less one takes the remainder. -/
theorem and_pred_eq_mod {cap : Nat} (hpow : cap.isPowerOfTwo) (n : Nat) :
    n &&& (cap - 1) = n % cap := by
  obtain ⟨k, rfl⟩ := hpow
  exact Nat.and_two_pow_sub_one_eq_mod n k

/-- A sum that passes the end of the ring at most once wraps around by one subtraction. -/
theorem add_mod_of_le {head cap k : Nat} (hhead : head < cap) (hk : k ≤ cap) :
    (head + k) % cap = if head + k < cap then head + k else head + k - cap := by
  split
  · exact Nat.mod_eq_of_lt ‹_›
  · rw [Nat.mod_eq_sub_mod (by omega), Nat.mod_eq_of_lt (by omega)]

/-- Offsets less than one turn apart lie in distinct slots. -/
theorem add_mod_ne {head cap k m : Nat} (hhead : head < cap) (hk : k < m) (hm : m < cap) :
    (head + k) % cap ≠ (head + m) % cap := by
  rw [add_mod_of_le hhead (by omega), add_mod_of_le hhead (by omega)]
  split <;> split <;> omega

theorem entryAt_eq (hv : r.Valid) (offset : Nat) :
    r.entryAt offset = (r.slots[(r.head + offset) % r.capacity]?).getD default := by
  simp [entryAt, slot, and_pred_eq_mod hv.pow]

/-! ## What each operation does to the entries -/

@[simp]
theorem length_entries (r : Ring) : r.entries.length = r.len := by
  simp [entries]

/-- The oldest entry sits in the head slot. -/
theorem head?_entries (hv : r.Valid) : r.entries.head? = r.oldest? := by
  unfold entries oldest?
  cases r.len with
  | zero => rfl
  | succ m =>
    rw [List.range_succ_eq_map, List.map_cons, List.head?_cons, entryAt_eq hv, Nat.add_zero,
      Nat.mod_eq_of_lt hv.head_lt]
    simp

/-- The newest entry sits `len - 1` slots after the head. -/
theorem getLast?_entries (r : Ring) :
    r.entries.getLast? = if r.len = 0 then none else some (r.entryAt (r.len - 1)) := by
  unfold entries
  cases r.len with
  | zero => rfl
  | succ m => simp [List.range_succ]

/-- Writing the slot after the newest entry adds an entry at the back. -/
theorem entries_write (hv : r.Valid) (hlt : r.len < r.capacity) (e : InFlightEntry)
    (counts : List (SourceId × UInt32)) :
    (⟨r.slots.set (r.slot r.len) e, r.head, r.len + 1, counts⟩ : Ring).entries =
      r.entries ++ [e] := by
  have hmask := and_pred_eq_mod hv.pow
  simp only [Ring.capacity] at hmask hlt
  have hslot : (r.head + r.len) % r.slots.length < r.slots.length := Nat.mod_lt _ hv.pos
  unfold entries
  rw [List.range_succ, List.map_append, List.map_singleton]
  congr 1
  · -- the older entries sit in other slots than the one written
    apply List.map_congr_left
    intro k hk
    have hne : (r.head + r.len) % r.slots.length ≠ (r.head + k) % r.slots.length :=
      (add_mod_ne hv.head_lt (List.mem_range.1 hk) hlt).symm
    simp only [entryAt, slot, Ring.capacity, List.length_set, hmask, List.getD_eq_getElem?_getD]
    rw [List.getElem?_set_ne hne]
  · simp only [entryAt, slot, Ring.capacity, List.length_set, hmask, List.getD_eq_getElem?_getD]
    rw [List.getElem?_set_self hslot, Option.getD_some]

/-- Moving the head one slot on drops the oldest entry. -/
theorem entries_advance (hv : r.Valid) (counts : List (SourceId × UInt32)) :
    (⟨r.slots, (r.head + 1) &&& (r.capacity - 1), r.len - 1, counts⟩ : Ring).entries =
      r.entries.tail := by
  have hmask := and_pred_eq_mod hv.pow
  unfold entries
  cases r.len with
  | zero => rfl
  | succ m =>
    rw [List.range_succ_eq_map, List.map_cons, List.tail_cons, List.map_map, Nat.add_sub_cancel]
    apply List.map_congr_left
    intro k _
    simp only [Function.comp, entryAt, slot, capacity] at hmask ⊢
    rw [hmask, hmask, hmask, Nat.mod_add_mod, Nat.add_assoc, Nat.add_comm 1 k]

/-- Taking the newest entry out drops the last entry. -/
theorem entries_shrink (r : Ring) (counts : List (SourceId × UInt32)) :
    (⟨r.slots, r.head, r.len - 1, counts⟩ : Ring).entries = r.entries.dropLast := by
  unfold entries
  cases r.len with
  | zero => rfl
  | succ m =>
    rw [List.range_succ, List.map_append, List.map_singleton, List.dropLast_concat,
      Nat.add_sub_cancel]
    rfl

/-- Copying the entries out oldest first, into twice the slots, keeps them. -/
theorem entries_grown (hv : r.Valid) :
    (⟨r.slots.drop r.head ++ r.slots.take r.head ++ List.replicate r.capacity default, 0, r.len,
      r.counts⟩ : Ring).entries = r.entries := by
  have hrot : r.slots.drop r.head ++ r.slots.take r.head = r.slots.rotate r.head :=
    (List.rotate_eq_drop_append_take hv.head_lt.le).symm
  have hmask := and_pred_eq_mod hv.pow
  have hmask₂ := and_pred_eq_mod (Nat.isPowerOfTwo_mul_two_of_isPowerOfTwo hv.pow)
  unfold entries
  apply List.map_congr_left
  intro k hk
  have hk' : k < r.slots.length := Nat.lt_of_lt_of_le (List.mem_range.1 hk) hv.len_le
  simp only [entryAt, slot, Ring.capacity, hrot, List.length_append, List.length_rotate,
    List.length_replicate] at hmask hmask₂ ⊢
  -- the copy starts at slot zero, and the first half of it is the ring turned to its head
  rw [← Nat.mul_two, hmask₂, hmask, Nat.zero_add, Nat.mod_eq_of_lt (by omega),
    List.getD_eq_getElem?_getD, List.getD_eq_getElem?_getD,
    List.getElem?_append_left (by rw [List.length_rotate]; exact hk'), List.getElem?_rotate hk',
    Nat.add_comm k]

/-! ## The ring never shrinks -/

theorem capacity_grow {g : Ring} (hg : r.grow = some g) : g.capacity = 2 * r.capacity := by
  unfold grow at hg
  split at hg
  · cases hg
    simp only [Ring.capacity, List.length_append, List.length_drop, List.length_take,
      List.length_replicate]
    omega
  · cases hg

theorem capacity_push {e : InFlightEntry} {p : Ring} (hp : r.push e = some p) :
    p.capacity = r.capacity := by
  unfold push at hp
  split at hp
  · cases hp
  · cases hp
    exact List.length_set ..

/-- No operation takes slots away: a send may double the ring, and nothing else changes its
slots' number. -/
theorem capacity_le_step {op : Op} {reply : Reply} {r' : Ring}
    (hstep : r.step op = some (reply, r')) : r.capacity ≤ r'.capacity := by
  cases op with
  | sent source sequence time =>
    obtain ⟨r'', hsend, hr''⟩ := Option.map_eq_some_iff.1 hstep
    cases hr''
    unfold send at hsend
    split at hsend
    · obtain ⟨g, hg, hp⟩ := Option.bind_eq_some_iff.1 hsend
      rw [Ring.capacity_push hp, capacity_grow hg]
      omega
    · rw [Option.bind_some] at hsend
      rw [Ring.capacity_push hsend]
  | event source sequence kind =>
    simp only [Ring.step] at hstep
    split at hstep
    · rename_i b r'' hack
      cases hstep
      unfold Ring.acknowledge at hack
      split at hack
      · cases hack
      · cases hack
        exact Nat.le_refl _
      · cases hack
        exact Nat.le_refl _
    · cases hstep
      exact Nat.le_refl _
  | check source sequence kind =>
    cases hstep
    exact Nat.le_refl _
  | undo source sequence =>
    simp only [Ring.step] at hstep
    cases hstep
    unfold Ring.undo
    dsimp only
    split
    · exact Nat.le_refl _
    · split <;> exact Nat.le_refl _

theorem capacity_le_run {ops : List Op} {replies : List Reply} {r' : Ring}
    (hrun : r.run ops = some (replies, r')) : r.capacity ≤ r'.capacity := by
  induction ops generalizing r replies with
  | nil =>
    cases hrun
    exact Nat.le_refl _
  | cons op ops ih =>
    simp only [Ring.run] at hrun
    obtain ⟨⟨reply, r₁⟩, hstep, hrest⟩ := Option.bind_eq_some_iff.1 hrun
    obtain ⟨⟨replies', r₂⟩, hrun', hpure⟩ := Option.bind_eq_some_iff.1 hrest
    cases hpure
    exact Nat.le_trans (capacity_le_step hstep) (ih hrun')

/-! ## Counts -/

/-- How the counts keep a number of entries: not at all for none, as a 32-bit word
otherwise. -/
def tally (n : Nat) : Option UInt32 := if n = 0 then none else some (UInt32.ofNat n)

theorem countUp_tally {counts : List (SourceId × UInt32)} {s : SourceId} {n : Nat}
    (h : Keyed.find? counts s = tally n) : Keyed.find? (countUp counts s) s = tally (n + 1) := by
  rw [countUp, Keyed.find?_insert_self, Keyed.findD, h]
  by_cases hzero : n = 0
  · simp [tally, hzero]
  · simp [tally, hzero, UInt32.ofNat_add]

/-- Below `2^32` the word counts down as the number does, and reaches zero with it. -/
theorem countDown_tally {counts : List (SourceId × UInt32)} {s : SourceId} {n : Nat}
    (h : Keyed.find? counts s = tally n) (hn : n < 2 ^ 32) :
    Keyed.find? (countDown counts s) s = tally (n - 1) := by
  by_cases hzero : n = 0
  · rw [countDown, h]
    simpa [tally, hzero] using h
  · have hdown : UInt32.ofNat n - 1 = UInt32.ofNat (n - 1) := by
      have hle : (1 : UInt32) ≤ UInt32.ofNat n := by
        rw [UInt32.le_iff_toNat_le]
        simp
        omega
      apply UInt32.toNat.inj
      rw [UInt32.toNat_sub_of_le _ _ hle]
      simp
      omega
    have hiff : UInt32.ofNat (n - 1) = 0 ↔ n - 1 = 0 := by
      constructor
      · intro h0
        have := congrArg UInt32.toNat h0
        simp at this
        omega
      · intro h0
        simp [h0]
    rw [countDown, h]
    by_cases hone : n - 1 = 0
    · simp [tally, hzero, hdown, hone]
    · simp [tally, hzero, hdown, hone, hiff]

theorem find?_countUp_of_ne (counts : List (SourceId × UInt32)) {s x : SourceId} (hx : x ≠ s) :
    Keyed.find? (countUp counts s) x = Keyed.find? counts x :=
  Keyed.find?_insert_of_ne _ _ _ _ hx

theorem find?_countDown_of_ne (counts : List (SourceId × UInt32)) {s x : SourceId}
    (hx : x ≠ s) : Keyed.find? (countDown counts s) x = Keyed.find? counts x := by
  unfold countDown
  split
  · rfl
  · split
    · exact Keyed.find?_erase_of_ne _ _ _ hx
    · exact Keyed.find?_insert_of_ne _ _ _ _ hx

/-- The counts keep, for each source, the number of its entries in the queue. -/
def Tallies (counts : List (SourceId × UInt32)) (q : List InFlightEntry) : Prop :=
  ∀ s, Keyed.find? counts s = tally (q.countP (·.source == s))

theorem Tallies.perm {counts : List (SourceId × UInt32)} {q q' : List InFlightEntry}
    (h : Tallies counts q) (hq : q.Perm q') : Tallies counts q' := by
  intro s
  rw [h s, hq.countP_eq]

/-- One more entry of a source: its count goes up by one. -/
theorem Tallies.countUp {counts : List (SourceId × UInt32)} {q : List InFlightEntry}
    (h : Tallies counts q) (e : InFlightEntry) : Tallies (countUp counts e.source) (e :: q) := by
  intro s
  rw [List.countP_cons]
  by_cases hs : s = e.source
  · subst hs
    simp only [beq_self_eq_true, if_true]
    exact countUp_tally (h _)
  · have hne : (e.source == s) = false := beq_false_of_ne (Ne.symm hs)
    rw [find?_countUp_of_ne _ hs, h s, hne]
    rfl

/-- One entry of a source less: its count goes down by one. -/
theorem Tallies.countDown {counts : List (SourceId × UInt32)} {q : List InFlightEntry}
    {e : InFlightEntry} (h : Tallies counts (e :: q)) (hq : q.length + 1 < 2 ^ 32) :
    Tallies (countDown counts e.source) q := by
  intro s
  by_cases hs : s = e.source
  · subst hs
    have hcount := h e.source
    rw [List.countP_cons, beq_self_eq_true, if_pos rfl] at hcount
    have hbound : q.countP (·.source == e.source) + 1 < 2 ^ 32 :=
      Nat.lt_of_le_of_lt (Nat.add_le_add_right (List.countP_le_length) 1) hq
    rw [countDown_tally hcount hbound, Nat.add_sub_cancel]
  · have hne : (e.source == s) = false := beq_false_of_ne (Ne.symm hs)
    rw [find?_countDown_of_ne _ hs, h s, List.countP_cons, hne]
    rfl

theorem tally_isSome (n : Nat) : (tally n).isSome = decide (0 < n) := by
  by_cases hzero : n = 0 <;> simp [tally, hzero, Nat.pos_iff_ne_zero]

theorem tally_getD_toNat {n : Nat} (hn : n < 2 ^ 32) : ((tally n).getD 0).toNat = n := by
  by_cases hzero : n = 0
  · simp [tally, hzero]
  · simp [tally, hzero]
    omega

/-! ## The ring holds the queue -/

/-- The ring holds the queue `t`: it keeps its shape, reads back the queue's entries oldest
first, has as many slots as the queue's capacity and counts each source's entries; the queue
is whole and holds fewer than `2^32` entries, so that no count wraps around. -/
structure Holds (r : Ring) (t : InFlight) : Prop extends r.Valid where
  entries : r.entries = t.entries
  capacity : r.capacity = t.capacity
  counts : Tallies r.counts t.entries
  small : t.entries.length < 2 ^ 32
  whole : t.broken = false

variable {t : InFlight}

theorem Holds.len (h : Holds r t) : r.len = t.size := by
  rw [InFlight.size, ← h.entries, length_entries]

theorem Holds.oldest (h : Holds r t) : r.oldest? = t.oldest? := by
  rw [InFlight.oldest?, ← h.entries, head?_entries h.toValid]

theorem Holds.countFor (h : Holds r t) (s : SourceId) : r.countFor s = t.countFor s := by
  rw [Ring.countFor, Keyed.findD, h.counts s, InFlight.countFor]
  exact tally_getD_toNat (Nat.lt_of_le_of_lt List.countP_le_length h.small)

theorem Holds.holds (h : Holds r t) (s : SourceId) : r.holds s = t.holds s := by
  rw [Ring.holds, Keyed.contains, h.counts s, tally_isSome, InFlight.holds, List.any_eq]
  simp [List.countP_pos_iff]

/-- The check reads the head slot where the queue reads its first entry, and the counts where
the queue looks for the source. -/
theorem Holds.check (h : Holds r t) (source : SourceId) (sequence : UInt64) (kind : EventKind) :
    r.check source sequence kind = t.check source sequence kind := by
  unfold Ring.check InFlight.check
  rw [h.holds]
  split
  · rfl
  · -- the source has an entry in flight, so the queue has a first entry, in the head slot
    rename_i hgo
    obtain ⟨e, rest, hq⟩ : ∃ e rest, t.entries = e :: rest := by
      cases hq : t.entries with
      | nil => simp [InFlight.holds, hq] at hgo
      | cons e rest => exact ⟨e, rest, rfl⟩
    have hhead : r.slots.getD r.head default = e := by
      have hold := h.oldest
      rw [InFlight.oldest?, hq, Ring.oldest?, if_pos (by rw [h.len, InFlight.size, hq]; simp)]
        at hold
      exact Option.some.inj hold
    rw [hq, hhead]

/-- A check that goes through tells the acknowledgement whether the head moves on. -/
theorem acknowledge_of_check {source : SourceId} {sequence : UInt64} {kind : EventKind}
    {b : Bool} (hc : r.check source sequence kind = .ok b) :
    r.acknowledge source sequence kind =
      .ok (b, if b then ⟨r.slots, (r.head + 1) &&& (r.capacity - 1), r.len - 1,
        Ring.countDown r.counts source⟩ else r) := by
  unfold Ring.acknowledge
  cases b <;> simp [hc]

/-- A check that acknowledges names the source of the queue's first entry. -/
theorem source_of_check (source : SourceId) (sequence : UInt64) (kind : EventKind)
    (hc : t.check source sequence kind = .ok true) :
    ∃ e rest, t.entries = e :: rest ∧ e.source = source := by
  unfold InFlight.check at hc
  split at hc
  · cases hc
  · split at hc
    · cases hc
    · rename_i e rest hq
      refine ⟨e, rest, hq, ?_⟩
      by_contra hne
      simp [hne] at hc

/-! ## One operation -/

/-- Writing a command into a ring with room for it. -/
theorem Holds.push (h : Holds r t) (hlt : r.len < r.capacity) (hsmall : t.size + 1 < 2 ^ 32)
    (e : InFlightEntry) :
    ∃ p, r.push e = some p ∧ Holds p ⟨t.entries ++ [e], t.capacity, false⟩ := by
  have hp : r.push e = some ⟨r.slots.set (r.slot r.len) e, r.head, r.len + 1,
      Ring.countUp r.counts e.source⟩ := if_neg (Nat.pos_iff_ne_zero.1 h.pos)
  have hcap := capacity_push hp
  refine ⟨_, hp, ?_⟩
  exact {
    pow := hcap ▸ h.pow
    head_lt := hcap ▸ h.head_lt
    len_le := hcap ▸ hlt
    entries := by rw [entries_write h.toValid hlt, h.entries]
    capacity := hcap.trans h.capacity
    counts := (h.counts.countUp e).perm (List.perm_append_singleton e t.entries).symm
    small := by rw [List.length_append, List.length_singleton]; exact hsmall
    whole := rfl }

/-- Doubling a full ring, whose entries are fewer than `2^32`. -/
theorem Holds.grow (h : Holds r t) (hfull : r.len = r.capacity) :
    ∃ g, r.grow = some g ∧ Holds g ⟨t.entries, 2 * t.capacity, false⟩ ∧ g.len = r.len := by
  have hsmall : r.capacity < 2 ^ 32 := by
    rw [← hfull, h.len]
    exact h.small
  have hfit : slotsFit (2 * r.capacity) = true := by
    simp only [slotsFit, decide_eq_true_eq]
    omega
  have hg : r.grow = some ⟨r.slots.drop r.head ++ r.slots.take r.head ++
      List.replicate r.capacity default, 0, r.len, r.counts⟩ := if_pos hfit
  have hcap := capacity_grow hg
  refine ⟨_, hg, ?_, rfl⟩
  exact {
    pow := by
      rw [hcap, Nat.mul_comm]
      exact Nat.isPowerOfTwo_mul_two_of_isPowerOfTwo h.pow
    head_lt := by rw [hcap]; exact Nat.mul_pos (by decide) h.pos
    len_le := by
      rw [hcap]
      show r.len ≤ 2 * r.capacity
      have := h.len_le
      omega
    entries := (entries_grown h.toValid).trans h.entries
    capacity := by rw [hcap, h.capacity]
    counts := h.counts
    small := h.small
    whole := rfl }

theorem Holds.send (h : Holds r t) (hsmall : t.size + 1 < 2 ^ 32) (source : SourceId)
    (sequence : UInt64) (time : Timestamp) :
    ∃ r', r.send source sequence time = some r' ∧ Holds r' (t.send source sequence time) := by
  have hlen := h.len
  have hcap := h.capacity
  have hpos := h.pos
  by_cases hfull : r.len = r.capacity
  · -- a full ring doubles before the write
    obtain ⟨g, hg, hgh, hglen⟩ := h.grow hfull
    have hgcap := capacity_grow hg
    obtain ⟨p, hp, hph⟩ := hgh.push (by omega) hsmall ⟨source, sequence, time⟩
    refine ⟨p, by rw [Ring.send, if_pos hfull, hg, Option.bind_some, hp], ?_⟩
    have hq : t.send source sequence time =
        ⟨t.entries ++ [⟨source, sequence, time⟩], 2 * t.capacity, false⟩ := by
      simp only [InFlight.send, h.whole, Bool.false_or]
      rw [if_pos (by rw [InFlight.size] at hlen; omega)]
      simp only [beq_eq_false_iff_ne.2 (by omega : t.capacity ≠ 0)]
    rw [hq]
    exact hph
  · obtain ⟨p, hp, hph⟩ := h.push (by have := h.len_le; omega) hsmall ⟨source, sequence, time⟩
    refine ⟨p, by rw [Ring.send, if_neg hfull, Option.bind_some, hp], ?_⟩
    have hq : t.send source sequence time =
        ⟨t.entries ++ [⟨source, sequence, time⟩], t.capacity, false⟩ := by
      simp only [InFlight.send, h.whole, Bool.false_or]
      rw [if_neg (by rw [InFlight.size] at hlen; omega)]
      simp only [beq_eq_false_iff_ne.2 (by omega : t.capacity ≠ 0)]
    rw [hq]
    exact hph

/-- An event the check lets through moves the head on when it acknowledges. -/
theorem Holds.advance (h : Holds r t) {source : SourceId} {sequence : UInt64}
    {kind : EventKind} (hc : t.check source sequence kind = .ok true) :
    Holds ⟨r.slots, (r.head + 1) &&& (r.capacity - 1), r.len - 1, Ring.countDown r.counts source⟩
      { t with entries := t.entries.tail } := by
  obtain ⟨e, rest, hq, hsrc⟩ := source_of_check source sequence kind hc
  have hmask := and_pred_eq_mod h.pow
  exact {
    pow := h.pow
    head_lt := by
      show (r.head + 1) &&& (r.capacity - 1) < r.capacity
      rw [hmask]
      exact Nat.mod_lt _ h.pos
    len_le := Nat.le_trans (Nat.sub_le _ _) h.len_le
    entries := by rw [entries_advance h.toValid, h.entries]
    capacity := h.capacity
    counts := by
      rw [hq, List.tail_cons, ← hsrc]
      have hcounts := h.counts
      rw [hq] at hcounts
      exact hcounts.countDown (by have := h.small; rw [hq, List.length_cons] at this; exact this)
    small := Nat.lt_of_le_of_lt (by simp) h.small
    whole := h.whole }

theorem Holds.undo (h : Holds r t) (source : SourceId) (sequence : UInt64) :
    (r.undo source sequence).1 = (t.undo source sequence).1 ∧
      Holds (r.undo source sequence).2 (t.undo source sequence).2 := by
  have hlast : t.entries.getLast? = if r.len = 0 then none else some (r.entryAt (r.len - 1)) := by
    rw [← h.entries, getLast?_entries]
  unfold Ring.undo InFlight.undo
  by_cases hzero : r.len = 0
  · rw [if_pos hzero] at hlast ⊢
    rw [hlast]
    exact ⟨rfl, h⟩
  · rw [if_neg hzero] at hlast ⊢
    rw [hlast]
    dsimp only
    by_cases hmatch : (r.entryAt (r.len - 1)).source = source ∧
        (r.entryAt (r.len - 1)).sequence = sequence
    · rw [if_pos hmatch, if_pos hmatch]
      refine ⟨rfl, ?_⟩
      -- the queue is its front and the newest entry, which is of the source taken back
      have hne : t.entries ≠ [] := by
        intro hnil
        rw [hnil] at hlast
        cases hlast
      have hsplit := List.dropLast_append_getLast hne
      have hlast' : t.entries.getLast hne = r.entryAt (r.len - 1) := by
        rw [List.getLast?_eq_some_getLast hne] at hlast
        exact Option.some.inj hlast
      have hcounts : Tallies r.counts (r.entryAt (r.len - 1) :: t.entries.dropLast) := by
        apply h.counts.perm
        rw [← hlast']
        conv_lhs => rw [← hsplit]
        exact List.perm_append_singleton _ _
      exact {
        pow := h.pow
        head_lt := h.head_lt
        len_le := Nat.le_trans (Nat.sub_le _ _) h.len_le
        entries := by rw [entries_shrink, h.entries]
        capacity := h.capacity
        counts := by
          rw [← hmatch.1]
          exact hcounts.countDown (by
            have := h.small
            rw [← hsplit, List.length_append, List.length_singleton] at this
            exact this)
        small := Nat.lt_of_le_of_lt (by simp) h.small
        whole := h.whole }
    · rw [if_neg hmatch, if_neg hmatch]
      exact ⟨rfl, h⟩

/-- Every operation keeps the ring holding the queue and answers as the queue does; a send
needs room below `2^32` entries. -/
theorem Holds.step (h : Holds r t) (op : Op)
    (hsmall : op.isSend → t.size + 1 < 2 ^ 32) :
    ∃ r', r.step op = some ((t.step op).1, r') ∧ Holds r' (t.step op).2 := by
  cases op with
  | sent source sequence time =>
    obtain ⟨r', hr', hh⟩ := h.send (hsmall rfl) source sequence time
    exact ⟨r', by simp [Ring.step, InFlight.step, hr'], hh⟩
  | event source sequence kind =>
    have hc := h.check source sequence kind
    rcases hcheck : t.check source sequence kind with err | b
    · have hr : r.acknowledge source sequence kind = .error err := by
        simp [Ring.acknowledge, hc, hcheck]
      have ht : t.step (.event source sequence kind) = (.verdict (.error err), t) := by
        simp [InFlight.step, InFlight.acknowledge, hcheck]
      rw [ht]
      exact ⟨r, by simp [Ring.step, hr], h⟩
    · rw [hcheck] at hc
      rw [Ring.step, acknowledge_of_check hc, InFlight.step, InFlight.acknowledge_of_check hcheck]
      cases b with
      | false => exact ⟨r, rfl, h⟩
      | true => exact ⟨_, rfl, h.advance hcheck⟩
  | check source sequence kind =>
    exact ⟨r, by simp [Ring.step, InFlight.step, h.check], h⟩
  | undo source sequence =>
    obtain ⟨hb, hh⟩ := h.undo source sequence
    exact ⟨_, by simp only [Ring.step, InFlight.step, hb], hh⟩

theorem size_step_le (t : InFlight) (op : Op) :
    (t.step op).2.size ≤ t.size + if op.isSend then 1 else 0 := by
  cases op with
  | sent source sequence time => simp [InFlight.step, InFlight.size, Op.isSend]
  | event source sequence kind =>
    rcases hcheck : t.check source sequence kind with err | b
    · simp [InFlight.step, InFlight.acknowledge, hcheck]
    · rw [InFlight.step, InFlight.acknowledge_of_check hcheck]
      cases b <;> simp [InFlight.size, Op.isSend]
  | check source sequence kind => simp [InFlight.step]
  | undo source sequence =>
    simp only [InFlight.step, InFlight.undo]
    split
    · split <;> simp [InFlight.size, Op.isSend]
    · simp

/-- A run of operations keeps the ring holding the queue and answers as the queue does, as long
as the entries in flight and the sends to come stay below `2^32`. -/
theorem Holds.run (h : Holds r t) (ops : List Op) (hsends : t.size + sends ops < 2 ^ 32) :
    ∃ r', r.run ops = some ((t.run ops).1, r') ∧ Holds r' (t.run ops).2 := by
  induction ops generalizing r t with
  | nil => exact ⟨r, rfl, h⟩
  | cons op ops ih =>
    have hsend : sends (op :: ops) = sends ops + if op.isSend then 1 else 0 := by
      rw [sends, List.countP_cons]
      rfl
    obtain ⟨r₁, hr₁, hh₁⟩ := h.step op (fun hs => by rw [hsend, if_pos hs] at hsends; omega)
    have hsize := size_step_le t op
    obtain ⟨r₂, hr₂, hh₂⟩ := ih hh₁ (by rw [hsend] at hsends; omega)
    refine ⟨r₂, ?_, hh₂⟩
    simp [Ring.run, InFlight.run, hr₁, hr₂]

/-- The empty ring holds the empty queue of the same room. -/
theorem holds_withCapacity {c : Nat} (hc : c ≤ 2 ^ 58) :
    ∃ r₀, withCapacity c = some r₀ ∧ Holds r₀ (InFlight.withCapacity c) := by
  have hroom : (roomFor c).isPowerOfTwo := by
    rw [roomFor_of_le (by omega)]
    exact Nat.isPowerOfTwo_nextPowerOfTwo _
  refine ⟨_, if_pos (fits_of_le hc), ?_⟩
  exact {
    pow := by simpa [capacity] using hroom
    head_lt := by simpa [capacity] using Nat.pos_of_isPowerOfTwo hroom
    len_le := Nat.zero_le _
    entries := rfl
    capacity := by simp [Ring.capacity, InFlight.withCapacity]
    counts := fun _ => rfl
    small := by simp [InFlight.withCapacity]
    whole := rfl }

end Ring

/-- The ring refines the queue. From an empty tracker of capacity `c`, up to `2^58`, every run
of operations with fewer than `2^32` sends goes through on the ring and answers as the queue
does; at its end the ring holds the queue's entries oldest first, its length, its oldest entry
and each source's count, and its slots are a power of two, at least `max c 2` and the
entries, and never fewer than before any operation that follows. -/
theorem ring_refines_queue {c : Nat} (hc : c ≤ 2 ^ 58) (ops : List Op)
    (hsends : sends ops < 2 ^ 32) :
    ∃ r₀ r, Ring.withCapacity c = some r₀ ∧
      r₀.run ops = some (((withCapacity c).run ops).1, r) ∧
      r.entries = ((withCapacity c).run ops).2.entries ∧
      r.len = ((withCapacity c).run ops).2.size ∧
      r.oldest? = ((withCapacity c).run ops).2.oldest? ∧
      (∀ s, r.countFor s = ((withCapacity c).run ops).2.countFor s ∧
        (r.holds s = true ↔ 0 < ((withCapacity c).run ops).2.countFor s)) ∧
      r.capacity.isPowerOfTwo ∧ max c 2 ≤ r.capacity ∧ r.len ≤ r.capacity ∧
      r₀.capacity ≤ r.capacity ∧
      ∀ op reply r', r.step op = some (reply, r') → r.capacity ≤ r'.capacity := by
  obtain ⟨r₀, hr₀, h₀⟩ := Ring.holds_withCapacity hc
  obtain ⟨r, hrun, h⟩ := h₀.run ops (by simpa [InFlight.withCapacity, InFlight.size] using hsends)
  have hroom : max c 2 ≤ r₀.capacity := by
    rw [h₀.capacity, InFlight.withCapacity, roomFor_of_le (by omega)]
    exact le_nextPowerOfTwo _
  have hcap := Ring.capacity_le_run hrun
  refine ⟨r₀, r, hr₀, hrun, h.entries, h.len, h.oldest, fun s => ⟨h.countFor s, ?_⟩, h.pow,
    Nat.le_trans hroom hcap, h.len_le, hcap, fun _ _ _ => Ring.capacity_le_step⟩
  rw [h.holds, InFlight.holds, InFlight.countFor, List.countP_pos_iff, List.any_eq_true]

/-- A tracker of capacity five, after one send. -/
theorem ring_refines_queue_after_one_send :
    5 ≤ 2 ^ 58 ∧ sends [.sent 1 1 0] < 2 ^ 32 ∧
    ∃ r₀ r, Ring.withCapacity 5 = some r₀ ∧
      r₀.run [.sent 1 1 0] = some (((withCapacity 5).run [.sent 1 1 0]).1, r) ∧
      r.entries = ((withCapacity 5).run [.sent 1 1 0]).2.entries ∧
      r.len = ((withCapacity 5).run [.sent 1 1 0]).2.size ∧
      r.oldest? = ((withCapacity 5).run [.sent 1 1 0]).2.oldest? ∧
      (∀ s, r.countFor s = ((withCapacity 5).run [.sent 1 1 0]).2.countFor s ∧
        (r.holds s = true ↔ 0 < ((withCapacity 5).run [.sent 1 1 0]).2.countFor s)) ∧
      r.capacity.isPowerOfTwo ∧ max 5 2 ≤ r.capacity ∧ r.len ≤ r.capacity ∧
      r₀.capacity ≤ r.capacity ∧
      ∀ op reply r', r.step op = some (reply, r') → r.capacity ≤ r'.capacity :=
  ⟨by decide, by decide, ring_refines_queue (by decide) [.sent 1 1 0] (by decide)⟩

/-- Asking for room for `2^63 + 1` commands wraps the room around to a ring without slots:
its capacity is no power of two and below the room asked for, and the first send into it
panics. -/
theorem withCapacity_past_two_pow_63 :
    ∃ r, Ring.withCapacity (2 ^ 63 + 1) = some r ∧ r.capacity = 0 ∧
      r.step (.sent 1 1 0) = none := by
  have hroom : roomFor (2 ^ 63 + 1) = 0 := roomFor_of_gt (by omega) (by omega)
  have hfits : fits (2 ^ 63 + 1) = true := by
    rw [fits, hroom]
    rfl
  refine ⟨⟨[], 0, 0, []⟩, ?_, rfl, rfl⟩
  rw [Ring.withCapacity, if_pos hfits, hroom]
  rfl

end EventSourcing.InFlight
