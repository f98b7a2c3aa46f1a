import Mathlib.Data.List.Induction
import EventSourcing.MessageLog
import EventSourcing.InFlight
import EventSourcing.Record.Codec

/-!
# What the command log holds

Views of the command log that the engine's invariants are stated in. `MessageLog.readCommands`
is the commands its records hold, in log order. `Command.highest` is the highest sequence of
a source among some commands: the watermark deduplication keeps for the source once the
dispatcher has passed them. `InFlight.pending` is the commands from a position on that the
dispatcher will process, as the tracker of commands in flight holds them: each is above its
source's watermark and above every earlier sequence of its source in the log.
-/

namespace EventSourcing

namespace Command

/-- The highest sequence among the commands of a source, 0 for a source with none: the
watermark deduplication keeps for it. -/
def highest (cs : List Command) (source : SourceId) : UInt64 :=
  cs.foldl (fun m c => if c.source = source ∧ m < c.sequence then c.sequence else m) 0

@[simp]
theorem highest_nil (source : SourceId) : highest [] source = 0 := rfl

theorem highest_append_singleton (cs : List Command) (c : Command) (source : SourceId) :
    highest (cs ++ [c]) source =
      if c.source = source ∧ highest cs source < c.sequence then c.sequence
      else highest cs source := by
  unfold highest
  rw [List.foldl_append]
  rfl

/-- More commands never lower the highest sequence. -/
theorem highest_le_append (cs ds : List Command) (source : SourceId) :
    highest cs source ≤ highest (cs ++ ds) source := by
  induction ds using List.reverseRecOn with
  | nil => rw [List.append_nil]; exact UInt64.le_refl _
  | append_singleton ds d ih =>
    rw [← List.append_assoc, highest_append_singleton]
    split
    · rename_i hd
      exact UInt64.le_of_lt (UInt64.lt_of_le_of_lt ih hd.2)
    · exact ih

theorem highest_take_le (cs : List Command) {i j : Nat} (h : i ≤ j) (source : SourceId) :
    highest (cs.take i) source ≤ highest (cs.take j) source :=
  calc highest (cs.take i) source
      = highest ((cs.take j).take i) source := by rw [List.take_take, Nat.min_eq_left h]
    _ ≤ highest ((cs.take j).take i ++ (cs.take j).drop i) source := highest_le_append _ _ _
    _ = highest (cs.take j) source := by rw [List.take_append_drop]

/-- Every command is at or below the highest sequence of its source. -/
theorem le_highest_of_mem {cs : List Command} {c : Command} (h : c ∈ cs) :
    c.sequence ≤ highest cs c.source := by
  obtain ⟨pre, post, rfl⟩ := List.append_of_mem h
  have hc : c.sequence ≤ highest (pre ++ [c]) c.source := by
    rw [highest_append_singleton]
    split
    · exact UInt64.le_refl _
    · rename_i hle
      exact UInt64.not_lt.1 fun hlt => hle ⟨rfl, hlt⟩
  calc c.sequence ≤ highest (pre ++ [c]) c.source := hc
    _ ≤ highest (pre ++ [c] ++ post) c.source := highest_le_append _ _ _
    _ = highest (pre ++ c :: post) c.source := by rw [List.append_assoc, List.singleton_append]

/-- The highest sequence of a source is 0 or the sequence of one of the commands. -/
theorem highest_eq_zero_or_mem (cs : List Command) (source : SourceId) :
    highest cs source = 0 ∨ ∃ c ∈ cs, c.sequence = highest cs source := by
  induction cs using List.reverseRecOn with
  | nil => exact .inl rfl
  | append_singleton cs c ih =>
    rw [highest_append_singleton]
    split
    · exact .inr ⟨c, List.mem_append_right _ (List.mem_singleton_self c), rfl⟩
    · rcases ih with h | ⟨d, hd, hseq⟩
      · exact .inl h
      · exact .inr ⟨d, List.mem_append_left _ hd, hseq⟩

/-- Below a bound that every sequence is below, so is every highest sequence. -/
theorem highest_toNat_lt {cs : List Command} {bound : Nat} (hpos : 0 < bound)
    (h : ∀ c ∈ cs, c.sequence.toNat < bound) (source : SourceId) :
    (highest cs source).toNat < bound := by
  rcases highest_eq_zero_or_mem cs source with h0 | ⟨c, hc, hseq⟩
  · rw [h0]
    exact hpos
  · rw [← hseq]
    exact h c hc

/-- The entry the tracker keeps for a command in flight. -/
def entry (c : Command) : InFlightEntry := ⟨c.source, c.sequence, c.time⟩

end Command

namespace MessageLog

/-- The commands the records of a log hold, in log order; a record that does not read is
passed over. -/
def readCommands (log : MessageLog) : List Command :=
  log.messages.toList.filterMap fun b => (Command.decode b).toOption

/-- Every record of the log reads as a command. -/
def Readable (log : MessageLog) : Prop :=
  ∀ b ∈ log.messages.toList, ∃ c, Command.decode b = .ok c

theorem map_decode_of_readable {bs : List Bytes} (h : ∀ b ∈ bs, ∃ c, Command.decode b = .ok c) :
    bs.map Command.decode = (bs.filterMap fun b => (Command.decode b).toOption).map .ok := by
  induction bs with
  | nil => rfl
  | cons b rest ih =>
    obtain ⟨c, hc⟩ := h b (List.mem_cons_self ..)
    rw [List.map_cons, ih fun b hb => h b (List.mem_cons_of_mem _ hb), List.filterMap_cons, hc]
    rfl

theorem getElem?_readCommands {log : MessageLog} (h : log.Readable) {i : Nat} {b : Bytes}
    {c : Command} (hb : log.messages.toList[i]? = some b) (hc : Command.decode b = .ok c) :
    log.readCommands[i]? = some c := by
  have hmap := congrArg (·[i]?) (map_decode_of_readable h)
  simp only [List.getElem?_map, hb, hc, Option.map_some] at hmap
  unfold readCommands
  cases hr : (log.messages.toList.filterMap fun b => (Command.decode b).toOption)[i]? with
  | none => rw [hr] at hmap; cases hmap
  | some c' =>
    rw [hr] at hmap
    simp only [Option.map_some, Option.some.injEq, Except.ok.injEq] at hmap
    rw [hmap]

theorem length_readCommands {log : MessageLog} (h : log.Readable) :
    log.readCommands.length = log.length := by
  have hlen := congrArg List.length (map_decode_of_readable h)
  simp only [List.length_map, Array.length_toList] at hlen
  exact hlen.symm

/-- A record that reads, appended to a log, adds its command to the log's commands. -/
theorem readCommands_push (log : MessageLog) {b : Bytes} {c : Command}
    (h : Command.decode b = .ok c) :
    { log with messages := log.messages.push b }.readCommands = log.readCommands ++ [c] := by
  simp [readCommands, h, Except.toOption]

end MessageLog

namespace InFlight

/-- The commands of `rest`, which follow the commands `pre` in the log, that the dispatcher
will process, as tracker entries in log order: those above their source's watermark `w` and
above every sequence of their source before them. -/
def pendingAfter (w : SourceId → UInt64) : List Command → List Command → List InFlightEntry
  | _, [] => []
  | pre, c :: rest =>
    (if w c.source < c.sequence ∧ Command.highest pre c.source < c.sequence then [c.entry]
     else []) ++ pendingAfter w (pre ++ [c]) rest

/-- The commands of `cs` from position `p` on that the dispatcher will process, with `w` the
watermarks, as tracker entries in log order. -/
def pending (w : SourceId → UInt64) (cs : List Command) (p : Nat) : List InFlightEntry :=
  pendingAfter w (cs.take p) (cs.drop p)

variable (w : SourceId → UInt64)

theorem pendingAfter_append_singleton (pre rest : List Command) (c : Command) :
    pendingAfter w pre (rest ++ [c]) = pendingAfter w pre rest ++
      (if w c.source < c.sequence ∧ Command.highest (pre ++ rest) c.source < c.sequence then
        [c.entry] else []) := by
  induction rest generalizing pre with
  | nil => simp [pendingAfter]
  | cons d rest ih => simp [pendingAfter, ih, List.append_assoc]

/-- A command appended to the log is pending when it is above its source's watermark and every
sequence of its source in the log. -/
theorem pending_append_singleton {cs : List Command} {p : Nat} (hp : p ≤ cs.length)
    (c : Command) :
    pending w (cs ++ [c]) p = pending w cs p ++
      (if w c.source < c.sequence ∧ Command.highest cs c.source < c.sequence then [c.entry]
       else []) := by
  unfold pending
  rw [List.take_append_of_le_length hp, List.drop_append_of_le_length hp,
    pendingAfter_append_singleton, List.take_append_drop]

/-- The pending commands from a position are the command there, if it is pending, and those
after it. -/
theorem pending_eq_of_getElem? {cs : List Command} {p : Nat} {c : Command} (h : cs[p]? = some c) :
    pending w cs p =
      (if w c.source < c.sequence ∧ Command.highest (cs.take p) c.source < c.sequence then
        [c.entry] else []) ++ pending w cs (p + 1) := by
  obtain ⟨hlt, rfl⟩ := List.getElem?_eq_some_iff.1 h
  unfold pending
  rw [List.drop_eq_getElem_cons hlt, List.take_add_one, List.getElem?_eq_getElem hlt]
  rfl

theorem pending_of_length_le {cs : List Command} {p : Nat} (h : cs.length ≤ p) :
    pending w cs p = [] := by
  simp [pending, List.drop_eq_nil_of_le h, pendingAfter]

/-- Positions whose commands are not pending can be passed over. -/
theorem pending_skip {cs : List Command} {p : Nat} : ∀ n,
    (∀ j c, p ≤ j → j < p + n → cs[j]? = some c →
      ¬(w c.source < c.sequence ∧ Command.highest (cs.take j) c.source < c.sequence)) →
    pending w cs p = pending w cs (p + n)
  | 0, _ => rfl
  | n + 1, h => by
    rw [pending_skip n fun j c hp hj => h j c hp (by omega)]
    cases hc : cs[p + n]? with
    | none =>
      have hlen : cs.length ≤ p + n := List.getElem?_eq_none_iff.1 hc
      rw [pending_of_length_le w hlen, pending_of_length_le w (by omega)]
    | some c =>
      rw [pending_eq_of_getElem? w hc, if_neg (h _ c (by omega) (by omega) hc), List.nil_append,
        Nat.add_assoc]

/-- Watermarks at or below the highest sequences before the commands decide nothing. -/
theorem pendingAfter_congr {w' : SourceId → UInt64} : ∀ {pre : List Command} (rest : List Command),
    (∀ x, w x ≤ Command.highest pre x) → (∀ x, w' x ≤ Command.highest pre x) →
    pendingAfter w pre rest = pendingAfter w' pre rest
  | _, [], _, _ => rfl
  | pre, c :: rest, hw, hw' => by
    -- above the highest sequence so far, a command is above the watermark too
    have hcond : ∀ v : SourceId → UInt64, (∀ x, v x ≤ Command.highest pre x) →
        ((v c.source < c.sequence ∧ Command.highest pre c.source < c.sequence) ↔
          Command.highest pre c.source < c.sequence) :=
      fun v hv => ⟨And.right, fun hlt => ⟨UInt64.lt_of_le_of_lt (hv _) hlt, hlt⟩⟩
    have hmono : ∀ x, Command.highest pre x ≤ Command.highest (pre ++ [c]) x :=
      fun x => Command.highest_le_append _ _ _
    simp only [pendingAfter, hcond w hw, hcond w' hw',
      pendingAfter_congr rest (fun x => UInt64.le_trans (hw x) (hmono x))
        (fun x => UInt64.le_trans (hw' x) (hmono x))]

theorem pending_congr {w' : SourceId → UInt64} {cs : List Command} {p : Nat}
    (hw : ∀ x, w x ≤ Command.highest (cs.take p) x)
    (hw' : ∀ x, w' x ≤ Command.highest (cs.take p) x) : pending w cs p = pending w' cs p :=
  pendingAfter_congr w _ hw hw'

end InFlight

end EventSourcing
