import Mathlib
import EventSourcing.Proofs.Gapless
import EventSourcing.Proofs.Reordering

/-!
# The stock follows the commands the warehouse took

The warehouse decides a command against the level its applier last stored. A command whose
payload is the text `<item>:<q>`, with `q` a positive signed word, is taken when it orders no
more than the item's level or restocks it, and when the line of the new level fits in an event:
it changes the item's level by `-q` or by `q` (`Warehouse.change`, `Warehouse.change_eq_some`).
Its transaction seals to one commit event of the line `<item>:<level>`, and that of any other
command to one rollback (`Warehouse.Seals`); the applier reads the line back and stores the level
(`Warehouse.commit`).

Over every run of the inventory's engines, whatever the sources the host sends from, the event
log is the ledger of the commands the dispatcher processed, one sealed event each, and the
warehouse is what these commands made of it, one after the other (`Inventory.Ledgered`). Levels
are signed words: a restock past the largest one wraps around to a negative level, so a level is
the sum of its item's changes in wrapping arithmetic. Where no restock passes the largest word,
every level is at or above zero and is the exact sum (`Inventory.stock_follows_ledger`).
-/

namespace EventSourcing

namespace Text

/-- A natural number within a signed width reads back negated after a minus sign. -/
theorem parseInteger_neg_toString (w : Width) (hw : w.signed = true) {n : Nat}
    (h : n ≤ w.maxNegative) : parseInteger w ("-" ++ toString n) = .ok (-(n : Int)) := by
  have hdigits : ∀ c ∈ Nat.toDigits 10 n, c.isDigit = true :=
    fun c hc => Nat.isDigit_of_mem_toDigits (by decide) (by decide) hc
  have hread := readDigits_eq_ok w.maxNegative .tooSmall (Nat.toDigits 10 n) 0 hdigits
    (by rw [Nat.ofDigitChars_ten_toDigits]; exact h)
  rw [Nat.ofDigitChars_ten_toDigits] at hread
  unfold parseInteger
  rw [String.toList_append, Nat.toString_eq_ofList_toDigits, String.toList_ofList]
  obtain ⟨c, rest, hcons⟩ := List.exists_cons_of_ne_nil (Nat.toDigits_ne_nil (b := 10) (n := n))
  rw [hcons] at hread ⊢
  simp [hw, hread]

/-- The decimal of a negative word is a minus sign and the decimal of its magnitude. -/
theorem toString_of_neg {l : Int64} (h : l < 0) :
    ∃ m : Nat, l.toInt = -((m + 1 : Nat) : Int) ∧ toString l = "-" ++ toString (m + 1) := by
  have hneg : l.toInt < 0 := Int64.lt_iff_toInt_lt.1 h
  obtain ⟨m, hm⟩ : ∃ m : Nat, l.toInt = -((m + 1 : Nat) : Int) := ⟨(-l.toInt - 1).toNat, by omega⟩
  refine ⟨m, hm, ?_⟩
  show toString l.toInt = _
  rw [hm]
  rfl

theorem parseInt64_toString_of_neg {l : Int64} (h : l < 0) : parseInt64 (toString l) = .ok l := by
  have hge := l.le_toInt
  obtain ⟨m, hm, hstring⟩ := toString_of_neg h
  unfold parseInt64
  rw [hstring, parseInteger_neg_toString .int64 rfl (by show m + 1 ≤ 9223372036854775808; omega)]
  show Except.ok (Int64.ofInt _) = _
  rw [← hm, Int64.ofInt_toInt]

/-- Every signed word reads back from its decimal. -/
theorem parseInt64_toString_word (l : Int64) : parseInt64 (toString l) = .ok l := by
  rcases Int64.le_or_lt 0 l with h | h
  · exact parseInt64_toString_of_nonneg h
  · exact parseInt64_toString_of_neg h

end Text

namespace Processor

variable {W : Type}

/-- A chain of one processor, on a transaction that is not aborted, leaves what the processor
leaves, and goes through exactly when the processor does. -/
theorem runAll_single (c : Command) (base : BaseState) (p : Processor W) (w : W) (r : Router)
    (hr : r.aborted = false) :
    (runAll c base [p] w r).2 = (p.process c base w r).2 ∧
      ((runAll c base [p] w r).1 = .ok () ↔ (p.process c base w r).1 = .ok ()) := by
  rw [runAll, if_neg (by simp [hr])]
  rcases p.process c base w r with ⟨(f | m) | u, w', r'⟩ <;> simp [runAll]

end Processor

namespace Warehouse

theorem colon_not_mem_toString_word (l : Int64) : ':' ∉ (toString l).toList := by
  rcases Int64.le_or_lt 0 l with h | h
  · rw [toString_of_nonneg h]
    exact colon_not_mem_toString _
  · obtain ⟨m, -, hstring⟩ := Text.toString_of_neg h
    rw [hstring, String.toList_append]
    intro hmem
    rcases List.mem_append.1 hmem with hmem | hmem
    · simp at hmem
    · exact colon_not_mem_toString _ hmem

/-- The first piece of a text split at colons holds no colon. -/
theorem colon_not_mem_of_splitOn : ∀ {l item : List Char} {rest : List (List Char)},
    l.splitOn ':' = item :: rest → ':' ∉ item
  | [], item, rest, h => by
    rw [List.splitOn_nil] at h
    cases h
    simp
  | c :: l, item, rest, h => by
    rw [List.splitOn_cons_eq_if_modifyHead] at h
    split at h
    · cases h
      simp
    · rename_i hc
      obtain ⟨item', rest', hsplit⟩ := List.exists_cons_of_ne_nil (List.splitOn_ne_nil ':' l)
      rw [hsplit] at h
      simp only [List.modifyHead_cons, List.cons.injEq] at h
      rw [← h.1]
      simp only [List.mem_cons, not_or]
      exact ⟨fun heq => hc (by subst heq; rfl), colon_not_mem_of_splitOn hsplit⟩

/-- The item of a line that reads holds no colon. -/
theorem colon_not_mem_of_parseLine {text item : String} {q : Int64}
    (h : parseLine text = .ok (item, q)) : ':' ∉ item.toList := by
  unfold parseLine at h
  split at h
  · rename_i itemL rest _ hsplit
    dsimp only at h
    split at h
    · cases h
      rw [String.toList_ofList]
      exact colon_not_mem_of_splitOn hsplit
    · cases h
  · cases h

/-- The line of an item with no colon reads back as the item and the level, whatever the level. -/
theorem parseLine_line_of_colon {item : String} (hitem : ':' ∉ item.toList) (l : Int64) :
    parseLine (line item l) = .ok (item, l) :=
  parseLine_line hitem (colon_not_mem_toString_word l) (Text.parseInt64_toString_word l)

theorem level_setLevel (w : Warehouse) (item item' : String) (n : Int64) :
    (w.setLevel item n).level item' = if item' = item then n else w.level item' := by
  unfold level setLevel Keyed.findD
  split
  · rename_i h
    rw [h, Keyed.find?_insert_self]
    rfl
  · rename_i h
    rw [Keyed.find?_insert_of_ne _ _ _ _ h]

section Change

variable {w : Warehouse} {c : Command} {e : Event} {item : String} {d : Int64}

/-- What the warehouse makes of the line of a command of the given payload type against its
stock `w`: the item and the change of its level, when it takes it. -/
def lineChange (w : Warehouse) (payloadType : PayloadType) (text : String) :
    Option (String × Int64) :=
  match parseLine text with
  | .error _ => none
  | .ok (item, q) =>
    let d? : Option Int64 :=
      if q ≤ 0 then none
      else if payloadType = order then if q ≤ w.level item then some (-q) else none
      else if payloadType = restock then some q
      else none
    match d? with
    | none => none
    | some d =>
      if (Bytes.ofString (line item (w.level item + d))).length ≤ Router.maxPayload then
        some (item, d)
      else none

/-- What the warehouse makes of a command against its stock `w`: the item and the change of its
level, when it takes it. -/
def change (w : Warehouse) (c : Command) : Option (String × Int64) :=
  (Bytes.utf8? c.payload).bind (lineChange w c.payloadType)

/-- The warehouse takes a command exactly when its payload is the text of a line whose quantity
is positive, it is an order the item's level covers or a restock, and the line of the new level
fits in an event; an order takes the quantity off, a restock adds it. -/
theorem change_eq_some : change w c = some (item, d) ↔
    ∃ text q, Bytes.utf8? c.payload = some text ∧ parseLine text = .ok (item, q) ∧ 0 < q ∧
      (c.payloadType = order ∧ q ≤ w.level item ∧ d = -q ∨ c.payloadType = restock ∧ d = q) ∧
      (Bytes.ofString (line item (w.level item + d))).length ≤ Router.maxPayload := by
  have hkinds : order ≠ restock := by decide
  unfold change lineChange
  cases hutf : Bytes.utf8? c.payload with
  | none => simp
  | some text =>
    cases hparse : parseLine text with
    | error f => simp [hparse]
    | ok p =>
      obtain ⟨item', q⟩ := p
      simp only [Option.bind_some, hparse, Option.some.injEq, Except.ok.injEq, Prod.mk.injEq,
        exists_and_left, exists_eq_left']
      by_cases hq : q ≤ 0
      · simp [hq, Int64.not_lt.2 hq]
      have hpos : 0 < q := Int64.not_le.1 hq
      by_cases horder : c.payloadType = order
      · by_cases hcover : q ≤ w.level item' <;> by_cases hfits :
          (Bytes.ofString (line item' (w.level item' + -q))).length ≤ Router.maxPayload <;>
          simp [hq, hpos, horder, hcover, hfits, hkinds] <;> grind
      · by_cases hrestock : c.payloadType = restock
        · by_cases hfits : (Bytes.ofString (line item' (w.level item' + q))).length ≤
              Router.maxPayload <;>
            simp [hq, hpos, hrestock, hfits, hkinds.symm] <;> grind
        · simp [hq, horder, hrestock]

/-- The warehouse after a command: the level of the item it takes changes by its change. -/
def commit (w : Warehouse) (c : Command) : Warehouse :=
  match change w c with
  | some (item, d) => w.setLevel item (w.level item + d)
  | none => w

/-- The event `e` is the one the warehouse seals for the command `c` against the stock `w`: a
commit of the line of the item's new level when it takes the command, a rollback otherwise. -/
def Seals (w : Warehouse) (c : Command) (e : Event) : Prop :=
  e.source = c.source ∧ e.sourceSequence = c.sequence ∧ e.index = 0 ∧
    match change w c with
    | some (item, d) => e.kind = .commit ∧ e.payloadType = stockType ∧
        e.payload = Bytes.ofString (line item (w.level item + d))
    | none => e.kind = .rollback ∧ e.payloadType = 0 ∧ e.payload = []

theorem Seals.of_some (h : Seals w c e) (hc : change w c = some (item, d)) :
    e.kind = .commit ∧ e.payloadType = stockType ∧
      e.payload = Bytes.ofString (line item (w.level item + d)) := by
  obtain ⟨-, -, -, hevent⟩ := h
  rw [hc] at hevent
  exact hevent

theorem Seals.of_none (h : Seals w c e) (hc : change w c = none) :
    e.kind = .rollback ∧ e.payloadType = 0 ∧ e.payload = [] := by
  obtain ⟨-, -, -, hevent⟩ := h
  rw [hc] at hevent
  exact hevent

theorem route_begin (c : Command) (pt : PayloadType) (p : Bytes) :
    (Router.begin c).route pt p =
      if Router.maxPayload < p.length then .error (.payloadTooLarge p.length)
      else .ok (0, { Router.begin c with routed := [⟨pt, p⟩] }) := rfl

theorem interpolate_line (item : String) (n : Int64) :
    toString item ++ toString ":" ++ toString n = line item n := rfl

/-- Handling the text of a command in a fresh transaction routes the line of the new level when
the warehouse takes the command, and otherwise aborts the transaction or fails. -/
theorem handle_begin (w : Warehouse) (c : Command) (text : String) :
    match lineChange w c.payloadType text with
    | some (item, d) => w.handle c text (Router.begin c) =
        .ok { Router.begin c with
          routed := [⟨stockType, Bytes.ofString (line item (w.level item + d))⟩] }
    | none => ∀ r, w.handle c text (Router.begin c) = .ok r → r.aborted = true := by
  unfold handle lineChange
  cases hparse : parseLine text with
  | error f => simp
  | ok p =>
    obtain ⟨item, q⟩ := p
    dsimp only
    by_cases hq : q ≤ 0
    · simp [hq]
    rw [if_neg hq, if_neg hq]
    simp only [interpolate_line]
    by_cases horder : c.payloadType = order
    · rw [horder, nextLevel_order, if_pos rfl]
      by_cases hcover : q ≤ w.level item
      · -- an order the stock covers takes the quantity off
        rw [if_neg (Int64.not_lt.2 hcover), if_pos hcover]
        dsimp only
        rw [← Int64.sub_eq_add_neg, route_begin]
        by_cases hfits : (Bytes.ofString (line item (w.level item - q))).length ≤ Router.maxPayload
        · rw [if_pos hfits, if_neg (Nat.not_lt.2 hfits)]
          dsimp only
          rw [Int64.sub_eq_add_neg]
        · rw [if_neg hfits, if_pos (Nat.lt_of_not_le hfits)]
          intro r hr
          cases hr
      · rw [if_pos (Int64.not_le.1 hcover), if_neg hcover]
        intro r hr
        cases hr
        rfl
    · rw [if_neg horder]
      by_cases hrestock : c.payloadType = restock
      · -- a restock adds the quantity
        rw [hrestock, nextLevel_restock, if_pos rfl]
        dsimp only
        rw [route_begin]
        by_cases hfits : (Bytes.ofString (line item (w.level item + q))).length ≤ Router.maxPayload
        · rw [if_pos hfits, if_neg (Nat.not_lt.2 hfits)]
        · rw [if_neg hfits, if_pos (Nat.lt_of_not_le hfits)]
          intro r hr
          cases hr
      · rw [if_neg hrestock]
        have hother : nextLevel c.payloadType (w.level item) q =
            .error (.failed (.plain s!"unknown inventory payload type {c.payloadType}")) := by
          simp [nextLevel, horder, hrestock]
        rw [hother]
        intro r hr
        cases hr

/-- The warehouse's processor in a fresh transaction leaves the warehouse alone; it routes the
line of the new level when the warehouse takes the command, and otherwise aborts the transaction
or fails. -/
theorem process_begin (c : Command) (base : BaseState) (w : Warehouse) :
    let r := (processor Focus.whole).process c base w (Router.begin c)
    r.2.1 = w ∧ match change w c with
      | some (item, d) => r.1 = .ok () ∧ r.2.2 = { Router.begin c with
          routed := [⟨stockType, Bytes.ofString (line item (w.level item + d))⟩] }
      | none => r.2.2.command = c ∧ (r.1 = .ok () → r.2.2.aborted = true) := by
  dsimp only
  unfold change
  simp only [processor, Focus.whole, id]
  cases hutf : Bytes.utf8? c.payload with
  | none => exact ⟨rfl, rfl, fun h => by cases h⟩
  | some text =>
    simp only [Option.bind_some]
    have hh := handle_begin w c text
    revert hh
    cases lineChange w c.payloadType text with
    | some p =>
      obtain ⟨item, d⟩ := p
      intro hh
      simp [hh]
    | none =>
      intro hh
      cases hr : w.handle c text (Router.begin c) with
      | ok r' => exact ⟨rfl, (handle_extends hr).command_eq, fun _ => hh r' hr⟩
      | error e => exact ⟨rfl, rfl, fun h => by cases h⟩

/-- The warehouse's processor alone, from a fresh transaction, leaves the warehouse alone, and
its transaction seals to the one event the warehouse seals for the command. -/
theorem seal_runAll (c : Command) (base : BaseState) (w : Warehouse) (first : UInt64)
    (time : Timestamp) :
    let chain := Processor.runAll c base [processor Focus.whole] w (Router.begin c)
    chain.2.1 = w ∧ ∃ e, ((chain.2.2.close chain.1).finish first time).2 = [e] ∧ Seals w c e := by
  dsimp only
  obtain ⟨hstate, hgoes⟩ := Processor.runAll_single c base (processor Focus.whole) w
    (Router.begin c) rfl
  obtain ⟨hworld, hchange⟩ := process_begin c base w
  generalize Processor.runAll c base [processor Focus.whole] w (Router.begin c) = chain
    at hstate hgoes
  generalize (processor Focus.whole).process c base w (Router.begin c) = a
    at hstate hgoes hworld hchange
  obtain ⟨result, w', r'⟩ := chain
  obtain ⟨result₀, w₀, r₀⟩ := a
  obtain ⟨rfl, rfl⟩ := Prod.mk.inj hstate
  dsimp only at hworld hgoes hchange
  refine ⟨hworld, ?_⟩
  unfold Seals
  cases hc : change w c with
  | none =>
    rw [hc] at hchange
    obtain ⟨hcommand, habort⟩ := hchange
    -- the transaction was aborted or the chain halted: one rollback
    refine ⟨_, Router.finish_close_of_aborted (fun h => habort (hgoes.1 h)) first time, ?_⟩
    simp [hcommand]
  | some p =>
    obtain ⟨item, d⟩ := p
    rw [hc] at hchange
    obtain ⟨hok, rfl⟩ := hchange
    rw [hgoes.2 hok, Router.close_ok, finish_level]
    exact ⟨_, rfl, rfl, rfl, rfl, rfl, rfl, rfl⟩

theorem admits_commit (mode : ReplayMode) : mode.admits .commit = true := by
  cases mode <;> rfl

/-- The applier stores what the sealed event says: the warehouse after the command. -/
theorem apply_seal (h : Seals w c e) : (applier Focus.whole).apply e w = commit w c := by
  unfold commit
  cases hc : change w c with
  | none => exact apply_other (by rw [(h.of_none hc).2.1]; decide)
  | some p =>
    obtain ⟨item, d⟩ := p
    obtain ⟨-, htype, hpayload⟩ := h.of_some hc
    obtain ⟨text, q, -, hparse, -⟩ := change_eq_some.1 hc
    simp [applier, htype, hpayload, Bytes.utf8?_ofString,
      parseLine_line_of_colon (colon_not_mem_of_parseLine hparse), Focus.whole]

/-- Delivered as the mode admits it, the sealed event leaves the warehouse after the command: a
mode passes over rollbacks only, and the warehouse rolls back only commands it does not take. -/
theorem deliverAll_seal {a : Application Warehouse}
    (happliers : a.appliers.members = [applier Focus.whole]) (h : Seals w c e) :
    a.deliverAll [e] w = commit w c := by
  rw [Application.deliverAll_cons, Application.deliverAll_nil, happliers, List.foldl_cons,
    List.foldl_nil, apply_seal h]
  split
  · rfl
  · rename_i hadmits
    unfold commit
    cases hc : change w c with
    | none => rfl
    | some p =>
      obtain ⟨item, d⟩ := p
      rw [(h.of_some hc).1] at hadmits
      exact absurd (admits_commit a.mode) hadmits

/-- A sealed event fits in the event log. -/
theorem Seals.fits (h : Seals w c e) : e.payload.length ≤ Router.maxPayload := by
  cases hc : change w c with
  | none =>
    rw [(h.of_none hc).2.2]
    exact Nat.zero_le _
  | some p =>
    obtain ⟨item, d⟩ := p
    obtain ⟨text, q, -, -, -, -, hfits⟩ := change_eq_some.1 hc
    rw [(h.of_some hc).2.2]
    exact hfits

end Change

section Lines

/-- Handling a command routes nothing, or the line of one item, the text before the command's
first colon, at the level computed from that item's level. -/
theorem handle_routes_line {w : Warehouse} {c : Command} {text : String} {r r' : Router}
    (h : w.handle c text r = .ok r') :
    r'.routed = r.routed ∨ ∃ item q n, parseLine text = .ok (item, q) ∧
      nextLevel c.payloadType (w.level item) q = .ok (some n) ∧
      r'.routed = r.routed ++ [⟨stockType, Bytes.ofString (line item n)⟩] := by
  unfold handle at h
  cases hparse : parseLine text with
  | error f => rw [hparse] at h; cases h
  | ok p =>
    obtain ⟨item, q⟩ := p
    rw [hparse] at h
    dsimp only at h
    split at h
    · cases h
    cases hnext : nextLevel c.payloadType (w.level item) q with
    | error e => rw [hnext] at h; cases h
    | ok next =>
      rw [hnext] at h
      cases next with
      | none =>
        -- an order the stock does not cover aborts before routing
        cases h
        exact .inl rfl
      | some n =>
        dsimp only at h
        split at h
        · cases h
          exact .inr ⟨item, q, n, rfl, hnext, Router.routed_route ‹_›⟩
        · cases h

/-- The applier stores the level a stock event's line carries under the line's item, when the
item holds no colon. -/
theorem apply_line {e : Event} {item : String} {n : Int64} (hitem : ':' ∉ item.toList)
    (htype : e.payloadType = stockType) (hpayload : e.payload = Bytes.ofString (line item n))
    (w : Warehouse) : (applier Focus.whole).apply e w = w.setLevel item n := by
  simp [applier, htype, hpayload, Bytes.utf8?_ofString, parseLine_line_of_colon hitem, Focus.whole]

/-- The text of a stock level round-trips. The line `<item>:<n>` of an item with no colon reads
back as that item and that level, for every signed word `n`. Every event the warehouse's
processor routes for a command is such a line: its item is the command's text before the first
colon, so it holds none, and its level is the one computed from the level under that item. So
the applier, handed that event, stores exactly that level under that item, where the processor
reads it. -/
theorem stock_line_round_trips :
    (∀ item : String, ':' ∉ item.toList → ∀ n : Int64,
      parseLine s!"{item}:{n}" = .ok (item, n)) ∧
    ∀ (w : Warehouse) (c : Command) (base : BaseState) (ev : Routed),
      ev ∈ ((processor Focus.whole).process c base w (Router.begin c)).2.2.routed →
      ∃ text item q n, Bytes.utf8? c.payload = some text ∧ parseLine text = .ok (item, q) ∧
        ':' ∉ item.toList ∧ nextLevel c.payloadType (w.level item) q = .ok (some n) ∧
        ev = ⟨stockType, Bytes.ofString s!"{item}:{n}"⟩ ∧
        ∀ (e : Event) (w' : Warehouse), e.payloadType = ev.payloadType →
          e.payload = ev.payload →
          (applier Focus.whole).apply e w' = w'.setLevel item n ∧
            (w'.setLevel item n).level item = n := by
  refine ⟨fun item hitem n => parseLine_line_of_colon hitem n, ?_⟩
  intro w c base ev hev
  simp only [processor, Focus.whole, id] at hev
  split at hev
  · simp [Router.begin] at hev
  rename_i text htext
  split at hev
  · rename_i r' hhandle
    rcases handle_routes_line hhandle with hnil | ⟨item, q, n, hparse, hnext, hrouted⟩
    · simp [hnil, Router.begin] at hev
    · -- the one event routed is the line of the item at its new level
      have hitem := colon_not_mem_of_parseLine hparse
      have hline : ev = ⟨stockType, Bytes.ofString (line item n)⟩ := by
        simpa [hrouted, Router.begin] using hev
      refine ⟨text, item, q, n, htext, hparse, hitem, hnext, hline, fun e w' htype hpayload => ?_⟩
      rw [hline] at htype hpayload
      refine ⟨apply_line hitem htype hpayload w', ?_⟩
      rw [level_setLevel, if_pos rfl]
  · simp [Router.begin] at hev

/-- The line of the smallest signed word reads back, and a restock of three bolts against an
empty warehouse routes a line of which the law holds. -/
theorem stock_line_round_trips_of_restock :
    let c : Command := ⟨1, 1, 0, restock, Bytes.ofString (line "bolt" (3 : Int64))⟩
    let bolt := "bolt"
    let smallest : Int64 := -9223372036854775808
    parseLine s!"{bolt}:{smallest}" = .ok (bolt, smallest) ∧
      ∃ ev, ev ∈ ((processor Focus.whole).process c {} {} (Router.begin c)).2.2.routed ∧
        ∃ text item q n, Bytes.utf8? c.payload = some text ∧ parseLine text = .ok (item, q) ∧
          ':' ∉ item.toList ∧ nextLevel c.payloadType (level {} item) q = .ok (some n) ∧
          ev = ⟨stockType, Bytes.ofString s!"{item}:{n}"⟩ ∧
          ∀ (e : Event) (w' : Warehouse), e.payloadType = ev.payloadType →
            e.payload = ev.payload →
            (applier Focus.whole).apply e w' = w'.setLevel item n ∧
              (w'.setLevel item n).level item = n := by
  intro c bolt smallest
  have hbolt : "bolt" ∈ items := by decide
  -- the warehouse takes the restock: its line reads, and the line of the new level fits
  have hchange : change {} c = some ("bolt", 3) :=
    change_eq_some.2 ⟨line "bolt" (3 : Int64), 3, Bytes.utf8?_ofString _,
      parseLine_line_of_colon (colon_not_mem_item hbolt) 3, by decide, .inr ⟨rfl, rfl⟩,
      length_line hbolt _⟩
  have hprocess := (process_begin c {} {}).2
  rw [hchange] at hprocess
  have hmem : (⟨stockType, Bytes.ofString (line "bolt" (level {} "bolt" + 3))⟩ : Routed) ∈
      ((processor Focus.whole).process c {} {} (Router.begin c)).2.2.routed := by
    rw [hprocess.2]
    exact List.mem_singleton_self _
  exact ⟨stock_line_round_trips.1 "bolt" (colon_not_mem_item hbolt) _, _, hmem,
    stock_line_round_trips.2 {} c {} _ hmem⟩

end Lines

section Ledger

variable {w : Warehouse} {c : Command} {e : Event}

/-- The warehouse after the commands, one after the other. -/
def commitAll (w : Warehouse) (cs : List Command) : Warehouse := cs.foldl commit w

@[simp]
theorem commitAll_nil (w : Warehouse) : commitAll w [] = w := rfl

@[simp]
theorem commitAll_cons (w : Warehouse) (c : Command) (cs : List Command) :
    commitAll w (c :: cs) = commitAll (commit w c) cs := rfl

theorem commitAll_concat (w : Warehouse) (cs : List Command) (c : Command) :
    commitAll w (cs ++ [c]) = commit (commitAll w cs) c := by
  simp [commitAll]

/-- The events `evs` are those the warehouse seals for the commands `cs`, one each, the commands
taken one after the other from the stock `w`. -/
def Ledger : Warehouse → List Command → List Event → Prop
  | _, [], evs => evs = []
  | w, c :: cs, evs => ∃ e rest, evs = e :: rest ∧ Seals w c e ∧ Ledger (commit w c) cs rest

/-- A ledger grows by the event sealed for the next command against the stock its commands
left. -/
theorem Ledger.snoc : ∀ {w : Warehouse} {cs : List Command} {evs : List Event},
    Ledger w cs evs → Seals (commitAll w cs) c e → Ledger w (cs ++ [c]) (evs ++ [e])
  | w, [], evs, h, he => by
    rw [Ledger] at h
    subst h
    exact ⟨e, [], rfl, he, rfl⟩
  | w, c' :: cs, evs, h, he => by
    obtain ⟨e', rest, rfl, hseal, hrest⟩ := h
    exact ⟨e', rest ++ [e], rfl, hseal, Ledger.snoc hrest he⟩

/-- Delivering a ledger leaves the warehouse after its commands. -/
theorem deliverAll_ledger {a : Application Warehouse}
    (happliers : a.appliers.members = [applier Focus.whole]) :
    ∀ {w : Warehouse} {cs : List Command} {evs : List Event}, Ledger w cs evs →
      a.deliverAll evs w = commitAll w cs
  | w, [], evs, h => by
    rw [Ledger] at h
    subst h
    rfl
  | w, c :: cs, evs, h => by
    obtain ⟨e, rest, rfl, hseal, hrest⟩ := h
    have hsplit : a.deliverAll (e :: rest) w = a.deliverAll rest (a.deliverAll [e] w) := by
      rw [Application.deliverAll_cons, Application.deliverAll_cons, Application.deliverAll_nil]
    rw [hsplit, deliverAll_seal happliers hseal, deliverAll_ledger happliers hrest]
    rfl

end Ledger

section Levels

variable {w : Warehouse} {c : Command}

/-- The change the command `c` makes to the level of `item` against the stock `w`: nothing when
the warehouse does not take it or it is of another item. -/
def changeOf (w : Warehouse) (c : Command) (item : String) : Int64 :=
  match change w c with
  | some (item', d) => if item' = item then d else 0
  | none => 0

/-- The changes the commands `cs` make to the level of `item`, one after the other from `w`. -/
def changes : Warehouse → List Command → String → List Int64
  | _, [], _ => []
  | w, c :: cs, item => changeOf w c item :: changes (commit w c) cs item

/-- No command along `cs` from `w` takes a level past the largest signed word. -/
def Bounded : Warehouse → List Command → Prop
  | _, [] => True
  | w, c :: cs =>
    (∀ item d, change w c = some (item, d) → (w.level item).toInt + d.toInt < 2 ^ 63) ∧
      Bounded (commit w c) cs

theorem level_commit (w : Warehouse) (c : Command) (item : String) :
    (commit w c).level item = w.level item + changeOf w c item := by
  unfold commit changeOf
  cases change w c with
  | none => rw [Int64.add_zero]
  | some p =>
    obtain ⟨item', d⟩ := p
    dsimp only
    rw [level_setLevel]
    by_cases h : item = item'
    · rw [if_pos h, if_pos h.symm, h]
    · rw [if_neg h, if_neg (Ne.symm h), Int64.add_zero]

/-- A level is the item's level before the commands plus the sum of their changes to it, in the
wrapping arithmetic of signed words. -/
theorem level_commitAll : ∀ (w : Warehouse) (cs : List Command) (item : String),
    (commitAll w cs).level item = w.level item + (changes w cs item).sum
  | w, [], item => by rw [commitAll_nil, changes, List.sum_nil, Int64.add_zero]
  | w, c :: cs, item => by
    rw [commitAll_cons, level_commitAll, level_commit, changes, List.sum_cons, Int64.add_assoc]

theorem bmod_word {x : Int} (hlo : -2 ^ 63 ≤ x) (hhi : x < 2 ^ 63) : x.bmod (2 ^ 64) = x :=
  Int.bmod_eq_of_le (by norm_num; omega) (by norm_num; omega)

/-- The change of an item the warehouse takes is exact, from a level at or above zero and up to
the largest word: an order takes off no more than the level, a restock adds a positive
quantity. -/
theorem change_exact {item : String} {d : Int64} (hc : change w c = some (item, d))
    (hlevel : 0 ≤ (w.level item).toInt) (hbound : (w.level item).toInt + d.toInt < 2 ^ 63) :
    0 ≤ (w.level item + d).toInt ∧ (w.level item + d).toInt = (w.level item).toInt + d.toInt := by
  obtain ⟨text, q, -, -, hq, hkind, -⟩ := change_eq_some.1 hc
  have hpos : 0 < q.toInt := Int64.lt_iff_toInt_lt.1 hq
  have hqlt := q.toInt_lt
  have hsum : 0 ≤ (w.level item).toInt + d.toInt := by
    rcases hkind with ⟨-, hcover, rfl⟩ | ⟨-, rfl⟩
    · -- an order the level covers takes off its quantity, which negates exactly
      have hneg : (-q).toInt = -q.toInt := by
        rw [Int64.toInt_neg, bmod_word (by omega) (by omega)]
      have hle := Int64.le_iff_toInt_le.1 hcover
      omega
    · omega
  have hexact : (w.level item + d).toInt = (w.level item).toInt + d.toInt := by
    rw [Int64.toInt_add, bmod_word (by omega) hbound]
  exact ⟨hexact ▸ hsum, hexact⟩

/-- A command from levels at or above zero that takes none past the largest word keeps every
level at or above zero, and changes it exactly. -/
theorem level_commit_exact (hw : ∀ item, 0 ≤ (w.level item).toInt)
    (hb : ∀ item d, change w c = some (item, d) → (w.level item).toInt + d.toInt < 2 ^ 63)
    (item : String) :
    0 ≤ ((commit w c).level item).toInt ∧
      ((commit w c).level item).toInt = (w.level item).toInt + (changeOf w c item).toInt := by
  rw [level_commit]
  unfold changeOf
  cases hc : change w c with
  | none => simp [hw item]
  | some p =>
    obtain ⟨item', d⟩ := p
    dsimp only
    by_cases h : item' = item
    · rw [if_pos h]
      subst h
      exact change_exact hc (hw item') (hb item' d hc)
    · rw [if_neg h, Int64.add_zero]
      simp [hw item]

/-- Along commands that take no level past the largest word, from levels at or above zero,
every level stays at or above zero and is its item's level before them plus the exact sum of
their changes to it. -/
theorem level_commitAll_exact : ∀ {w : Warehouse} {cs : List Command},
    (∀ item, 0 ≤ (w.level item).toInt) → Bounded w cs → ∀ item,
      0 ≤ ((commitAll w cs).level item).toInt ∧
        ((commitAll w cs).level item).toInt =
          (w.level item).toInt + ((changes w cs item).map Int64.toInt).sum
  | w, [], hw, _, item => by simp [changes, hw item]
  | w, c :: cs, hw, hb, item => by
    obtain ⟨hstep, hrest⟩ := hb
    have hcommit := level_commit_exact hw hstep
    obtain ⟨hnonneg, hsum⟩ := level_commitAll_exact (fun item => (hcommit item).1) hrest item
    refine ⟨hnonneg, ?_⟩
    rw [commitAll_cons, hsum, (hcommit item).2, changes, List.map_cons, List.sum_cons]
    omega

end Levels

end Warehouse

namespace Engine

variable {W : Type} {now : Timestamp} {s : Engine W × W}

/-- With the default handlers, reporting a halt changes nothing. -/
theorem exec_reportHalt_default (c : Command) (r : Except Halt Unit) :
    exec (reportHalt ({} : Handlers W) c r) now s = (.ok (), s) := by
  cases r with
  | ok u => rfl
  | error h => cases h <;> rfl

/-- With the default handlers, processing a command leaves the application's state where the
processor chain left it. -/
theorem world_process (c : Command) (hhandlers : s.1.handlers = {}) :
    (exec (process c) now s).2.2 =
      (Processor.runAll c s.1.base s.1.processors.members s.2 (Router.begin c)).2.1 := by
  unfold process
  rw [exec_engine_bind, exec_bind, exec_world]
  dsimp only
  generalize Processor.runAll c s.1.base s.1.processors.members s.2 (Router.begin c) = r
  obtain ⟨result, w, router⟩ := r
  dsimp only
  rw [exec_bind, exec_modifyWorld, exec_bind, hhandlers, exec_reportHalt_default]
  dsimp only
  rw [exec_bind, exec_read]
  dsimp only
  generalize (router.close result).finish (s.1.events.length + 1).toUInt64 now = sealed
  rcases s.1.events.appendBatch (sealed.2.map Event.encode) with ⟨_ | i, events⟩ <;>
    simp [exec_bind, exec_map]

/-- With the default handlers, the dispatcher's step leaves the application's state where it
found it when the processor chain does: a duplicate is only reported, and a halt changes
nothing. -/
theorem world_dispatchNext_of_chain {m : Stored} {c : Command} (hhandlers : s.1.handlers = {})
    (hpeek : s.1.outbox.commands.peek? s.1.config.dispatcherPoller = some m)
    (hdecode : Command.decode m.bytes = .ok c)
    (hchain : (Processor.runAll c s.1.base s.1.processors.members s.2 (Router.begin c)).2.1 = s.2) :
    (exec dispatchNext now s).2.2 = s.2 := by
  by_cases hdup : c.sequence ≤ s.1.base.lastCommand c.source
  · rw [exec_dispatchNext_of_duplicate hpeek hdecode hdup, hhandlers]
  rw [exec_dispatchNext_of_new hpeek hdecode (UInt64.not_le.1 hdup)]
  -- processing leaves the state where the processor chain left it, whatever follows
  have hprocess : ∀ r t', exec (process c) now ({ s.1 with outbox := { s.1.outbox with
      transient := s.1.outbox.transient.noteCommand c.source c.sequence } }, s.2) = (r, t') →
      t'.2 = s.2 := by
    intro r t' hp
    have hworld := congrArg (fun p => p.2.2) hp
    rw [world_process c] at hworld
    · exact hworld.symm.trans hchain
    · exact hhandlers
  split
  · rename_i hp
    exact hprocess _ _ hp
  · rename_i hp
    split <;> dsimp only <;> exact hprocess _ _ hp

end Engine

namespace Inventory

open Engine Warehouse

section Rounds

variable {L : SourceId} {s t : Engine Warehouse × Warehouse} {now : Timestamp} {m : Stored}
  {c : Command}

/-- The dispatcher's step leaves the warehouse alone: so do the warehouse's processor and the
default handlers of a duplicate and of a halt. -/
theorem world_dispatchNext (hshape : Shaped L s.1)
    (hpeek : s.1.outbox.commands.peek? s.1.config.dispatcherPoller = some m)
    (hdecode : Command.decode m.bytes = .ok c) : (exec dispatchNext now s).2.2 = s.2 := by
  have hchain := (seal_runAll c s.1.base s.2 0 0).1
  rw [← hshape.processors] at hchain
  exact world_dispatchNext_of_chain hshape.handlers hpeek hdecode hchain

/-- The batch of a command above its source's watermark is one event: the one the warehouse
seals for the command against its stock. -/
theorem batch_of_new (hshape : Shaped L s.1)
    (hnew : ¬c.sequence ≤ s.1.base.lastCommand c.source) (i : Nat) (now : Timestamp) :
    ∃ e, (dispatchOf s i c now).batch = [e] ∧ Seals s.2 c e := by
  obtain ⟨-, e, hfinish, hseal⟩ :=
    seal_runAll c s.1.base s.2 (s.1.events.length + 1).toUInt64 now
  rw [batch_dispatchOf, if_neg hnew, hshape.processors]
  exact ⟨e, hfinish, hseal⟩

/-- A round of a started engine with the applier at the end of the log leaves the warehouse
after delivering the batch of the command it took to the warehouse as it was. -/
theorem world_round (hshape : Shaped L s.1) (hs : Started s)
    (hat : s.1.applierAt = s.1.events.length)
    (hpeek : s.1.outbox.commands.peek? s.1.config.dispatcherPoller = some m)
    (hdecode : Command.decode m.bytes = .ok c) {n : Nat}
    (hround : exec dispatchRound now s = (.ok (some n), t)) :
    t.2 = s.1.application.deliverAll (dispatchOf s m.index c now).batch s.2 := by
  obtain ⟨s₁, hd, hrep, -, hworld⟩ := dispatchRound_replayed hs hat hpeek hdecode hround
    (hshape.batch_short m.index c now)
  rw [hrep.world, hd.application, hworld, world_dispatchNext hshape hpeek hdecode]

end Rounds

/-- The stock of an engine over the configuration `config` follows a ledger from the warehouse
`w₀`: some of the commands the dispatcher passed were processed, in log order; the event log is
their ledger; and once the engine started, the warehouse is what they made of `w₀`. Before the
start the engine stands at an empty base state with the warehouse `w₀`. -/
structure Ledgered (config : EngineConfig) (w₀ : Warehouse) (s : Engine Warehouse × Warehouse) :
    Prop where
  shaped : Shaped config.loopbackSource s.1
  configured : s.1.config = config
  readable : s.1.outbox.commands.Readable
  caughtUp : Started s → s.1.applierAt = s.1.events.length
  fresh : ¬Started s → s.1.base = {} ∧ s.2 = w₀
  ledger : ∃ cs : List Command, cs.Sublist (s.1.outbox.commands.readCommands.take s.1.dispatcherAt) ∧
    Warehouse.Ledger w₀ cs s.1.events.readEvents ∧ (Started s → s.2 = commitAll w₀ cs)

namespace Ledgered

variable {config : EngineConfig} {w₀ : Warehouse} {s t : Engine Warehouse × Warehouse}

/-- The ledger reads the configuration, the command log, the event log's records and the
applier's place, the base state, the status and the warehouse: nothing else. -/
theorem congr (h : Ledgered config w₀ s) (hshape : Shaped config.loopbackSource t.1)
    (hconfig : t.1.config = s.1.config) (hcommands : t.1.outbox.commands = s.1.outbox.commands)
    (hevents : t.1.events.messages = s.1.events.messages) (hat : t.1.applierAt = s.1.applierAt)
    (hbase : t.1.base = s.1.base) (hstatus : t.1.status = s.1.status) (hworld : t.2 = s.2) :
    Ledgered config w₀ t := by
  have hstarted : Started t ↔ Started s := by simp only [Started, hstatus]
  have hlen : t.1.events.length = s.1.events.length := by simp only [MessageLog.length, hevents]
  have hpassed : t.1.dispatcherAt = s.1.dispatcherAt := by
    simp only [dispatcherAt, hcommands, hconfig]
  have hread : t.1.events.readEvents = s.1.events.readEvents := by
    simp only [MessageLog.readEvents, hevents]
  obtain ⟨cs, hsub, hledger, hstock⟩ := h.ledger
  exact
    { shaped := hshape
      configured := hconfig.trans h.configured
      readable := hcommands ▸ h.readable
      caughtUp := fun hs => by rw [hat, hlen]; exact h.caughtUp (hstarted.1 hs)
      fresh := fun hs => by rw [hbase, hworld]; exact h.fresh (hs ∘ hstarted.2)
      ledger := ⟨cs, by rw [hcommands, hpassed]; exact hsub, by rw [hread]; exact hledger,
        fun hs => by rw [hworld]; exact hstock (hstarted.1 hs)⟩ }

/-- A record that reads, pushed at the end of the command log, keeps the ledger: it comes after
every command the dispatcher passed. -/
theorem push (h : Ledgered config w₀ s) {o : Outbox} {b : Bytes} {c : Command}
    (hcommands : o.commands =
      { s.1.outbox.commands with messages := s.1.outbox.commands.messages.push b })
    (hdecode : Command.decode b = .ok c) : Ledgered config w₀ ({ s.1 with outbox := o }, s.2) := by
  obtain ⟨cs, hsub, hledger, hstock⟩ := h.ledger
  have hread : o.commands.readCommands = s.1.outbox.commands.readCommands ++ [c] := by
    rw [hcommands, MessageLog.readCommands_push _ hdecode]
  have hpassed : o.commands.position s.1.config.dispatcherPoller = s.1.dispatcherAt := by
    rw [hcommands]
    rfl
  exact
    { shaped := h.shaped.of_members rfl rfl rfl rfl rfl rfl
      configured := h.configured
      readable := fun b' hb' => by
        change b' ∈ o.commands.messages.toList at hb'
        rw [hcommands, Array.toList_push, List.mem_append, List.mem_singleton] at hb'
        rcases hb' with hb' | rfl
        · exact h.readable b' hb'
        · exact ⟨c, hdecode⟩
      caughtUp := h.caughtUp
      fresh := h.fresh
      ledger := ⟨cs, by
        change cs.Sublist (o.commands.readCommands.take (o.commands.position s.1.config.dispatcherPoller))
        rw [hread, hpassed, List.take_append]
        exact hsub.trans (List.sublist_append_left _ _), hledger, hstock⟩ }

/-- A send of a started engine keeps the ledger, whether the log takes the command or not. -/
theorem send (h : Ledgered config w₀ s) {ctx : SendContext} {x : SourceId}
    (payloadType : PayloadType) (payload : Bytes) :
    Ledgered config w₀ ({ s.1 with outbox := (s.1.outbox.send ctx x payloadType payload).2 }, s.2) := by
  cases hsend : s.1.outbox.send ctx x payloadType payload with
  | mk r o' =>
  dsimp only
  cases r with
  | error err =>
    obtain ⟨-, hcommands, -, -, -⟩ := Outbox.send_eq_error hsend
    exact h.congr (h.shaped.of_members rfl rfl rfl rfl rfl rfl) rfl hcommands rfl rfl rfl rfl rfl
  | ok q =>
    obtain ⟨-, hcommands, -, -, -⟩ := Outbox.send_eq_ok hsend
    exact h.push hcommands (Command.decode_encode ⟨x, q, ctx.now, payloadType, payload⟩)

/-- A producer appending a command keeps the ledger. -/
theorem append (h : Ledgered config w₀ s) {bytes : Bytes} {c : Command} {i : Nat}
    {log : MessageLog} (hdecode : Command.decode bytes = .ok c)
    (happend : s.1.outbox.commands.append bytes = .ok (i, log)) :
    Ledgered config w₀ ({ s.1 with outbox := { s.1.outbox with commands := log } }, s.2) := by
  obtain ⟨-, rfl⟩ := MessageLog.append_eq_ok happend
  exact h.push rfl hdecode

/-- An engine built by the inventory's blueprint over logs whose events are the ledger of some of
the commands its dispatcher passed follows that ledger, from the warehouse it is given. -/
theorem build {commands events : MessageLog} {e : Engine Warehouse} (w₀ : Warehouse)
    (hb : (blueprint config commands events).build = .ok e) (hread : commands.Readable)
    (hledger : ∃ cs : List Command,
      cs.Sublist (commands.readCommands.take (commands.position config.dispatcherPoller)) ∧
      Warehouse.Ledger w₀ cs events.readEvents) :
    Ledgered config w₀ (e, w₀) := by
  obtain ⟨hconfig, hevents, hcommands, -, -, -, hbase, -, hstatus⟩ := Blueprint.build_eq_ok hb
  have hfresh : ¬Started (e, w₀) := by simp [Started, hstatus]
  obtain ⟨cs, hsub, hcs⟩ := hledger
  exact
    { shaped := shaped_build hb
      configured := hconfig
      readable := hcommands ▸ hread
      caughtUp := fun hs => absurd hs hfresh
      fresh := fun _ => ⟨hbase, rfl⟩
      ledger := ⟨cs, by simp only [dispatcherAt, hcommands, hconfig]; exact hsub,
        by rw [hevents]; exact hcs, fun hs => absurd hs hfresh⟩ }

/-- A start replays the whole event log, the ledger, from the warehouse `w₀`: the warehouse is
then what the ledger's commands made of it. -/
theorem start (h : Ledgered config w₀ s) (hs : ¬Started s) {now : Timestamp} {st : EngineStatus}
    {s' : Engine Warehouse × Warehouse} (hstart : exec Engine.start now s = (.ok st, s')) :
    Ledgered config w₀ s' := by
  obtain ⟨evs, hst⟩ := starts_of_exec hstart
  obtain ⟨hbase, hw₀⟩ := h.fresh hs
  -- the replay read the whole event log from a fresh base state
  have hevs : evs = s.1.events.readEvents := by
    have hrec := hst.records
    rw [hbase] at hrec
    exact (MessageLog.readEvents_of_decode hrec).symm
  have hread : s'.1.events.readEvents = s.1.events.readEvents := by
    simp only [MessageLog.readEvents, hst.messages]
  have hpassed : s'.1.dispatcherAt = s.1.dispatcherAt := by
    simp only [dispatcherAt, hst.commands, hst.config]
  obtain ⟨cs, hsub, hledger, -⟩ := h.ledger
  exact
    { shaped := h.shaped.start hstart
      configured := hst.config.trans h.configured
      readable := hst.commands ▸ h.readable
      caughtUp := fun _ => by
        rw [hst.applierAt]
        simp only [MessageLog.length, hst.messages]
      fresh := fun hn => absurd hst.started hn
      ledger := ⟨cs, by rw [hst.commands, hpassed]; exact hsub, by rw [hread]; exact hledger,
        fun _ => by
          rw [hst.world, hw₀, hevs]
          exact deliverAll_ledger h.shaped.appliers hledger⟩ }

/-- A round keeps the ledger: it passes one more command, and a command above its source's
watermark adds to the ledger the one event the warehouse seals for it, which the applier takes at
once; a duplicate adds nothing. -/
theorem round (h : Ledgered config w₀ s) (hs : Started s) {m : Stored} {c : Command}
    {now : Timestamp} {n : Nat}
    (hpeek : s.1.outbox.commands.peek? s.1.config.dispatcherPoller = some m)
    (hdecode : Command.decode m.bytes = .ok c)
    (hround : exec dispatchRound now s = (.ok (some n), t)) (ht : Took s m c now t) :
    Ledgered config w₀ t := by
  have hstarted : Started t := by
    unfold Started
    rw [ht.fixed.status]
    exact hs
  have hworld := world_round h.shaped hs (h.caughtUp hs) hpeek hdecode hround
  obtain ⟨cs, hsub, hledger, hstock⟩ := h.ledger
  -- the dispatcher passed one more record, that of the command `c`
  have htake : t.1.outbox.commands.readCommands.take t.1.dispatcherAt =
      s.1.outbox.commands.readCommands.take s.1.dispatcherAt ++ [c] := by
    have hcommands : t.1.outbox.commands.readCommands = s.1.outbox.commands.readCommands := by
      simp only [MessageLog.readCommands, ht.commands]
    rw [hcommands, ht.dispatcherAt, List.take_add_one, ← ht.index, ht.command]
    rfl
  have hfit : ∀ e ∈ (dispatchOf s m.index c now).batch, e.payload.length ≤ Router.maxPayload := by
    by_cases hdup : c.sequence ≤ s.1.base.lastCommand c.source
    · rw [batch_dispatchOf, if_pos hdup]
      simp
    · obtain ⟨e, hbatch, hseal⟩ := batch_of_new h.shaped hdup m.index now
      rw [hbatch]
      simpa using hseal.fits
  have hevents := MessageLog.readEvents_of_appended ht.events hfit
  refine
    { shaped := h.shaped.round hs hround
      configured := ht.fixed.config.trans h.configured
      readable := by simpa only [MessageLog.Readable, ht.commands] using h.readable
      caughtUp := fun _ => ht.applierAt
      fresh := fun hn => absurd hstarted hn
      ledger := ?_ }
  rw [htake, hevents, hworld]
  by_cases hdup : c.sequence ≤ s.1.base.lastCommand c.source
  · -- a duplicate: no event, and the warehouse stays as it was
    rw [batch_dispatchOf, if_pos hdup, List.append_nil, Application.deliverAll_nil]
    exact ⟨cs, hsub.trans (List.sublist_append_left _ _), hledger, fun _ => hstock hs⟩
  · obtain ⟨e, hbatch, hseal⟩ := batch_of_new h.shaped hdup m.index now
    have hseal' : Seals (commitAll w₀ cs) c e := hstock hs ▸ hseal
    rw [hbatch]
    refine ⟨cs ++ [c], hsub.append_right _, hledger.snoc hseal', fun _ => ?_⟩
    rw [deliverAll_seal h.shaped.appliers hseal, hstock hs, commitAll_concat]

end Ledgered

/-- Following a ledger from `w₀` is an invariant of the warehouse's engines over `config`, for
hosts that send from any sources. -/
theorem ledgered_invariant (config : EngineConfig) (w₀ : Warehouse) (allowed : SourceId → Prop) :
    Invariant config.loopbackSource allowed (Ledgered config w₀) where
  shaped h := h.shaped
  readable h := h.readable
  caughtUp h := h.caughtUp
  congr h hshape hconfig hcommands _ _ hevents hat hbase hstatus hworld :=
    h.congr hshape hconfig hcommands hevents hat hbase hstatus hworld
  round h hs hpeek hdecode hr ht := h.round hs hpeek hdecode hr ht
  send h _ _ := h.send

/-- Every state of a run of the inventory's engines follows a ledger from the warehouse the run
builds its engines with. -/
theorem Run.ledgered {config : EngineConfig} {allowed : SourceId → Prop} {w₀ : Warehouse}
    {s : Engine Warehouse × Warehouse} (hrun : Run config allowed w₀ s) : Ledgered config w₀ s := by
  induction hrun with
  | build hb =>
    exact Ledgered.build w₀ hb (fun b hb => by simp at hb) ⟨[], List.nil_sublist _, rfl⟩
  | rebuild _ hb ih =>
    obtain ⟨cs, hsub, hledger, -⟩ := ih.ledger
    refine Ledgered.build w₀ hb ih.readable ⟨cs, ?_, hledger⟩
    rw [← ih.configured]
    exact hsub
  | start now _ hstart ih =>
    obtain ⟨_, hst⟩ := starts_of_exec hstart
    exact ih.start (by simp [Started, hst.fresh]) hstart
  | call now _ hs hm hnf ih =>
    exact (hm.keeps (ledgered_invariant config w₀ allowed) now _ ih hs hnf).1
  | append _ hdecode _ happend ih => exact ih.append hdecode happend

/-- Along every run of the inventory's engines from the empty warehouse, whatever the sources the
host sends from, once the engine started: the event log is the ledger of some of the commands the
dispatcher passed, taken in log order, one event each, a commit of the line of the item's new
level for a command the warehouse takes and a rollback for any other; the warehouse is what these
commands made of it; each level is the sum of its item's changes in the wrapping arithmetic of
signed words; and where no command took a level past the largest word, every level is at or above
zero and is the exact sum of its item's changes. -/
theorem stock_follows_ledger {config : EngineConfig} {allowed : SourceId → Prop}
    {s : Engine Warehouse × Warehouse} (hrun : Run config allowed {} s) (hs : Started s) :
    ∃ cs : List Command, cs.Sublist (s.1.outbox.commands.readCommands.take s.1.dispatcherAt) ∧
      Warehouse.Ledger {} cs s.1.events.readEvents ∧ s.2 = commitAll {} cs ∧
      ∀ item, s.2.level item = (changes {} cs item).sum ∧
        (Bounded {} cs → 0 ≤ (s.2.level item).toInt ∧
          (s.2.level item).toInt = ((changes {} cs item).map Int64.toInt).sum) := by
  obtain ⟨cs, hsub, hledger, hstock⟩ := hrun.ledgered.ledger
  have hworld := hstock hs
  have hempty : ∀ item, ({} : Warehouse).level item = 0 := fun _ => rfl
  refine ⟨cs, hsub, hledger, hworld, fun item => ⟨?_, fun hb => ?_⟩⟩
  · rw [hworld, level_commitAll, hempty, Int64.zero_add]
  · have hexact := level_commitAll_exact (fun item => by rw [hempty]; rfl) hb item
    rw [hempty, Int64.toInt_zero, Int.zero_add] at hexact
    rw [hworld]
    exact hexact

/-- The law along the sample session: the dispatcher took a restock and an order, and the one
bolt left is what the ledger of processed commands gives. -/
theorem stock_follows_ledger_of_restocks :
    ∃ s : Engine Warehouse × Warehouse, Run {} (· ≠ ({} : EngineConfig).loopbackSource) {} s ∧
      Started s ∧ s.1.dispatcherAt = 2 ∧ s.2.level "bolt" = 1 ∧
      ∃ cs : List Command, cs.Sublist (s.1.outbox.commands.readCommands.take s.1.dispatcherAt) ∧
        Warehouse.Ledger {} cs s.1.events.readEvents ∧ s.2 = commitAll {} cs ∧
        ∀ item, s.2.level item = (changes {} cs item).sum ∧
          (Bounded {} cs → 0 ≤ (s.2.level item).toInt ∧
            (s.2.level item).toInt = ((changes {} cs item).map Int64.toInt).sum) := by
  obtain ⟨s, hrun, hs, hat, hlevel, -⟩ := Run.restock_sample
  exact ⟨s, hrun, hs, hat, hlevel, stock_follows_ledger hrun hs⟩

end Inventory

end EventSourcing
