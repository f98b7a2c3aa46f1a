import Mathlib
import EventSourcing.Demo.Workload

/-!
# The warehouse reads back what it writes

The warehouse writes its commands and its stock events as lines `<item>:<quantity>` in UTF-8,
the quantity in decimal. Reading such a line gives back the item and the quantity
(`Warehouse.parseLine_line`), so long as the item has no colon and the quantity fits a signed
64-bit word.
-/

namespace EventSourcing

namespace Bytes

theorem toList_loop (bs : ByteArray) (i : Nat) (r : List UInt8) :
    ByteArray.toList.loop bs i r = r.reverse ++ bs.data.toList.drop i := by
  fun_induction ByteArray.toList.loop bs i r with
  | case1 i r h ih =>
    have hi : i < bs.data.toList.length := by simpa using h
    rw [ih, List.drop_eq_getElem_cons hi]
    simp [ByteArray.get!, h]
  | case2 i r h =>
    rw [List.drop_eq_nil_of_le (by simpa using Nat.le_of_not_lt h)]
    simp

/-- Bytes written from a text read back as that text. -/
theorem utf8?_ofString (text : String) : utf8? (ofString text) = some text := by
  unfold utf8? ofString String.fromUTF8?
  have h : (⟨text.toUTF8.toList.toArray⟩ : ByteArray) = text.toByteArray := by
    rw [ByteArray.toList, toList_loop, String.toUTF8_eq_toByteArray]
    simp
  rw [h, dif_pos text.isValidUTF8]
  rfl

/-- A text takes as many bytes as its UTF-8 encoding has. -/
theorem length_ofString_eq_utf8Len (text : String) :
    (ofString text).length = String.utf8Len text.toList := by
  unfold ofString
  rw [ByteArray.toList, toList_loop, String.toUTF8_eq_toByteArray, ← String.utf8ByteSize_ofList,
    String.ofList_toList]
  simp [String.size_toByteArray]

/-- A text takes four bytes a character at most. -/
theorem length_ofString (text : String) : (ofString text).length ≤ 4 * text.length := by
  have hle : ∀ cs : List Char, String.utf8Len cs ≤ 4 * cs.length := by
    intro cs
    induction cs with
    | nil => simp [String.utf8Len]
    | cons c cs ih =>
      simp only [String.utf8Len, List.length_cons] at ih ⊢
      have := Char.utf8Size_le_four c
      omega
  rw [length_ofString_eq_utf8Len, ← String.length_toList]
  exact hle _

end Bytes

namespace Text

theorem ofDigitChars_cons (c : Char) (l : List Char) (acc : Nat) :
    Nat.ofDigitChars 10 (c :: l) acc = Nat.ofDigitChars 10 l (acc * 10 + (c.toNat - 48)) := by
  simp only [Nat.ofDigitChars, List.foldl_cons, Char.toNat, Nat.mul_comm]
  rfl

theorem le_ofDigitChars : ∀ (l : List Char) (acc : Nat), acc ≤ Nat.ofDigitChars 10 l acc
  | [], acc => le_refl acc
  | c :: l, acc => by
    rw [ofDigitChars_cons]
    exact le_trans (by omega) (le_ofDigitChars l _)

/-- Digits whose value stays within the bound read as that value. -/
theorem readDigits_eq_ok (bound : Nat) (overflow : IntegerError) :
    ∀ (l : List Char) (acc : Nat), (∀ c ∈ l, c.isDigit = true) →
      Nat.ofDigitChars 10 l acc ≤ bound → readDigits bound overflow acc l = .ok (Nat.ofDigitChars 10 l acc)
  | [], acc, _, _ => rfl
  | c :: l, acc, hdigits, hle => by
    rw [ofDigitChars_cons] at hle ⊢
    have hnext := (le_ofDigitChars l (acc * 10 + (c.toNat - 48))).trans hle
    rw [readDigits, if_pos (hdigits c (List.mem_cons_self ..)), if_neg (by omega)]
    exact readDigits_eq_ok bound overflow l _ (fun d hd => hdigits d (List.mem_cons_of_mem _ hd)) hle

/-- A number written in decimal reads back in every width it fits. -/
theorem parseInteger_toString (w : Width) {n : Nat} (h : n ≤ w.maxPositive) :
    parseInteger w (toString n) = .ok n := by
  have hdigits : ∀ c ∈ Nat.toDigits 10 n, c.isDigit = true :=
    fun c hc => Nat.isDigit_of_mem_toDigits (by decide) (by decide) hc
  have hread := readDigits_eq_ok w.maxPositive .tooLarge (Nat.toDigits 10 n) 0 hdigits
    (by rw [Nat.ofDigitChars_ten_toDigits]; exact h)
  rw [Nat.ofDigitChars_ten_toDigits] at hread
  unfold parseInteger
  rw [Nat.toString_eq_ofList_toDigits, String.toList_ofList]
  obtain ⟨c, rest, hcons⟩ := List.exists_cons_of_ne_nil (Nat.toDigits_ne_nil (b := 10) (n := n))
  -- the first character is a digit, so no sign
  have hc : c.isDigit = true := hdigits c (hcons ▸ List.mem_cons_self ..)
  have hplus : c ≠ '+' := fun h => by subst h; simp at hc
  have hminus : c ≠ '-' := fun h => by subst h; simp at hc
  rw [hcons] at hread ⊢
  split
  case h_1 heq => cases heq
  case h_2 heq => exact absurd (List.cons.inj heq).1 hplus
  case h_3 heq => exact absurd (List.cons.inj heq).1 hminus
  case h_4 heq => exact absurd (List.cons.inj heq).1 hplus
  case h_5 heq => exact absurd (List.cons.inj heq).1 hminus
  case h_6 =>
    rw [hread]
    rfl

/-- A natural number within a signed word reads back as that word. -/
theorem parseInt64_toString {n : Nat} (h : n ≤ 9223372036854775807) :
    parseInt64 (toString n) = .ok (Int64.ofNat n) := by
  unfold parseInt64
  rw [parseInteger_toString .int64 h]
  show Except.ok (Int64.ofInt n) = _
  rw [Int64.ofInt_eq_ofNat]

/-- A signed word at or above zero reads back from its decimal. -/
theorem parseInt64_toString_of_nonneg {l : Int64} (h : 0 ≤ l) : parseInt64 (toString l) = .ok l := by
  have hnonneg : 0 ≤ l.toInt := Int64.le_iff_toInt_le.1 h
  have hlt := l.toInt_lt
  obtain ⟨m, hm⟩ := Int.eq_ofNat_of_zero_le hnonneg
  have hstring : toString l = toString m := by
    show toString l.toInt = _
    rw [hm]
    rfl
  rw [hstring, parseInt64_toString (by omega), ← Int64.ofInt_eq_ofNat, ← hm, Int64.ofInt_toInt]

end Text

namespace Warehouse

/-- A line reads as its item and its quantity when neither holds a colon. -/
theorem parseLine_line {item quantity : String} {n : Int64} (hitem : ':' ∉ item.toList)
    (hquantity : ':' ∉ quantity.toList) (hparse : Text.parseInt64 quantity = .ok n) :
    parseLine (item ++ ":" ++ quantity) = .ok (item, n) := by
  have hsplit : (item ++ ":" ++ quantity).toList.splitOn ':' = [item.toList, quantity.toList] := by
    rw [String.toList_append, String.toList_append, List.append_assoc]
    show (item.toList ++ ':' :: quantity.toList).splitOn ':' = _
    rw [List.splitOn_append_cons_self_of_not_mem hitem, List.splitOn_eq_singleton hquantity]
  unfold parseLine
  rw [hsplit]
  simp [hparse]

/-- No decimal holds a colon. -/
theorem colon_not_mem_toString (n : Nat) : ':' ∉ (toString n).toList := by
  rw [Nat.toString_eq_ofList_toDigits, String.toList_ofList]
  intro h
  have := Nat.isDigit_of_mem_toDigits (by decide) (by decide) h
  simp at this

/-- The line `<item>:<n>`, as the warehouse writes its commands and its stock events. -/
def line {α : Type} [ToString α] (item : String) (n : α) : String := item ++ ":" ++ toString n

theorem colon_not_mem_item {item : String} (h : item ∈ items) : ':' ∉ item.toList := by
  simp only [items, List.mem_cons, List.not_mem_nil, or_false] at h
  rcases h with rfl | rfl | rfl <;> decide

theorem length_item {item : String} (h : item ∈ items) : item.length ≤ 6 := by
  simp only [items, List.mem_cons, List.not_mem_nil, or_false] at h
  rcases h with rfl | rfl | rfl <;> decide

/-- A line with a quantity within a signed word reads as its item and that quantity. -/
theorem parseLine_nat {item : String} (hitem : item ∈ items) {n : Nat}
    (hn : n ≤ 9223372036854775807) : parseLine (line item n) = .ok (item, Int64.ofNat n) :=
  parseLine_line (colon_not_mem_item hitem) (colon_not_mem_toString n)
    (Text.parseInt64_toString hn)

/-- The decimal of a level at or above zero is that of a natural number. -/
theorem toString_of_nonneg {l : Int64} (h : 0 ≤ l) : toString l = toString l.toInt.toNat := by
  have hnonneg : 0 ≤ l.toInt := Int64.le_iff_toInt_le.1 h
  show toString l.toInt = _
  rw [← Int.toNat_of_nonneg hnonneg]
  rfl

/-- A line of a level at or above zero reads as its item and that level. -/
theorem parseLine_level {item : String} (hitem : item ∈ items) {l : Int64} (h : 0 ≤ l) :
    parseLine (line item l) = .ok (item, l) := by
  have hquantity : ':' ∉ (toString l).toList := by
    rw [toString_of_nonneg h]
    exact colon_not_mem_toString _
  exact parseLine_line (colon_not_mem_item hitem) hquantity (Text.parseInt64_toString_of_nonneg h)

/-- A signed word takes twenty characters at most. -/
theorem length_toString (l : Int64) : (toString l).length ≤ 20 := by
  have hlt := l.toInt_lt
  have hge := l.le_toInt
  show (Int.repr l.toInt).length ≤ 20
  cases h : l.toInt with
  | ofNat m =>
    rw [h, Int.ofNat_eq_natCast] at hlt
    have : m.repr.length ≤ 19 := Nat.repr_length _ 19 (by decide) (by omega)
    simp only [Int.repr]
    omega
  | negSucc m =>
    rw [h] at hge
    have : (m + 1).repr.length ≤ 19 :=
      Nat.repr_length _ 19 (by decide) (by simp at hge; omega)
    simp only [Int.repr, String.length_append, Nat.succ_eq_add_one]
    have : ("-" : String).length = 1 := rfl
    omega

/-- The line of an item and a level fits in an event's payload. -/
theorem length_line {item : String} (hitem : item ∈ items) (l : Int64) :
    (Bytes.ofString (line item l)).length ≤ Router.maxPayload := by
  have hdigits := length_toString l
  have hchars : (line item l).length ≤ 27 := by
    simp only [line, String.length_append]
    have := length_item hitem
    have : (":" : String).length = 1 := rfl
    omega
  have := Bytes.length_ofString (line item l)
  unfold Router.maxPayload
  omega

theorem nextLevel_order (current quantity : Int64) : nextLevel order current quantity =
    .ok (if current < quantity then none else some (current - quantity)) := by
  simp only [nextLevel, beq_self_eq_true, if_true]
  split <;> rfl

theorem nextLevel_restock (current quantity : Int64) :
    nextLevel restock current quantity = .ok (some (current + quantity)) := by
  simp [nextLevel, order, restock]

/-- The warehouse's processor on a line of one of its items with a quantity from 1 to 10: it
routes the stock event of the level the command leaves the item at, aborts an order that the
stock does not cover, and refuses a command of another payload type. -/
theorem process_line {c : Command} {base : BaseState} {w : Warehouse} {item : String} {q : Nat}
    (hitem : item ∈ items) (hq : 0 < q) (hq' : q ≤ 10)
    (hpayload : c.payload = Bytes.ofString (line item q)) :
    (processor Focus.whole).process c base w (Router.begin c) =
      match nextLevel c.payloadType (w.level item) (Int64.ofNat q) with
      | .error e => (Except.error e, w, Router.begin c)
      | .ok none => (Except.ok (), w, (Router.begin c).abort)
      | .ok (some n) => (Except.ok (), w, { Router.begin c with
          routed := [⟨stockType, Bytes.ofString (line item n)⟩] }) := by
  have hpositive : ¬ Int64.ofNat q ≤ 0 := by
    rw [Int64.le_iff_toInt_le, Int64.toInt_ofNat_of_lt (by omega)]
    simp
    omega
  simp only [processor, Focus.whole, id, hpayload, Bytes.utf8?_ofString]
  unfold handle
  rw [parseLine_nat hitem (by omega)]
  dsimp only
  rw [if_neg hpositive]
  rcases nextLevel c.payloadType (w.level item) (Int64.ofNat q) with e | _ | n
  · rfl
  · rfl
  · -- the line fits, and a fresh transaction is open
    have hfits : ¬ Router.maxPayload <
        (Bytes.ofString (toString item ++ toString ":" ++ toString n)).length :=
      Nat.not_lt.2 (length_line hitem n)
    simp only [Router.route, Router.ensureOpen, Router.begin, Router.push, hfits,
      Bool.false_eq_true, if_false]
    rfl

/-- The warehouse's applier sets an item to the level of a stock event's line. -/
theorem apply_stock {e : Event} {w : Warehouse} {item : String} {l : Int64} (hitem : item ∈ items)
    (hl : 0 ≤ l) (htype : e.payloadType = stockType)
    (hpayload : e.payload = Bytes.ofString (line item l)) :
    (applier Focus.whole).apply e w = w.setLevel item l := by
  simp [applier, htype, hpayload, Bytes.utf8?_ofString, parseLine_level hitem hl, Focus.whole]

/-- The warehouse's applier passes over every event but a stock event. -/
theorem apply_other {e : Event} {w : Warehouse} (htype : e.payloadType ≠ stockType) :
    (applier Focus.whole).apply e w = w := by
  simp [applier, htype]

/-- The reorder output ignores every event replayed at a start. -/
theorem publish_replayed {threshold batch : Int64} {e : Event} {ctx : OutputContext} {w : Warehouse}
    {o : Outbox} (hreplay : ctx.replay = true) :
    (reorder threshold batch).publish e ctx w o = (.ok .ignored, w, o) := by
  simp [reorder, hreplay]

/-- The reorder output ignores every event but a stock event. -/
theorem publish_other {threshold batch : Int64} {e : Event} {ctx : OutputContext} {w : Warehouse}
    {o : Outbox} (htype : e.payloadType ≠ stockType) :
    (reorder threshold batch).publish e ctx w o = (.ok .ignored, w, o) := by
  simp [reorder, htype]

/-- The reorder output on a live stock event: below the threshold, and with no command of the
loopback source in flight, it restocks the batch of the item from the loopback source. -/
theorem publish_stock {threshold batch : Int64} {e : Event} {ctx : OutputContext} {w : Warehouse}
    {o : Outbox} {item : String} {l : Int64} (hitem : item ∈ items) (hl : 0 ≤ l)
    (htype : e.payloadType = stockType) (hpayload : e.payload = Bytes.ofString (line item l))
    (hreplay : ctx.replay = false) :
    (reorder threshold batch).publish e ctx w o =
      if threshold ≤ l ∨ o.inFlight.holds ctx.loopbackSource = true then (.ok .ignored, w, o)
      else match ctx.loopback o restock (Bytes.ofString (line item batch)) with
        | (.ok _, o') => (.ok .committed, w, o')
        | (.error err, o') => (.error err.failure, w, o') := by
  simp only [reorder, htype, hreplay, bne_self_eq_false, Bool.or_false, Bool.false_eq_true,
    if_false, hpayload, Bytes.utf8?_ofString, parseLine_level hitem hl]
  by_cases hthreshold : threshold ≤ l
  · simp [hthreshold]
  · by_cases hholds : o.inFlight.holds ctx.loopbackSource = true
    · simp [hthreshold, hholds]
    · simp only [hthreshold, hholds, if_false]
      rfl

section Stock

variable {B : Int} {w : Warehouse}

/-- Every level the warehouse holds lies between zero and `B`. -/
def Stocked (B : Int) (w : Warehouse) : Prop := ∀ p ∈ w.stock, 0 ≤ p.2.toInt ∧ p.2.toInt ≤ B

theorem mem_of_find? {xs : List (String × Int64)} {k : String} {v : Int64} :
    Keyed.find? xs k = some v → (k, v) ∈ xs := by
  induction xs with
  | nil => simp [Keyed.find?]
  | cons p rest ih =>
    unfold Keyed.find?
    split
    · rename_i hk
      intro h
      cases h
      exact hk ▸ List.mem_cons_self ..
    · exact fun h => List.mem_cons_of_mem _ (ih h)

theorem mem_insert {xs : List (String × Int64)} {k : String} {v : Int64} {p : String × Int64} :
    p ∈ Keyed.insert xs k v → p = (k, v) ∨ p ∈ xs := by
  induction xs with
  | nil => simp [Keyed.insert]
  | cons q rest ih =>
    unfold Keyed.insert
    split
    · intro h
      rcases List.mem_cons.1 h with h | h
      · exact .inl h
      · exact .inr (List.mem_cons_of_mem _ h)
    · split
      · simp only [List.mem_cons]
        rintro (h | h | h)
        · exact .inl h
        · exact .inr (.inl h)
        · exact .inr (.inr h)
      · intro h
        rcases List.mem_cons.1 h with h | h
        · exact .inr (h ▸ List.mem_cons_self ..)
        · rcases ih h with h | h
          · exact .inl h
          · exact .inr (List.mem_cons_of_mem _ h)

theorem Stocked.level (h : Stocked B w) (hB : 0 ≤ B) (item : String) :
    0 ≤ (w.level item).toInt ∧ (w.level item).toInt ≤ B := by
  unfold Warehouse.level Keyed.findD
  cases hfind : Keyed.find? w.stock item with
  | none => simpa using hB
  | some v => exact h _ (mem_of_find? hfind)

theorem Stocked.setLevel (h : Stocked B w) {item : String} {n : Int64} (hn : 0 ≤ n.toInt)
    (hnB : n.toInt ≤ B) : Stocked B (w.setLevel item n) := by
  intro p hp
  rcases mem_insert hp with rfl | hp
  · exact ⟨hn, hnB⟩
  · exact h p hp

theorem Stocked.mono (h : Stocked B w) {B' : Int} (hle : B ≤ B') : Stocked B' w :=
  fun p hp => ⟨(h p hp).1, (h p hp).2.trans hle⟩

theorem stocked_empty (B : Int) : Stocked B {} := by
  simp [Stocked]

end Stock

section Levels

variable {current : Int64} {q : Nat} {n : Int64} {B : Int}

/-- An order of a quantity from 1 to 10 that goes through leaves a level between zero and the
one before it. -/
theorem nextLevel_order_bounds (hq : q ≤ 10)
    (h : nextLevel order current (Int64.ofNat q) = .ok (some n)) :
    0 ≤ n.toInt ∧ n.toInt ≤ current.toInt := by
  rw [nextLevel_order] at h
  have hqInt : (Int64.ofNat q).toInt = q := Int64.toInt_ofNat_of_lt (by omega)
  split at h
  · cases h
  · rename_i hnlt
    cases h
    have hle : Int64.ofNat q ≤ current := Int64.not_lt.1 hnlt
    have hqle := Int64.le_iff_toInt_le.1 hle
    have h0 : (0 : Int64) ≤ Int64.ofNat q := by
      rw [Int64.le_iff_toInt_le, hqInt]
      simp
    rw [Int64.toInt_sub_of_le current _ h0 hle, hqInt]
    rw [hqInt] at hqle
    omega

/-- A restock of a quantity from 1 to 10 adds it to the level, when the sum fits. -/
theorem nextLevel_restock_eq (hq : q ≤ 10) (hcurrent : 0 ≤ current.toInt)
    (hfits : current.toInt + 10 < 9223372036854775808)
    (h : nextLevel restock current (Int64.ofNat q) = .ok (some n)) :
    n.toInt = current.toInt + q := by
  rw [nextLevel_restock] at h
  cases h
  have hqInt : (Int64.ofNat q).toInt = q := Int64.toInt_ofNat_of_lt (by omega)
  rw [Int64.toInt_add, hqInt]
  exact Int.bmod_eq_of_le (by omega) (by omega)

/-- A command of the warehouse leaves a level within zero and ten above the one before. -/
theorem nextLevel_bounds {kind : PayloadType} (hkind : kind = order ∨ kind = restock)
    (hq : q ≤ 10) (hcurrent : 0 ≤ current.toInt)
    (hfits : current.toInt + 10 < 9223372036854775808)
    (h : nextLevel kind current (Int64.ofNat q) = .ok (some n)) :
    0 ≤ n.toInt ∧ n.toInt ≤ current.toInt + 10 := by
  rcases hkind with hkind | hkind <;> rw [hkind] at h
  · have := nextLevel_order_bounds hq h
    omega
  · have := nextLevel_restock_eq hq hcurrent hfits h
    omega

end Levels

section Transactions

variable {c : Command} {w : Warehouse} {B : Int}

/-- A logged command the warehouse takes: an order or a restock of 1 to 10 of one of its items. -/
def Takes (c : Command) : Prop :=
  ∃ item ∈ items, ∃ q : Nat, 0 < q ∧ q ≤ 10 ∧ (c.payloadType = order ∨ c.payloadType = restock) ∧
    c.payload = Bytes.ofString (line item q)

/-- A restock of 10 of one of the items, as the reorder output sends it. -/
def Refill (c : Command) : Prop :=
  c.payloadType = restock ∧ ∃ item ∈ items, c.payload = Bytes.ofString (line item 10)

/-- An event the warehouse writes: a stock event sets one of its items to a level at or above
zero; events of other payload types say nothing of the stock. -/
def Posted (e : Event) : Prop :=
  e.payloadType = stockType →
    ∃ item ∈ items, ∃ l : Int64, 0 ≤ l ∧ e.payload = Bytes.ofString (line item l)

/-- A stock event that leaves an item below the threshold. -/
def Short (threshold : Int64) (e : Event) : Prop :=
  e.payloadType = stockType ∧ ∃ item ∈ items, ∃ l : Int64, 0 ≤ l ∧ l < threshold ∧
    e.payload = Bytes.ofString (line item l)

/-- From a stocked warehouse, the processor goes through a command it takes and leaves the
warehouse alone: the transaction routes the item's new level, at most ten above the highest, or
is aborted for an order the stock does not cover. A refill always routes a level of ten or more. -/
theorem process_takes (hc : Takes c) (hw : Stocked B w) (hB : 0 ≤ B)
    (hfits : B + 10 < 9223372036854775808) (base : BaseState) :
    ∃ r, (processor Focus.whole).process c base w (Router.begin c) = (.ok (), w, r) ∧
      ((∃ item ∈ items, ∃ n : Int64, 0 ≤ n.toInt ∧ n.toInt ≤ B + 10 ∧ (Refill c → 10 ≤ n.toInt) ∧
          r = { Router.begin c with routed := [⟨stockType, Bytes.ofString (line item n)⟩] }) ∨
        (r = (Router.begin c).abort ∧ ¬Refill c)) := by
  by_cases hrefill : Refill c
  · -- a refill adds ten to its item
    obtain ⟨hrestock, item, hitem, hpayload⟩ := hrefill
    have hlevel := hw.level hB item
    have hsum := nextLevel_restock_eq (le_refl 10) hlevel.1 (by omega)
      (nextLevel_restock (w.level item) (Int64.ofNat 10))
    rw [process_line hitem (by decide) (le_refl 10) hpayload, hrestock, nextLevel_restock]
    exact ⟨_, rfl, .inl ⟨item, hitem, _, by omega, by omega, fun _ => by omega, rfl⟩⟩
  · obtain ⟨item, hitem, q, hq, hq', hkind, hpayload⟩ := hc
    have hlevel := hw.level hB item
    rw [process_line hitem hq hq' hpayload]
    cases hnext : nextLevel c.payloadType (w.level item) (Int64.ofNat q) with
    | error e =>
      rcases hkind with hkind | hkind <;>
        simp [hkind, nextLevel_order, nextLevel_restock] at hnext
    | ok level =>
      cases level with
      | none => exact ⟨_, rfl, .inr ⟨rfl, hrefill⟩⟩
      | some n =>
        have hn := nextLevel_bounds hkind hq' hlevel.1 (by omega) hnext
        exact ⟨_, rfl, .inl ⟨item, hitem, n, hn.1, by omega, fun h => absurd h hrefill, rfl⟩⟩

/-- The transaction of a level seals to one commit event of that level's line. -/
theorem finish_level (c : Command) (item : String) (n : Int64) (first : UInt64) (time : Timestamp) :
    ({ Router.begin c with routed := [⟨stockType, Bytes.ofString (line item n)⟩] } : Router).finish
        first time =
      (.committed 1, [{ source := c.source, sourceSequence := c.sequence, sequence := first,
                        index := 0, kind := .commit, time := time, payloadType := stockType,
                        payload := Bytes.ofString (line item n) }]) := by
  simp [Router.finish, Router.begin]

/-- Two lines of items with levels at or above zero that are written alike are alike. -/
theorem line_inj {item item' : String} {l l' : Int64} (hitem : item ∈ items) (hitem' : item' ∈ items)
    (hl : 0 ≤ l) (hl' : 0 ≤ l') (h : Bytes.ofString (line item l) = Bytes.ofString (line item' l')) :
    item = item' ∧ l = l' := by
  have htext : line item l = line item' l' :=
    Option.some.inj ((Bytes.utf8?_ofString _).symm.trans (h ▸ Bytes.utf8?_ofString _))
  have hread := (parseLine_level hitem hl).symm.trans (htext ▸ parseLine_level hitem' hl')
  exact Prod.mk.inj (Except.ok.inj hread)

/-- The transaction of a command the warehouse takes seals to one terminal event of the command:
the stock event of the new level, or a rollback. The event is one the warehouse writes, applying
it keeps the warehouse stocked ten above the old bound, and the event of a refill leaves its item
at the threshold or above. -/
theorem transaction_takes (hc : Takes c) (hw : Stocked B w) (hB : 0 ≤ B)
    (hfits : B + 10 < 9223372036854775808) (base : BaseState) (first : UInt64) (time : Timestamp) :
    ∃ r e, (processor Focus.whole).process c base w (Router.begin c) = (.ok (), w, r) ∧
      (r.finish first time).2 = [e] ∧ (r.finish first time).1.eventCount = 1 ∧
      e.sequence = first ∧ e.source = c.source ∧ e.sourceSequence = c.sequence ∧
      e.kind.isTerminal = true ∧ e.payload.length ≤ Router.maxPayload ∧ Posted e ∧
      Stocked (B + 10) ((applier Focus.whole).apply e w) ∧ (Refill c → ¬Short 3 e) := by
  obtain ⟨r, hprocess, hr⟩ := process_takes hc hw hB hfits base
  rcases hr with ⟨item, hitem, n, hn, hnB, hrefill, rfl⟩ | ⟨rfl, hrefill⟩
  · -- a stock event of the level `n`
    have hnonneg : (0 : Int64) ≤ n := Int64.le_iff_toInt_le.2 hn
    refine ⟨_, _, hprocess, by rw [finish_level], by rw [finish_level]; rfl, rfl, rfl, rfl, rfl,
      length_line hitem n, fun _ => ⟨item, hitem, n, hnonneg, rfl⟩, ?_, fun href hshort => ?_⟩
    · rw [apply_stock hitem hnonneg rfl rfl]
      exact (hw.mono (by omega)).setLevel hn hnB
    · -- a short event's level is the one routed, below the threshold
      obtain ⟨-, item', hitem', l, hl, hlow, hpayload⟩ := hshort
      obtain ⟨-, rfl⟩ := line_inj hitem hitem' hnonneg hl hpayload
      have hbelow := Int64.lt_iff_toInt_lt.1 hlow
      have hthreshold : (3 : Int64).toInt = 3 := rfl
      have := hrefill href
      omega
  · -- a rollback, which no applier reads
    have hother : (0 : PayloadType) ≠ stockType := by decide
    refine ⟨_, _, hprocess, Router.finish_of_aborted rfl first time, rfl, rfl, rfl, rfl, rfl,
      by simp [Router.maxPayload], fun h => absurd h hother, ?_, fun h => absurd h hrefill⟩
    rw [apply_other hother]
    exact hw.mono (by omega)

end Transactions

/-- A command as a host sends it to the warehouse: an order or a restock of 1 to 10 of one of
its items. -/
def Request (command : SourceId × PayloadType × String) : Prop :=
  ∃ item ∈ items, ∃ q : Nat, 0 < q ∧ q ≤ 10 ∧
    (command.2.1 = order ∨ command.2.1 = restock) ∧ command.2.2 = line item q

end Warehouse

namespace Random.WyRand

/-- A bounded draw stays below its bound, whatever raw outputs of `bits` bits it rejects. -/
theorem below_lt {bits n : Nat} {raw : WyRand → Nat × WyRand} (hn : 0 < n)
    (hraw : ∀ g, (raw g).1 < 2 ^ bits) : ∀ fuel g, (below bits raw n fuel g).1 < n := by
  -- every draw that is kept is the high part of a raw output times `n`
  have hhigh : ∀ g, (raw g).1 * n / Nat.pow 2 bits < n := fun g =>
    Nat.div_lt_of_lt_mul (by rw [Nat.pow_eq]; exact Nat.mul_lt_mul_of_pos_right (hraw g) hn)
  intro fuel
  induction fuel with
  | zero => exact hhigh
  | succ fuel ih =>
    intro g
    simp only [below]
    split
    · split
      · exact ih _
      · exact hhigh g
    · exact hhigh g

theorem below64_lt (g : WyRand) {n : Nat} (hn : 0 < n) : (g.below64 n).1 < n :=
  below_lt hn (fun _ => UInt64.toNat_lt _) _ _

end Random.WyRand

namespace Workload

/-- Every command a workload draws is an order or a restock of 1 to 10 of one of the items. -/
theorem next_request (w : Workload) : Warehouse.Request w.next.1 := by
  have hquantity : ∀ (g : Random.WyRand) (k : Nat), 0 < k → k ≤ 10 → (g.below64 k).1 + 1 ≤ 10 := by
    intro g k hk hk'
    have := g.below64_lt hk
    omega
  -- the draws are opaque numbers, known only to be in range
  rw [next.eq_1]
  generalize w.rng.below32 w.sources.toInt.toNat = s
  have hitem : Warehouse.items.getD (s.2.below64 Warehouse.items.length).1 "" ∈ Warehouse.items :=
    List.getD_eq_getElem _ _ (s.2.below64_lt (show 0 < Warehouse.items.length by decide)) ▸
      List.getElem_mem _
  generalize (s.2.below64 Warehouse.items.length) = i at hitem ⊢
  generalize i.2.below32 10 = kind
  split
  · exact ⟨_, hitem, _, Nat.add_one_pos _, hquantity _ 5 (by decide) (by decide), .inl rfl, rfl⟩
  · exact ⟨_, hitem, _, Nat.add_one_pos _, hquantity _ 10 (by decide) (by decide), .inr rfl, rfl⟩

/-- Every command of a workload's first ones is an order or a restock of 1 to 10 of one of the
items. -/
theorem take_requests (w : Workload) (count : Nat) :
    ∀ command ∈ w.take count, Warehouse.Request command := by
  induction count generalizing w with
  | zero => simp [take]
  | succ count ih =>
    intro command hcommand
    rw [take, List.mem_cons] at hcommand
    rcases hcommand with rfl | hrest
    · exact w.next_request
    · exact ih _ command hrest

end Workload

end EventSourcing
