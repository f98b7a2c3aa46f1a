import Mathlib
import EventSourcing.Proofs.Stock
import EventSourcing.Demo.Ledger

/-!
# What a command does to the ledger's balances

The ledger decides a command against the balance its applier last stored for the command's
source (`Ledger.verdict`). A deposit adds its amount; a withdrawal that the balance covers takes
its amount off; a batch whose amounts all read and whose running balances all stay at or above
zero routes every running balance, in order; a note routes nothing. Anything else rolls back: a
payload that is not UTF-8, the texts `panic` and `fail`, an amount that does not read, a
withdrawal the balance does not cover, a batch that drops below zero, an unknown payload type.
Amounts are signed words read after trimming blanks, and balances add up in the wrapping
arithmetic of signed words.

The processor, alone in a fresh transaction, routes exactly the balances of the verdict, and
otherwise aborts the transaction or fails (`Ledger.process_begin`). Its loop over a batch's
amounts, which stops at the first amount that does not read and aborts at the first running
balance below zero, routes all of them or none (`Ledger.runBatch_of_balances`). The transaction
seals to one rollback, one auto-commit, or one balance event per routed balance, all
intermediary but the last (`Ledger.Seals`); the applier, handed those events in order, leaves
the source's balance at the last one and every other balance alone (`Ledger.deliverAll_seal`).
-/

namespace EventSourcing

namespace Text

open String

/-- Splitting characters at a one-character separator, from a point inside them: the pieces
found so far, then the current piece and the pieces of the rest. -/
theorem splitOnAux_singleton_of_valid (c : Char) (r : List Char) :
    ∀ (l m : List Char) (acc : List String),
      splitOnAux (ofList (l ++ m ++ r)) (ofList [c]) ⟨utf8Len l⟩ ⟨utf8Len l + utf8Len m⟩ 0 acc =
        acc.reverse ++ (List.splitOnPPrepend (· == c) r m.reverse).map ofList := by
  induction r with
  | nil =>
    intro l m acc
    have hpiece := extract_of_valid l m []
    rw [List.append_nil] at hpiece
    rw [splitOnAux, if_pos (by simp only [atEnd_iff, rawEndPos_ofList, List.append_nil,
      utf8Len_append, Pos.Raw.mk_le_mk, le_refl])]
    simp only [List.append_nil, hpiece, List.reverse_cons, List.splitOnPPrepend_nil,
      List.reverse_reverse, List.map_cons, List.map_nil]
  | cons d r ih =>
    intro l m acc
    have hnot : ¬Pos.Raw.atEnd (ofList (l ++ m ++ d :: r)) ⟨utf8Len l + utf8Len m⟩ = true := by
      simp only [atEnd_iff, rawEndPos_ofList, utf8Len_append, utf8Len_cons, Pos.Raw.mk_le_mk]
      have := Char.utf8Size_pos d
      omega
    have hget : Pos.Raw.get (ofList (l ++ m ++ d :: r)) ⟨utf8Len l + utf8Len m⟩ = d := by
      simpa using get_of_valid (l ++ m) (d :: r)
    have hnext : Pos.Raw.next (ofList (l ++ m ++ d :: r)) ⟨utf8Len l + utf8Len m⟩ =
        ⟨utf8Len l + utf8Len m + d.utf8Size⟩ := by
      simpa using next_of_valid (l ++ m) d r
    have hsep : Pos.Raw.get (ofList [c]) 0 = c := by simpa using get_of_valid [] [c]
    have hsepNext : Pos.Raw.next (ofList [c]) 0 = ⟨c.utf8Size⟩ := by
      simpa using next_of_valid [] c []
    have hsepEnd : Pos.Raw.atEnd (ofList [c]) ⟨c.utf8Size⟩ = true := by
      rw [atEnd_iff, rawEndPos_ofList]
      simp [utf8Len]
    rw [splitOnAux, if_neg hnot, hget, hsep]
    by_cases hdc : d = c
    · -- the separator closes the current piece, and a new one starts after it
      subst hdc
      have hcut : Pos.Raw.unoffsetBy ⟨utf8Len l + utf8Len m + d.utf8Size⟩ ⟨d.utf8Size⟩ =
          ⟨utf8Len l + utf8Len m⟩ := by
        simp [Pos.Raw.unoffsetBy]
      simp only [beq_self_eq_true, if_true, hnext, hsepNext, hsepEnd, hcut, extract_of_valid]
      have := ih (l ++ m ++ [d]) [] (ofList m :: acc)
      simp only [List.append_nil, utf8Len_append, utf8Len_cons, utf8Len_nil, Nat.add_zero,
        Nat.zero_add] at this
      rw [show l ++ m ++ d :: r = l ++ m ++ [d] ++ r by simp, this]
      simp [List.splitOnPPrepend_cons_pos]
    · -- any other character joins the current piece
      have hstep : Pos.Raw.unoffsetBy ⟨utf8Len l + utf8Len m⟩ 0 = ⟨utf8Len l + utf8Len m⟩ := by
        simp [Pos.Raw.unoffsetBy]
      simp only [beq_iff_eq, hdc, if_false, hstep, hnext]
      have := ih l (m ++ [d]) acc
      simp only [utf8Len_append, utf8Len_cons, utf8Len_nil, Nat.zero_add, ← Nat.add_assoc] at this
      rw [show l ++ m ++ d :: r = l ++ (m ++ [d]) ++ r by simp, this]
      simp [List.splitOnPPrepend_cons_neg, hdc]

/-- Splitting a text at a one-character separator splits its characters at that character. -/
theorem splitOn_singleton (s : String) (c : Char) :
    s.splitOn (ofList [c]) = (s.toList.splitOn c).map ofList := by
  have hne : (ofList [c] == "") = false := by
    rw [beq_eq_false_iff_ne]
    intro h
    have := congrArg String.toList h
    simp at this
  unfold String.splitOn
  rw [if_neg (by rw [hne]; decide)]
  simpa [List.splitOn_eq_splitOnP] using splitOnAux_singleton_of_valid c s.toList [] [] []

/-- A text after a prefix is what follows the prefix. -/
theorem dropPrefix?_append (pat t : String) :
    ∃ rest, (pat ++ t).dropPrefix? pat = some rest ∧ rest.toString = t := by
  cases h : (pat ++ t).dropPrefix? pat with
  | none =>
    rw [String.dropPrefix?_eq_dropPrefix?_toSlice, String.Slice.dropPrefix?_eq_none_iff,
      String.startsWith_toSlice, String.startsWith_string_eq_false_iff] at h
    exact absurd (by rw [String.toList_append]; exact List.prefix_append _ _) h
  | some rest =>
    have happend := String.eq_append_of_dropPrefix?_string_eq_some h
    refine ⟨rest, rfl, ?_⟩
    rw [String.Slice.toString_eq]
    exact ((String.append_right_inj pat).1 happend).symm

/-- Splitting at a separator gives one piece more than it finds separators, so no more pieces
than the list has elements, and one. -/
theorem length_splitOn_le (c : Char) : ∀ l : List Char, (l.splitOn c).length ≤ l.length + 1
  | [] => by simp [List.splitOn_nil]
  | d :: l => by
    have ih := length_splitOn_le c l
    rw [List.splitOn_cons_eq_if_modifyHead]
    split
    · simp only [List.length_cons]
      omega
    · simp only [List.length_modifyHead, List.length_cons]
      omega

end Text


namespace Bytes

/-- Bytes that read as a text are that text's bytes. -/
theorem eq_ofString_of_utf8? {bytes : Bytes} {text : String} (h : utf8? bytes = some text) :
    bytes = ofString text := by
  unfold utf8? String.fromUTF8? at h
  split at h
  · cases h
    unfold ofString
    rw [ByteArray.toList, toList_loop]
    simp [String.fromUTF8, String.toUTF8_eq_toByteArray]
  · cases h

/-- A text takes a byte a character at least. -/
theorem length_le_ofString (text : String) : text.length ≤ (ofString text).length := by
  have hge : ∀ cs : List Char, cs.length ≤ String.utf8Len cs := by
    intro cs
    induction cs with
    | nil => simp [String.utf8Len]
    | cons c cs ih =>
      simp only [String.utf8Len_cons, List.length_cons]
      have := Char.utf8Size_pos c
      omega
  rw [length_ofString_eq_utf8Len, ← String.length_toList]
  exact hge _

theorem length_le_of_utf8? {bytes : Bytes} {text : String} (h : utf8? bytes = some text) :
    text.length ≤ bytes.length := by
  rw [eq_ofString_of_utf8? h]
  exact length_le_ofString text

end Bytes

namespace Command

/-- A command read from a record has a payload its 32-bit size field can declare. -/
theorem length_payload_of_decode {bytes : Bytes} {c : Command} (h : decode bytes = .ok c) :
    c.payload.length < 2 ^ 32 := by
  unfold decode declaredPayload at h
  split at h
  · cases h
  · dsimp only at h
    split at h
    · cases h
    · cases h
      have := (Bytes.readUInt32 bytes 24).toNat_lt
      simp only [List.length_take]
      omega

end Command

namespace Keyed

variable {κ ν : Type} [LT κ] [DecidableRel (α := κ) (· < ·)] [DecidableEq κ]

/-- Setting a key twice keeps the second value, in the place the first took. -/
@[simp]
theorem insert_insert_self (xs : List (κ × ν)) (k : κ) (v v' : ν) :
    insert (insert xs k v) k v' = insert xs k v' := by
  induction xs with
  | nil => simp [insert]
  | cons e rest ih =>
    obtain ⟨k', w⟩ := e
    unfold insert
    by_cases h : k = k'
    · simp [h, insert]
    · by_cases hl : k < k'
      · simp [h, hl, insert]
      · simp [h, hl, insert, ih]

end Keyed

namespace Event

/-- What an event carries: its kind, and the payload type and payload routed into it. -/
def carries (e : Event) : EventKind × Routed := (e.kind, ⟨e.payloadType, e.payload⟩)

end Event

namespace Router

/-- The routed events of a committed transaction with their kinds, in routing order: all
intermediary but the last, which commits. -/
def committed : List Routed → List (EventKind × Routed)
  | [] => []
  | [x] => [(.commit, x)]
  | x :: y :: rest => (.intermediary, x) :: committed (y :: rest)

theorem length_committed : ∀ l : List Routed, (committed l).length = l.length
  | [] => rfl
  | [x] => rfl
  | x :: y :: rest => by
    rw [committed, List.length_cons, length_committed (y :: rest)]
    rfl

/-- Numbering the routed events from `k` and marking the one numbered last commits the last. -/
theorem committed_eq_zipIdx : ∀ (l : List Routed) (k : Nat),
    (l.zipIdx k).map (fun p => (if p.2 = k + l.length - 1 then EventKind.commit
      else .intermediary, p.1)) = committed l
  | [], _ => rfl
  | [x], k => by simp [committed]
  | x :: y :: rest, k => by
    have hlast : k + (x :: y :: rest).length - 1 = (k + 1) + (y :: rest).length - 1 := by
      simp only [List.length_cons]
      omega
    rw [List.zipIdx_cons, List.map_cons, hlast, committed_eq_zipIdx (y :: rest) (k + 1), committed,
      if_neg (by simp only [List.length_cons]; omega)]

/-- A transaction that routed events seals to them with their kinds as `committed` gives them. -/
theorem carries_finish {r : Router} (h : r.aborted = false) (hne : r.routed ≠ [])
    (first : UInt64) (time : Timestamp) :
    (r.finish first time).2.map Event.carries = committed r.routed := by
  have hempty : r.routed.isEmpty = false := List.isEmpty_eq_false_iff.2 hne
  rw [← committed_eq_zipIdx r.routed 0]
  simp only [finish, h, hempty, Bool.false_eq_true, if_false, List.map_map, Nat.zero_add]
  rfl

end Router

namespace Ledger

theorem balance_setBalance (l : Ledger) (x y : SourceId) (b : Int64) :
    (l.setBalance x b).balance y = if y = x then b else l.balance y := by
  unfold balance setBalance Keyed.findD
  split
  · rename_i h
    rw [h, Keyed.find?_insert_self]
    rfl
  · rename_i h
    rw [Keyed.find?_insert_of_ne _ _ _ _ h]

@[simp]
theorem setBalance_setBalance (l : Ledger) (x : SourceId) (b b' : Int64) :
    (l.setBalance x b).setBalance x b' = l.setBalance x b' := by
  simp [setBalance]

section Verdict

/-- An amount: a text that reads as a signed word once trimmed of blanks. -/
def readAmount? (text : String) : Option Int64 := (Text.parseInt64 (Text.trim text)).toOption

/-- The amount a text gives after a prefix. -/
def amountAfter? (text prefixText : String) : Option Int64 :=
  (text.dropPrefix? prefixText).bind fun raw => readAmount? raw.toString

/-- The balances after each amount, the amounts added one after the other to a balance. -/
def running : Int64 → List Int64 → List Int64
  | _, [] => []
  | b, a :: rest => (b + a) :: running (b + a) rest

/-- The balances a batch routes from a balance: the running balances, when every step reads as
an amount and every running balance stays at or above zero. -/
def batchBalances (b : Int64) (steps : List String) : Option (List Int64) :=
  (steps.mapM readAmount?).bind fun amounts =>
    if (running b amounts).all (0 ≤ ·) then some (running b amounts) else none

/-- What the ledger does with the text of a command of the given payload type against the
balance `b` of its source: the balances it routes, in order, when it commits the command, and
`none` when it rolls it back. -/
def outcome (payloadType : PayloadType) (text : String) (b : Int64) : Option (List Int64) :=
  if text = "panic" ∨ text = "fail" then none
  else if payloadType = deposit then (amountAfter? text "deposit:").map fun n => [b + n]
  else if payloadType = withdraw then
    (amountAfter? text "withdraw:").bind fun n => if n ≤ b then some [b - n] else none
  else if payloadType = batch then
    (text.dropPrefix? "batch:").bind fun steps => batchBalances b (steps.toString.splitOn ",")
  else if payloadType = note then some []
  else none

/-- The ledger's verdict on a command against the balance `b` of its source: the balances the
command routes, in order, when the ledger commits it; `none` when the ledger rolls it back. -/
def verdict (c : Command) (b : Int64) : Option (List Int64) :=
  (Bytes.utf8? c.payload).bind fun text => outcome c.payloadType text b

theorem batchBalances_nil (b : Int64) : batchBalances b [] = some [] := rfl

/-- A batch routes nothing past a running balance below zero: the first step decides whether to
go on. -/
theorem batchBalances_cons (b : Int64) (step : String) (rest : List String) :
    batchBalances b (step :: rest) = (readAmount? step).bind fun n =>
      if b + n < 0 then none else (batchBalances (b + n) rest).map ((b + n) :: ·) := by
  unfold batchBalances
  rw [List.mapM_cons]
  cases readAmount? step with
  | none => rfl
  | some n =>
    simp only [Option.bind_some]
    cases rest.mapM readAmount? with
    | none =>
      by_cases hneg : b + n < 0
      · rw [if_pos hneg]
        rfl
      · rw [if_neg hneg]
        rfl
    | some amounts =>
      simp only [Option.pure_def, Option.bind_eq_bind, Option.bind_some]
      rw [running, List.all_cons]
      by_cases hneg : b + n < 0
      · rw [if_pos hneg, if_neg (by simp [Int64.not_le.2 hneg])]
      · rw [if_neg hneg]
        cases hall : (running (b + n) amounts).all (0 ≤ ·)
        · rw [Bool.and_false, if_neg Bool.false_ne_true, if_neg Bool.false_ne_true]
          rfl
        · rw [if_pos (by simpa using Int64.not_lt.1 hneg), if_pos rfl]
          rfl

/-- A batch routes a balance per step. -/
theorem length_of_batchBalances : ∀ {b : Int64} {steps : List String} {bs : List Int64},
    batchBalances b steps = some bs → bs.length = steps.length
  | b, [], bs, h => by
    rw [batchBalances_nil, Option.some.injEq] at h
    rw [← h]
    rfl
  | b, step :: rest, bs, h => by
    rw [batchBalances_cons] at h
    obtain ⟨n, -, h⟩ := Option.bind_eq_some_iff.1 h
    split at h
    · cases h
    · obtain ⟨bs', hrest, rfl⟩ := Option.map_eq_some_iff.1 h
      rw [List.length_cons, List.length_cons, length_of_batchBalances hrest]

/-- The ledger routes no more balances than its command's text has characters, and one: a batch
routes a balance per comma-separated step. -/
theorem length_of_outcome {pt : PayloadType} {text : String} {b : Int64} {bs : List Int64}
    (h : outcome pt text b = some bs) : bs.length ≤ text.length + 1 := by
  unfold outcome at h
  split at h
  · cases h
  split at h
  · obtain ⟨n, -, rfl⟩ := Option.map_eq_some_iff.1 h
    simp
  split at h
  · obtain ⟨n, -, h⟩ := Option.bind_eq_some_iff.1 h
    split at h
    · cases h
      simp
    · cases h
  split at h
  · obtain ⟨steps, hsteps, h⟩ := Option.bind_eq_some_iff.1 h
    have htext := String.eq_append_of_dropPrefix?_string_eq_some hsteps
    have hpieces := Text.length_splitOn_le ',' steps.toString.toList
    rw [length_of_batchBalances h, show ("," : String) = String.ofList [','] from rfl,
      Text.splitOn_singleton, List.length_map]
    have hlen : steps.toString.length ≤ text.length := by
      rw [htext, String.length_append, String.Slice.toString_eq]
      omega
    rw [String.length_toList] at hpieces
    omega
  split at h
  · cases h
    simp
  · cases h

/-- The ledger routes no more balances than its command has payload bytes, and one. -/
theorem length_of_verdict {c : Command} {b : Int64} {bs : List Int64}
    (h : verdict c b = some bs) : bs.length ≤ c.payload.length + 1 := by
  obtain ⟨text, htext, houtcome⟩ := Option.bind_eq_some_iff.1 h
  have hbytes := Bytes.length_le_of_utf8? htext
  have hsteps := length_of_outcome houtcome
  omega

end Verdict

section Processing

/-- The event routed for a balance. -/
def balanceRouted (b : Int64) : Routed := ⟨balanceType, Bytes.ofString s!"balance:{b}"⟩

/-- A balance event is short: a prefix and a signed word. -/
theorem length_balanceRouted (b : Int64) : (balanceRouted b).payload.length ≤ Router.maxPayload := by
  have hbytes := Bytes.length_ofString s!"balance:{b}"
  have hword := Warehouse.length_toString b
  have htext : s!"balance:{b}".length = 8 + (toString b).length := by
    show ("balance:" ++ toString b).length = _
    rw [String.length_append, show "balance:".length = 8 by decide]
  unfold balanceRouted Router.maxPayload
  dsimp only
  omega

/-- An open transaction routes a balance. -/
theorem routeBalance_of_open {r : Router} (hr : r.aborted = false) (b : Int64) :
    routeBalance r b = .ok { r with routed := r.routed ++ [balanceRouted b] } := by
  have hfit : ¬Router.maxPayload < (Bytes.ofString s!"balance:{b}").length :=
    Nat.not_lt.2 (length_balanceRouted b)
  unfold routeBalance Router.route Router.ensureOpen Router.push
  rw [if_neg (by simp [hr]), if_neg hfit]
  rfl

theorem readAmount?_eq_some {text : String} {n : Int64} :
    readAmount? text = some n ↔ Text.parseInt64 (Text.trim text) = .ok n := by
  unfold readAmount?
  cases Text.parseInt64 (Text.trim text) <;> simp [Except.toOption]

/-- The amount after a prefix reads as the processor reads it. -/
theorem amount_toOption (text prefixText : String) :
    (amount text prefixText).toOption = amountAfter? text prefixText := by
  unfold amount amountAfter? readAmount?
  cases text.dropPrefix? prefixText with
  | none => rfl
  | some raw =>
    dsimp only [Option.bind_some]
    cases Text.parseInt64 (Text.trim raw.toString) <;> rfl

/-- A batch whose amounts all read and whose running balances stay at or above zero routes
every running balance, in order, into an open transaction. -/
theorem runBatch_of_balances : ∀ {steps : List String} {b : Int64} {bs : List Int64} {r : Router},
    r.aborted = false → batchBalances b steps = some bs →
      runBatch steps b r = .ok { r with routed := r.routed ++ bs.map balanceRouted }
  | [], b, bs, r, _, h => by
    rw [batchBalances_nil, Option.some.injEq] at h
    subst h
    simp [runBatch]
  | step :: rest, b, bs, r, hr, h => by
    rw [batchBalances_cons] at h
    obtain ⟨n, hn, h⟩ := Option.bind_eq_some_iff.1 h
    split at h
    · cases h
    rename_i hneg
    obtain ⟨bs', hrest, rfl⟩ := Option.map_eq_some_iff.1 h
    rw [runBatch, readAmount?_eq_some.1 hn]
    dsimp only
    rw [if_neg hneg, routeBalance_of_open hr]
    dsimp only
    have hr' : ({ r with routed := r.routed ++ [balanceRouted (b + n)] } : Router).aborted = false := hr
    rw [runBatch_of_balances hr' hrest]
    simp

/-- A batch that does not go through routes nothing that lasts: its loop fails, or ends with
the transaction aborted. -/
theorem aborted_of_runBatch : ∀ {steps : List String} {b : Int64} {r r' : Router},
    batchBalances b steps = none → runBatch steps b r = .ok r' → r'.aborted = true
  | [], b, r, r', h, _ => by
    rw [batchBalances_nil] at h
    cases h
  | step :: rest, b, r, r', h, hrun => by
    rw [batchBalances_cons, Option.bind_eq_none_iff] at h
    rw [runBatch] at hrun
    cases hparse : Text.parseInt64 (Text.trim step) with
    | error e => rw [hparse] at hrun; cases hrun
    | ok n =>
      rw [hparse] at hrun
      dsimp only at hrun
      have hstep := h n (readAmount?_eq_some.2 hparse)
      split at hrun
      · -- the running balance drops below zero: the transaction is aborted
        cases hrun
        rfl
      · rename_i hneg
        rw [if_neg hneg, Option.map_eq_none_iff] at hstep
        split at hrun
        · exact aborted_of_runBatch hstep hrun
        · cases hrun

/-- Handling the text of a command in an open transaction routes the balances of the ledger's
verdict when it commits the command, and otherwise fails or aborts the transaction. -/
theorem handle_of_outcome (c : Command) (text : String) (b : Int64) {r : Router}
    (hr : r.aborted = false) :
    match outcome c.payloadType text b with
    | some bs => handle c text b r = .ok { r with routed := r.routed ++ bs.map balanceRouted }
    | none => ∀ r', handle c text b r = .ok r' → r'.aborted = true := by
  unfold outcome handle
  by_cases hpanic : text = "panic"
  · rw [if_pos (.inl hpanic), if_pos (show (text == "panic") = true by rw [hpanic]; rfl)]
    intro r' h
    cases h
  by_cases hfail : text = "fail"
  · rw [if_pos (.inr hfail), if_neg (show ¬(text == "panic") = true by simpa using hpanic), if_pos (show (text == "fail") = true by rw [hfail]; rfl)]
    intro r' h
    cases h
  rw [if_neg (not_or.2 ⟨hpanic, hfail⟩), if_neg (show ¬(text == "panic") = true by simpa using hpanic),
    if_neg (show ¬(text == "fail") = true by simpa using hfail)]
  by_cases hdeposit : c.payloadType = deposit
  · -- a deposit routes the balance with its amount added
    rw [if_pos hdeposit, if_pos (show (c.payloadType == deposit) = true by simpa using hdeposit), ← amount_toOption]
    cases amount text "deposit:" with
    | error f => intro r' h; cases h
    | ok n =>
      dsimp only [Except.toOption, Option.map_some]
      rw [routeBalance_of_open hr]
      rfl
  rw [if_neg hdeposit, if_neg (show ¬(c.payloadType == deposit) = true by simpa using hdeposit)]
  by_cases hwithdraw : c.payloadType = withdraw
  · -- a withdrawal the balance covers routes the balance with its amount taken off
    rw [if_pos hwithdraw, if_pos (show (c.payloadType == withdraw) = true by simpa using hwithdraw), ← amount_toOption]
    cases amount text "withdraw:" with
    | error f => intro r' h; cases h
    | ok n =>
      dsimp only [Except.toOption, Option.bind_some]
      by_cases hcover : n ≤ b
      · rw [if_pos hcover, if_neg (Int64.not_lt.2 hcover), routeBalance_of_open hr]
        simp
      · rw [if_neg hcover, if_pos (Int64.not_le.1 hcover)]
        intro r' h
        cases h
        rfl
  rw [if_neg hwithdraw, if_neg (show ¬(c.payloadType == withdraw) = true by simpa using hwithdraw)]
  by_cases hbatch : c.payloadType = batch
  · -- a batch runs its amounts
    rw [if_pos hbatch, if_pos (show (c.payloadType == batch) = true by simpa using hbatch)]
    cases text.dropPrefix? "batch:" with
    | none => intro r' h; cases h
    | some steps =>
      dsimp only [Option.bind_some]
      cases hsteps : batchBalances b (steps.toString.splitOn ",") with
      | none => exact fun r' h => aborted_of_runBatch hsteps h
      | some bs => exact runBatch_of_balances hr hsteps
  rw [if_neg hbatch, if_neg (show ¬(c.payloadType == batch) = true by simpa using hbatch)]
  by_cases hnote : c.payloadType = note
  · rw [if_pos hnote, if_pos (show (c.payloadType == note) = true by simpa using hnote)]
    simp
  rw [if_neg hnote, if_neg (show ¬(c.payloadType == note) = true by simpa using hnote)]
  intro r' h
  cases h

/-- The ledger's processor in a fresh transaction leaves the ledger alone; it routes the
balances of its verdict when it commits the command, and otherwise aborts the transaction or
fails. -/
theorem process_begin (c : Command) (base : BaseState) (l : Ledger) :
    let r := (processor Focus.whole).process c base l (Router.begin c)
    r.2.1 = l ∧ match verdict c (l.balance c.source) with
      | some bs => r.1 = .ok () ∧ r.2.2 = { Router.begin c with routed := bs.map balanceRouted }
      | none => r.2.2.command = c ∧ (r.1 = .ok () → r.2.2.aborted = true) := by
  dsimp only
  unfold verdict
  simp only [processor, Focus.whole, id]
  cases hutf : Bytes.utf8? c.payload with
  | none => exact ⟨rfl, rfl, fun h => by cases h⟩
  | some text =>
    simp only [Option.bind_some]
    have hh := handle_of_outcome c text (l.balance c.source)
      (show (Router.begin c).aborted = false from rfl)
    revert hh
    cases outcome c.payloadType text (l.balance c.source) with
    | some bs =>
      intro hh
      dsimp only at hh
      rw [hh]
      simp [Router.begin]
    | none =>
      intro hh
      cases hr : handle c text (l.balance c.source) (Router.begin c) with
      | ok r' => exact ⟨rfl, (handle_extends hr).command_eq, fun _ => hh r' hr⟩
      | error e => exact ⟨rfl, rfl, fun h => by cases h⟩

end Processing

section Sealing

/-- What a transaction of a command seals to under the ledger's verdict `v` on it: one rollback
when the ledger rolls the command back, one auto-commit when it routes nothing, and otherwise one
balance event per routed balance, in order, all intermediary but the last, which commits. -/
def sealed : Option (List Int64) → List (EventKind × Routed)
  | none => [(.rollback, ⟨0, []⟩)]
  | some [] => [(.autoCommit, ⟨0, []⟩)]
  | some (b :: bs) => Router.committed ((b :: bs).map balanceRouted)

/-- The events `evs` are those a transaction of the command `c` seals to under the verdict
`v`. -/
def Seals (c : Command) (evs : List Event) (v : Option (List Int64)) : Prop :=
  (∀ e ∈ evs, e.source = c.source ∧ e.sourceSequence = c.sequence) ∧
    evs.map Event.carries = sealed v

/-- A transaction seals to one event per balance it routes, and one when it routes none. -/
theorem length_sealed (v : Option (List Int64)) :
    (sealed v).length ≤ (v.map List.length).getD 0 + 1 := by
  match v with
  | none => exact Nat.le_refl 1
  | some [] => exact Nat.le_refl 1
  | some (b :: bs) =>
    rw [sealed, Router.length_committed, List.length_map]
    simp

/-- The ledger's processor alone, from a fresh transaction, leaves the ledger alone, and its
transaction seals to what the ledger's verdict on the command says. -/
theorem seal_runAll (c : Command) (base : BaseState) (l : Ledger) (first : UInt64)
    (time : Timestamp) :
    let chain := Processor.runAll c base [processor Focus.whole] l (Router.begin c)
    chain.2.1 = l ∧
      Seals c ((chain.2.2.close chain.1).finish first time).2 (verdict c (l.balance c.source)) := by
  dsimp only
  obtain ⟨hstate, hgoes⟩ := Processor.runAll_single c base (processor Focus.whole) l
    (Router.begin c) rfl
  obtain ⟨hworld, hverdict⟩ := process_begin c base l
  have hext := (processor Focus.whole).process_extends c base l (Router.begin c)
  generalize Processor.runAll c base [processor Focus.whole] l (Router.begin c) = chain
    at hstate hgoes
  generalize (processor Focus.whole).process c base l (Router.begin c) = a
    at hstate hgoes hworld hverdict hext
  obtain ⟨result, l', r'⟩ := chain
  obtain ⟨result₀, l₀, r₀⟩ := a
  obtain ⟨rfl, rfl⟩ := Prod.mk.inj hstate
  dsimp only at hworld hgoes hverdict hext
  refine ⟨hworld, fun e he => ?_, ?_⟩
  · -- every sealed event belongs to the command
    obtain ⟨hsource, hsequence, -⟩ := Router.mem_finish he
    rw [Router.command_close, hext.command_eq] at hsource hsequence
    exact ⟨hsource, hsequence⟩
  cases hv : verdict c (l.balance c.source) with
  | none =>
    rw [hv] at hverdict
    obtain ⟨hcommand, habort⟩ := hverdict
    rw [Router.finish_close_of_aborted (fun h => habort (hgoes.1 h)) first time]
    rfl
  | some bs =>
    rw [hv] at hverdict
    obtain ⟨hok, rfl⟩ := hverdict
    rw [hgoes.2 hok, Router.close_ok]
    cases bs with
    | nil => rw [Router.finish_of_routed_nil rfl rfl first time]; rfl
    | cons b bs => exact Router.carries_finish rfl (by simp) first time

end Sealing

section Settling

/-- The ledger after a command: the source's balance is the last balance of the ledger's
verdict, and stays when the verdict routes none or rolls the command back. -/
def settle (l : Ledger) (c : Command) : Ledger :=
  match (verdict c (l.balance c.source)).bind List.getLast? with
  | some b => l.setBalance c.source b
  | none => l

theorem balance_settle (l : Ledger) (c : Command) (x : SourceId) :
    (settle l c).balance x = if x = c.source then
      ((verdict c (l.balance c.source)).bind List.getLast?).getD (l.balance c.source)
      else l.balance x := by
  unfold settle
  cases (verdict c (l.balance c.source)).bind List.getLast? with
  | some b => rw [balance_setBalance]; rfl
  | none => split <;> simp_all

/-- The applier sets the source's balance to the balance an event carries. -/
theorem apply_balanceRouted {e : Event} {b : Int64}
    (h : (⟨e.payloadType, e.payload⟩ : Routed) = balanceRouted b) (l : Ledger) :
    (applier Focus.whole).apply e l = l.setBalance e.source b := by
  obtain ⟨htype, hpayload⟩ := Routed.mk.inj h
  obtain ⟨rest, hrest, htext⟩ := Text.dropPrefix?_append "balance:" (toString b)
  have hrest' : s!"balance:{b}".dropPrefix? "balance:" = some rest := hrest
  have hread : balanceOf? e = some b := by
    unfold balanceOf?
    rw [htype, hpayload, if_neg (by simp), Bytes.utf8?_ofString]
    dsimp only
    rw [hrest']
    dsimp only
    rw [htext, Text.parseInt64_toString_word]
    rfl
  simp only [applier, hread, Focus.whole, id]

/-- An event of another payload type leaves the ledger alone. -/
theorem apply_of_ne {e : Event} (h : e.payloadType ≠ balanceType) (l : Ledger) :
    (applier Focus.whole).apply e l = l := by
  have hread : balanceOf? e = none := by
    unfold balanceOf?
    rw [if_pos (by simpa using h)]
  simp only [applier, hread]

variable {a : Application Ledger}

theorem deliverAll_single (happliers : a.appliers.members = [applier Focus.whole]) (e : Event)
    (evs : List Event) (l : Ledger) :
    a.deliverAll (e :: evs) l = a.deliverAll evs
      (if a.mode.admits e.kind then (applier Focus.whole).apply e l else l) := by
  rw [Application.deliverAll_cons, happliers, List.foldl_cons, List.foldl_nil]

/-- Delivered in order, the events of a committed transaction leave the source's balance at the
last balance routed, whichever intermediary ones the mode passes over: it admits the commit. -/
theorem deliverAll_committed (happliers : a.appliers.members = [applier Focus.whole])
    (x : SourceId) :
    ∀ (bs : List Int64) (hne : bs ≠ []) (evs : List Event) (l : Ledger),
      (∀ e ∈ evs, e.source = x) → evs.map Event.carries = Router.committed (bs.map balanceRouted) →
        a.deliverAll evs l = l.setBalance x (bs.getLast hne)
  | [], hne, _, _, _, _ => absurd rfl hne
  | [b], _, evs, l, hsource, hevs => by
    obtain ⟨e, rest, rfl, he, hrest⟩ := List.map_eq_cons_iff.1 hevs
    obtain rfl := List.map_eq_nil_iff.1 hrest
    obtain ⟨hkind, hrouted⟩ := Prod.mk.inj he
    rw [deliverAll_single happliers, hkind, if_pos (Warehouse.admits_commit a.mode),
      apply_balanceRouted hrouted, hsource e (List.mem_singleton_self e)]
    rfl
  | b :: b' :: rest, _, evs, l, hsource, hevs => by
    obtain ⟨e, evs', rfl, he, hrest⟩ := List.map_eq_cons_iff.1 hevs
    obtain ⟨-, hrouted⟩ := Prod.mk.inj he
    have htail := fun l₁ => deliverAll_committed happliers x (b' :: rest) (List.cons_ne_nil _ _)
      evs' l₁ (fun e' he' => hsource e' (List.mem_cons_of_mem e he')) hrest
    rw [deliverAll_single happliers, List.getLast_cons (List.cons_ne_nil _ _), htail]
    -- the intermediary balance, set or passed over, is overwritten by the last one
    split
    · rw [apply_balanceRouted hrouted, hsource e List.mem_cons_self, setBalance_setBalance]
    · rfl

/-- A transaction sealed to one event that carries no payload, a rollback or an auto-commit,
leaves the ledger alone. -/
theorem deliverAll_of_unrouted (happliers : a.appliers.members = [applier Focus.whole])
    {evs : List Event} {k : EventKind} (h : evs.map Event.carries = [(k, ⟨0, []⟩)])
    (l : Ledger) : a.deliverAll evs l = l := by
  obtain ⟨e, rest, rfl, he, hrest⟩ := List.map_eq_cons_iff.1 h
  obtain rfl := List.map_eq_nil_iff.1 hrest
  have htype : e.payloadType = 0 := congrArg Routed.payloadType (Prod.mk.inj he).2
  rw [deliverAll_single happliers, apply_of_ne (by rw [htype]; decide), ite_self]
  rfl

/-- Delivered in order, the events a transaction of a command seals to under the ledger's
verdict leave the ledger as the command settles it. -/
theorem deliverAll_seal (happliers : a.appliers.members = [applier Focus.whole]) {c : Command}
    {evs : List Event} {l : Ledger} (h : Seals c evs (verdict c (l.balance c.source))) :
    a.deliverAll evs l = settle l c := by
  obtain ⟨hcommand, hevs⟩ := h
  unfold settle
  revert hevs
  cases verdict c (l.balance c.source) with
  | none => exact fun hevs => deliverAll_of_unrouted happliers hevs l
  | some bs =>
    cases bs with
    | nil => exact fun hevs => deliverAll_of_unrouted happliers hevs l
    | cons b bs =>
      intro hevs
      rw [Option.bind_some, List.getLast?_eq_some_getLast (List.cons_ne_nil b bs)]
      exact deliverAll_committed happliers c.source (b :: bs) (List.cons_ne_nil b bs) evs l
        (fun e he => (hcommand e he).1) hevs

end Settling

end Ledger

end EventSourcing
