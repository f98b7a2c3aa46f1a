import Mathlib
import EventSourcing.Record.View

/-!
# The record format

A command record is a 28-byte header and then the payload; an event record is a 41-byte header
and then the payload, its one-byte kind at offset 32 shifting every later field by one. Each
header field is a little-endian word at a fixed offset.

The format is faithful in both directions. Writing a record puts each field at its offset,
and reading the bytes back, whatever follows them, gives the record, directly or through a
view (`records_round_trip`). Reading accepts exactly the byte strings that have a header, a
declared payload that fits after it and, for events, a kind byte that names a kind, and it
reports the first of these checks that fails; what it accepts it writes back unchanged, but
for the bytes after the payload (`record_parsers_classify`).
-/

namespace EventSourcing

open Bytes

section Declared

variable {bytes : Bytes} {headerLength sizeOffset : Nat}

theorem declaredPayload_eq_truncated_iff :
    declaredPayload bytes headerLength sizeOffset = .error (.truncated bytes.length headerLength) ↔
      bytes.length < headerLength := by
  unfold declaredPayload
  split
  · simp only [true_iff]
    assumption
  · rename_i hheader
    dsimp only
    split <;> simp [hheader]

theorem declaredPayload_eq_overflow_iff (hheader : headerLength ≤ bytes.length) :
    declaredPayload bytes headerLength sizeOffset =
        .error (.payloadOverflow (readUInt32 bytes sizeOffset).toNat (bytes.length - headerLength)) ↔
      bytes.length - headerLength < (readUInt32 bytes sizeOffset).toNat := by
  unfold declaredPayload
  rw [if_neg (by omega)]
  dsimp only
  split <;> simp_all

theorem declaredPayload_of_fits (hheader : headerLength ≤ bytes.length)
    (hfits : (readUInt32 bytes sizeOffset).toNat ≤ bytes.length - headerLength) :
    declaredPayload bytes headerLength sizeOffset = .ok (readUInt32 bytes sizeOffset).toNat := by
  unfold declaredPayload
  rw [if_neg (by omega)]
  dsimp only
  rw [if_neg (by omega)]

end Declared

/-- The kind byte is the byte at offset 32. -/
theorem Event.kindByte_of_getElem? {bytes : Bytes} {code : UInt8} (h : bytes[32]? = some code) :
    Event.kindByte bytes = code := by
  rw [Event.kindByte, List.headD_eq_head?_getD, List.head?_drop, h, Option.getD_some]

/-! ## Writing a record and reading it back -/

/-- What writing a command guarantees: each field is the word at its offset, and the record
reads back as the command, with any bytes after it, directly and through a view. -/
structure Command.Written (c : Command) (rest : Bytes) : Prop where
  length : c.encode.length = commandHeaderLength + c.payload.length
  source : readInt32 c.encode 0 = c.source
  sequence : readUInt64 c.encode 4 = c.sequence
  time : readInt64 c.encode 12 = c.time
  payloadType : readInt32 c.encode 20 = c.payloadType
  size : (readUInt32 c.encode 24).toNat = c.payload.length
  payload : c.encode.drop commandHeaderLength = c.payload
  decodes : Command.decode (c.encode ++ rest) = .ok c
  view : ∃ r, CommandRecord.parse (c.encode ++ rest) = .ok r ∧ r.toCommand = c ∧
    r.payload = c.payload

/-- What writing an event guarantees: each field is the word or byte at its offset, and the
record reads back as the event, with any bytes after it, directly and through a view. -/
structure Event.Written (e : Event) (rest : Bytes) : Prop where
  length : e.encode.length = eventHeaderLength + e.payload.length
  source : readInt32 e.encode 0 = e.source
  sourceSequence : readUInt64 e.encode 4 = e.sourceSequence
  time : readInt64 e.encode 12 = e.time
  sequence : readUInt64 e.encode 20 = e.sequence
  index : readUInt32 e.encode 28 = e.index
  kind : e.encode[32]? = some e.kind.code
  payloadType : readInt32 e.encode 33 = e.payloadType
  size : (readUInt32 e.encode 37).toNat = e.payload.length
  payload : e.encode.drop eventHeaderLength = e.payload
  decodes : Event.decode (e.encode ++ rest) = .ok e
  view : ∃ r, EventRecord.parse (e.encode ++ rest) = .ok r ∧ r.toEvent = e ∧
    r.payload = e.payload

namespace Command

variable (c : Command)

theorem length_encode : c.encode.length = commandHeaderLength + c.payload.length := by
  simp [encode, ofInt32, ofInt64, commandHeaderLength]
  omega

/-- The record of a command, its words written out: the header is 28 bytes. -/
theorem encode_eq_words : c.encode = ofUInt32 c.source.toUInt32 ++ (ofUInt64 c.sequence ++
    (ofUInt64 c.time.toUInt64 ++ (ofUInt32 c.payloadType.toUInt32 ++
    (ofUInt32 c.payload.length.toUInt32 ++ c.payload)))) := by
  simp [encode, ofInt32, ofInt64]

theorem drop_encode : c.encode.drop commandHeaderLength = c.payload := by
  rw [encode]
  exact List.drop_left' (by simp [ofInt32, ofInt64, commandHeaderLength])

theorem encode_fields (h : c.payload.length < 2 ^ 32) :
    readInt32 c.encode 0 = c.source ∧ readUInt64 c.encode 4 = c.sequence ∧
      readInt64 c.encode 12 = c.time ∧ readInt32 c.encode 20 = c.payloadType ∧
      (readUInt32 c.encode 24).toNat = c.payload.length := by
  rw [encode_eq_words]
  -- each word is read past the words before it
  simp (disch := simp) only [readInt32, readInt64, readUInt32_append_right,
    readUInt64_append_right, length_ofUInt32, length_ofUInt64, readUInt32_ofUInt32,
    readUInt64_ofUInt64, Nat.reduceSub, Int32.toInt32_toUInt32, Int64.toInt64_toUInt64]
  refine ⟨trivial, trivial, trivial, trivial, ?_⟩
  simpa using Nat.mod_eq_of_lt h

/-- The record of a command, with any bytes after it, reads as a view of the command. -/
theorem parse_encode_append (h : c.payload.length < 2 ^ 32) (rest : Bytes) :
    ∃ r, CommandRecord.parse (c.encode ++ rest) = .ok r ∧ r.toCommand = c ∧
      r.payload = c.payload := by
  obtain ⟨hsource, hsequence, htime, htype, hsize⟩ := c.encode_fields h
  have hlen := c.length_encode
  have hpayload := c.drop_encode
  unfold commandHeaderLength at hlen hpayload
  have hsize' : (readUInt32 (c.encode ++ rest) 24).toNat = c.payload.length := by
    rw [readUInt32_append_left rest (by omega), hsize]
  have hdeclared : declaredPayload (c.encode ++ rest) commandHeaderLength 24 =
      .ok c.payload.length := by
    have hlen' : (c.encode ++ rest).length = 28 + c.payload.length + rest.length := by
      simp [hlen]
    rw [← hsize']
    apply declaredPayload_of_fits <;> simp only [hlen', hsize', commandHeaderLength] <;> omega
  obtain ⟨r, hr, hbytes, hlength⟩ := CommandRecord.parse_of_declared_ok hdeclared
  have hview : r.payload = c.payload := by
    rw [CommandRecord.payload, hbytes, hlength, commandHeaderLength,
      List.drop_append_of_le_length (by omega), hpayload, List.take_left]
  refine ⟨r, hr, ?_, hview⟩
  -- every header field lies within the record, before the bytes that follow it
  rw [CommandRecord.toCommand, hview, CommandRecord.source, CommandRecord.sequence,
    CommandRecord.time, CommandRecord.payloadType, hbytes,
    readInt32_append_left rest (by omega), readUInt64_append_left rest (by omega),
    readInt64_append_left rest (by omega), readInt32_append_left rest (by omega),
    hsource, hsequence, htime, htype]

theorem written (h : c.payload.length < 2 ^ 32) (rest : Bytes) : c.Written rest := by
  obtain ⟨hsource, hsequence, htime, htype, hsize⟩ := c.encode_fields h
  obtain ⟨r, hr, hcommand, hview⟩ := c.parse_encode_append h rest
  refine ⟨c.length_encode, hsource, hsequence, htime, htype, hsize, c.drop_encode, ?_,
    ⟨r, hr, hcommand, hview⟩⟩
  rw [decode_eq_map_parse, hr, ← hcommand]
  rfl

end Command

namespace Event

variable (e : Event)

theorem length_encode : e.encode.length = eventHeaderLength + e.payload.length := by
  simp [encode, ofInt32, ofInt64, eventHeaderLength]
  omega

/-- The record of an event, its words written out: the kind byte sits between the index and
the payload type, and the header is 41 bytes. -/
theorem encode_eq_words : e.encode = ofUInt32 e.source.toUInt32 ++ (ofUInt64 e.sourceSequence ++
    (ofUInt64 e.time.toUInt64 ++ (ofUInt64 e.sequence ++ (ofUInt32 e.index ++
    ([e.kind.code] ++ (ofUInt32 e.payloadType.toUInt32 ++
    (ofUInt32 e.payload.length.toUInt32 ++ e.payload))))))) := by
  simp [encode, ofInt32, ofInt64]

theorem drop_encode : e.encode.drop eventHeaderLength = e.payload := by
  rw [encode]
  exact List.drop_left' (by simp [ofInt32, ofInt64, eventHeaderLength])

theorem getElem?_encode_kind : e.encode[32]? = some e.kind.code := by
  rw [encode_eq_words]
  simp [List.getElem?_append_right]

theorem encode_fields (h : e.payload.length < 2 ^ 32) :
    readInt32 e.encode 0 = e.source ∧ readUInt64 e.encode 4 = e.sourceSequence ∧
      readInt64 e.encode 12 = e.time ∧ readUInt64 e.encode 20 = e.sequence ∧
      readUInt32 e.encode 28 = e.index ∧ readInt32 e.encode 33 = e.payloadType ∧
      (readUInt32 e.encode 37).toNat = e.payload.length := by
  rw [encode_eq_words]
  -- each word is read past the words before it, the kind byte included
  simp (disch := simp) only [readInt32, readInt64, readUInt32_append_right,
    readUInt64_append_right, length_ofUInt32, length_ofUInt64, List.length_singleton,
    readUInt32_ofUInt32, readUInt64_ofUInt64, Nat.reduceSub, Int32.toInt32_toUInt32,
    Int64.toInt64_toUInt64]
  refine ⟨trivial, trivial, trivial, trivial, trivial, trivial, ?_⟩
  simpa using Nat.mod_eq_of_lt h

/-- The record of an event, with any bytes after it, reads as a view of the event. -/
theorem parse_encode_append (h : e.payload.length < 2 ^ 32) (rest : Bytes) :
    ∃ r, EventRecord.parse (e.encode ++ rest) = .ok r ∧ r.toEvent = e ∧
      r.payload = e.payload := by
  obtain ⟨hsource, hsourceSequence, htime, hsequence, hindex, htype, hsize⟩ := e.encode_fields h
  have hlen := e.length_encode
  have hpayload := e.drop_encode
  unfold eventHeaderLength at hlen hpayload
  have hsize' : (readUInt32 (e.encode ++ rest) 37).toNat = e.payload.length := by
    rw [readUInt32_append_left rest (by omega), hsize]
  have hdeclared : declaredPayload (e.encode ++ rest) eventHeaderLength 37 =
      .ok e.payload.length := by
    have hlen' : (e.encode ++ rest).length = 41 + e.payload.length + rest.length := by
      simp [hlen]
    rw [← hsize']
    apply declaredPayload_of_fits <;> simp only [hlen', hsize', eventHeaderLength] <;> omega
  have hkind : Event.kindByte (e.encode ++ rest) = e.kind.code := by
    apply Event.kindByte_of_getElem?
    rw [List.getElem?_append_left (by omega), e.getElem?_encode_kind]
  obtain ⟨r, hr, hbytes, hlength, hrkind⟩ :=
    EventRecord.parse_of_named hdeclared (by rw [hkind, EventKind.ofCode?_code])
  have hview : r.payload = e.payload := by
    rw [EventRecord.payload, hbytes, hlength, eventHeaderLength,
      List.drop_append_of_le_length (by omega), hpayload, List.take_left]
  refine ⟨r, hr, ?_, hview⟩
  -- every header field lies within the record, before the bytes that follow it
  rw [EventRecord.toEvent, hview, hrkind, EventRecord.source, EventRecord.sourceSequence,
    EventRecord.time, EventRecord.sequence, EventRecord.index, EventRecord.payloadType, hbytes,
    readInt32_append_left rest (by omega), readUInt64_append_left rest (by omega),
    readInt64_append_left rest (by omega), readUInt64_append_left rest (by omega),
    readUInt32_append_left rest (by omega), readInt32_append_left rest (by omega),
    hsource, hsourceSequence, htime, hsequence, hindex, htype]

theorem written (h : e.payload.length < 2 ^ 32) (rest : Bytes) : e.Written rest := by
  obtain ⟨hsource, hsourceSequence, htime, hsequence, hindex, htype, hsize⟩ := e.encode_fields h
  obtain ⟨r, hr, hevent, hview⟩ := e.parse_encode_append h rest
  refine ⟨e.length_encode, hsource, hsourceSequence, htime, hsequence, hindex,
    e.getElem?_encode_kind, htype, hsize, e.drop_encode, ?_, ⟨r, hr, hevent, hview⟩⟩
  rw [decode_eq_map_parse, hr, ← hevent]
  rfl

end Event

/-- Writing a record puts each field at its offset, and reading it back, with any bytes
after it, gives the record, directly or through a view; decoding is reading a view and copying
it out. -/
theorem records_round_trip :
    (∀ (c : Command) (rest : Bytes), c.payload.length < 2 ^ 32 → c.Written rest) ∧
    (∀ (e : Event) (rest : Bytes), e.payload.length < 2 ^ 32 → e.Written rest) ∧
    (∀ bytes, Command.decode bytes = CommandRecord.toCommand <$> CommandRecord.parse bytes) ∧
    (∀ bytes, Event.decode bytes = EventRecord.toEvent <$> EventRecord.parse bytes) :=
  ⟨fun c rest h => c.written h rest, fun e rest h => e.written h rest,
    Command.decode_eq_map_parse, Event.decode_eq_map_parse⟩

/-- A deposit command and an event of its transaction, each read back with a byte after it. -/
theorem records_round_trip_of_deposit :
    ([100, 58, 53] : Bytes).length < 2 ^ 32 ∧
      Command.Written ⟨7, 1, 123, 1, [100, 58, 53]⟩ [255] ∧
      Event.Written ⟨-7, 1, 3, 0, .commit, -5, 10, [100, 58, 53]⟩ [255] :=
  ⟨by decide, records_round_trip.1 _ _ (by decide), records_round_trip.2.1 _ _ (by decide)⟩

/-! ## Reading a record and writing it back -/

/-- The owned copy of a command view, written again, is the record the view was read from. -/
theorem CommandRecord.encode_toCommand (r : CommandRecord) : r.toCommand.encode = r.asBytes := by
  have hfits := r.fits
  unfold commandHeaderLength at hfits
  have hsize : r.payload.length.toUInt32 = readUInt32 r.bytes 24 := by
    rw [length_payload, r.declared]
    exact UInt32.ofNat_toNat
  rw [toCommand, Command.encode]
  dsimp only
  rw [hsize, source, sequence, time, payloadType, ofInt32_readInt32 (by omega),
    ofUInt64_readUInt64 (by omega), ofInt64_readInt64 (by omega),
    ofInt32_readInt32 (by omega), ofUInt32_readUInt32 (by omega), List.drop_zero, payload,
    asBytes, commandHeaderLength]
  -- the words and the payload are consecutive slices of the bytes
  rw [@List.take_add _ r.bytes 28 _, @List.take_add _ r.bytes 24 4, @List.take_add _ r.bytes 20 4,
    @List.take_add _ r.bytes 12 8, @List.take_add _ r.bytes 4 8]

/-- The owned copy of an event view, written again, is the record the view was read from. -/
theorem EventRecord.encode_toEvent (r : EventRecord) : r.toEvent.encode = r.asBytes := by
  have hfits := r.fits
  unfold eventHeaderLength at hfits
  have hsize : r.payload.length.toUInt32 = readUInt32 r.bytes 37 := by
    rw [length_payload, r.declared]
    exact UInt32.ofNat_toNat
  have hkind : [r.kind.code] = (r.bytes.drop 32).take 1 := by
    have h32 : 32 < r.bytes.length := by omega
    rw [EventKind.code_of_ofCode? r.named,
      Event.kindByte_of_getElem? (List.getElem?_eq_getElem h32),
      List.take_one_drop_eq_of_lt_length h32, List.get_eq_getElem]
  rw [toEvent, Event.encode]
  dsimp only
  rw [hsize, hkind, source, sourceSequence, time, sequence, index, payloadType,
    ofInt32_readInt32 (by omega), ofUInt64_readUInt64 (by omega), ofInt64_readInt64 (by omega),
    ofUInt64_readUInt64 (by omega), ofUInt32_readUInt32 (by omega),
    ofInt32_readInt32 (by omega), ofUInt32_readUInt32 (by omega), List.drop_zero, payload,
    asBytes, eventHeaderLength]
  -- the words, the kind byte and the payload are consecutive slices of the bytes
  rw [@List.take_add _ r.bytes 41 _, @List.take_add _ r.bytes 37 4, @List.take_add _ r.bytes 33 4,
    @List.take_add _ r.bytes 32 1, @List.take_add _ r.bytes 28 4, @List.take_add _ r.bytes 20 8,
    @List.take_add _ r.bytes 12 8, @List.take_add _ r.bytes 4 8]

namespace CommandRecord

variable {bytes : Bytes}

theorem parse_eq_error_iff {e : RecordError} :
    parse bytes = .error e ↔ declaredPayload bytes commandHeaderLength 24 = .error e := by
  cases h : declaredPayload bytes commandHeaderLength 24 with
  | error e' => simp [parse_of_declared_error h]
  | ok size =>
    obtain ⟨r, hr, -, -⟩ := parse_of_declared_ok h
    simp [hr]

theorem bytes_of_parse {r : CommandRecord} (h : parse bytes = .ok r) : r.bytes = bytes := by
  cases hd : declaredPayload bytes commandHeaderLength 24 with
  | error e => simp [parse_of_declared_error hd] at h
  | ok size =>
    obtain ⟨r', hr', hbytes, -⟩ := parse_of_declared_ok hd
    rw [hr'] at h
    cases h
    exact hbytes

theorem parse_eq_truncated_iff :
    parse bytes = .error (.truncated bytes.length commandHeaderLength) ↔
      bytes.length < commandHeaderLength := by
  rw [parse_eq_error_iff]
  exact declaredPayload_eq_truncated_iff

theorem parse_eq_overflow_iff (h : commandHeaderLength ≤ bytes.length) :
    parse bytes = .error (.payloadOverflow (readUInt32 bytes 24).toNat
        (bytes.length - commandHeaderLength)) ↔
      bytes.length - commandHeaderLength < (readUInt32 bytes 24).toNat := by
  rw [parse_eq_error_iff]
  exact declaredPayload_eq_overflow_iff h

theorem parse_of_fits (h : commandHeaderLength ≤ bytes.length)
    (hfits : (readUInt32 bytes 24).toNat ≤ bytes.length - commandHeaderLength) :
    ∃ r, parse bytes = .ok r := by
  obtain ⟨r, hr, -⟩ := parse_of_declared_ok (declaredPayload_of_fits h hfits)
  exact ⟨r, hr⟩

/-- What a command view read from some bytes gives: the decoded command, which writes back
as the record, the bytes up to the end of the declared payload. -/
theorem of_parse {r : CommandRecord} (h : parse bytes = .ok r) :
    Command.decode bytes = .ok r.toCommand ∧ r.toCommand.encode = r.asBytes ∧
      r.asBytes = bytes.take (28 + (readUInt32 bytes 24).toNat) := by
  have hbytes := bytes_of_parse h
  refine ⟨by rw [Command.decode_eq_map_parse, h]; rfl, r.encode_toCommand, ?_⟩
  rw [asBytes, r.declared, hbytes, commandHeaderLength]

end CommandRecord

namespace EventRecord

variable {bytes : Bytes}

/-- Reading an event view fails where the header or the payload check fails, or else where the
kind byte names no kind. -/
theorem parse_eq_error_iff {e : RecordError} :
    parse bytes = .error e ↔ declaredPayload bytes eventHeaderLength 37 = .error e ∨
      (∃ size, declaredPayload bytes eventHeaderLength 37 = .ok size) ∧
        EventKind.ofCode? (Event.kindByte bytes) = none ∧ e = .unknownKind (Event.kindByte bytes) := by
  cases h : declaredPayload bytes eventHeaderLength 37 with
  | error e' => simp [parse_of_declared_error h]
  | ok size =>
    cases hk : EventKind.ofCode? (Event.kindByte bytes) with
    | none => simp [parse_of_unnamed h hk, eq_comm]
    | some kind =>
      obtain ⟨r, hr, -⟩ := parse_of_named h hk
      simp [hr]

theorem bytes_of_parse {r : EventRecord} (h : parse bytes = .ok r) : r.bytes = bytes := by
  cases hd : declaredPayload bytes eventHeaderLength 37 with
  | error e => simp [parse_of_declared_error hd] at h
  | ok size =>
    cases hk : EventKind.ofCode? (Event.kindByte bytes) with
    | none => simp [parse_of_unnamed hd hk] at h
    | some kind =>
      obtain ⟨r', hr', hbytes, -⟩ := parse_of_named hd hk
      rw [hr'] at h
      cases h
      exact hbytes

theorem parse_eq_truncated_iff :
    parse bytes = .error (.truncated bytes.length eventHeaderLength) ↔
      bytes.length < eventHeaderLength := by
  rw [parse_eq_error_iff, ← @declaredPayload_eq_truncated_iff bytes eventHeaderLength 37]
  -- a kind byte that names nothing is reported as such, never as a truncation
  simp

theorem parse_eq_overflow_iff (h : eventHeaderLength ≤ bytes.length) :
    parse bytes = .error (.payloadOverflow (readUInt32 bytes 37).toNat
        (bytes.length - eventHeaderLength)) ↔
      bytes.length - eventHeaderLength < (readUInt32 bytes 37).toNat := by
  rw [parse_eq_error_iff, ← declaredPayload_eq_overflow_iff h]
  simp

section Fits

variable (h : eventHeaderLength ≤ bytes.length)
  (hfits : (readUInt32 bytes 37).toNat ≤ bytes.length - eventHeaderLength)
  {code : UInt8} (hcode : bytes[32]? = some code)

include h hfits hcode

/-- Past the header and payload checks, reading fails exactly on a kind byte above three. -/
theorem parse_eq_unknownKind_iff : parse bytes = .error (.unknownKind code) ↔ 3 < code := by
  rw [parse_eq_error_iff, declaredPayload_of_fits h hfits, Event.kindByte_of_getElem? hcode,
    ← EventKind.ofCode?_eq_none_iff]
  simp

theorem parse_of_named_code (hle : code ≤ 3) : ∃ r, parse bytes = .ok r := by
  obtain ⟨kind, hkind⟩ : ∃ kind, EventKind.ofCode? code = some kind := by
    apply Option.ne_none_iff_exists'.1
    rw [Ne, EventKind.ofCode?_eq_none_iff]
    exact UInt8.not_lt.2 hle
  obtain ⟨r, hr, -⟩ := parse_of_named (declaredPayload_of_fits h hfits)
    (by rw [Event.kindByte_of_getElem? hcode]; exact hkind)
  exact ⟨r, hr⟩

end Fits

/-- What an event view read from some bytes gives: the decoded event, which writes back as the
record, the bytes up to the end of the declared payload. -/
theorem of_parse {r : EventRecord} (h : parse bytes = .ok r) :
    Event.decode bytes = .ok r.toEvent ∧ r.toEvent.encode = r.asBytes ∧
      r.asBytes = bytes.take (41 + (readUInt32 bytes 37).toNat) := by
  have hbytes := bytes_of_parse h
  refine ⟨by rw [Event.decode_eq_map_parse, h]; rfl, r.encode_toEvent, ?_⟩
  rw [asBytes, r.declared, hbytes, eventHeaderLength]

end EventRecord

/-- Reading a record accepts exactly the bytes with a header, a declared payload that fits after
it and, for an event, a kind byte that names a kind, and reports the first check that fails.
What it accepts is the record the decoded copy writes back: the bytes up to the end of the
declared payload. -/
theorem record_parsers_classify (bytes : Bytes) :
    (CommandRecord.parse bytes = .error (.truncated bytes.length 28) ↔ bytes.length < 28) ∧
    (28 ≤ bytes.length →
      (CommandRecord.parse bytes =
          .error (.payloadOverflow (readUInt32 bytes 24).toNat (bytes.length - 28)) ↔
        bytes.length - 28 < (readUInt32 bytes 24).toNat)) ∧
    (28 ≤ bytes.length → (readUInt32 bytes 24).toNat ≤ bytes.length - 28 →
      ∃ r, CommandRecord.parse bytes = .ok r) ∧
    (∀ r, CommandRecord.parse bytes = .ok r →
      Command.decode bytes = .ok r.toCommand ∧ r.toCommand.encode = r.asBytes ∧
        r.asBytes = bytes.take (28 + (readUInt32 bytes 24).toNat)) ∧
    (EventRecord.parse bytes = .error (.truncated bytes.length 41) ↔ bytes.length < 41) ∧
    (41 ≤ bytes.length →
      (EventRecord.parse bytes =
          .error (.payloadOverflow (readUInt32 bytes 37).toNat (bytes.length - 41)) ↔
        bytes.length - 41 < (readUInt32 bytes 37).toNat)) ∧
    (41 ≤ bytes.length → (readUInt32 bytes 37).toNat ≤ bytes.length - 41 →
      ∀ code, bytes[32]? = some code →
        (EventRecord.parse bytes = .error (.unknownKind code) ↔ 3 < code) ∧
        (code ≤ 3 → ∃ r, EventRecord.parse bytes = .ok r)) ∧
    (∀ r, EventRecord.parse bytes = .ok r →
      Event.decode bytes = .ok r.toEvent ∧ r.toEvent.encode = r.asBytes ∧
        r.asBytes = bytes.take (41 + (readUInt32 bytes 37).toNat)) :=
  ⟨CommandRecord.parse_eq_truncated_iff, CommandRecord.parse_eq_overflow_iff,
    CommandRecord.parse_of_fits, fun _ => CommandRecord.of_parse,
    EventRecord.parse_eq_truncated_iff, EventRecord.parse_eq_overflow_iff,
    fun h hfits _ hcode => ⟨EventRecord.parse_eq_unknownKind_iff h hfits hcode,
      EventRecord.parse_of_named_code h hfits hcode⟩,
    fun _ => EventRecord.of_parse⟩

/-- Forty-one zero bytes hold a command record, with thirteen bytes after it, and an
intermediary event record with an empty payload. -/
theorem record_parsers_classify_of_zeros :
    28 ≤ (List.replicate 41 (0 : UInt8)).length ∧
      (readUInt32 (List.replicate 41 0) 24).toNat ≤ (List.replicate 41 (0 : UInt8)).length - 28 ∧
      (∃ r, CommandRecord.parse (List.replicate 41 0) = .ok r) ∧
      41 ≤ (List.replicate 41 (0 : UInt8)).length ∧
      (readUInt32 (List.replicate 41 0) 37).toNat ≤ (List.replicate 41 (0 : UInt8)).length - 41 ∧
      (List.replicate 41 (0 : UInt8))[32]? = some 0 ∧ (0 : UInt8) ≤ 3 ∧
      ∃ r, EventRecord.parse (List.replicate 41 0) = .ok r := by
  have h28 : 28 ≤ (List.replicate 41 (0 : UInt8)).length := by decide
  have h24 : (readUInt32 (List.replicate 41 0) 24).toNat ≤
      (List.replicate 41 (0 : UInt8)).length - 28 := by decide
  have h41 : 41 ≤ (List.replicate 41 (0 : UInt8)).length := by decide
  have h37 : (readUInt32 (List.replicate 41 0) 37).toNat ≤
      (List.replicate 41 (0 : UInt8)).length - 41 := by decide
  have h32 : (List.replicate 41 (0 : UInt8))[32]? = some 0 := by decide
  have hle : (0 : UInt8) ≤ 3 := by decide
  exact ⟨h28, h24, (record_parsers_classify _).2.2.1 h28 h24, h41, h37, h32, hle,
    ((record_parsers_classify _).2.2.2.2.2.2.1 h41 h37 0 h32).2 hle⟩

end EventSourcing
