import EventSourcing.Record.Basic

/-!
# The record format

Commands and events are logged as records: a fixed little-endian header followed by the
payload. A command header has 28 bytes: source (4), sequence (8), time (8), payload type
(4), payload size (4). An event header has 41 bytes: source (4), command sequence (8),
time (8), event sequence (8), index (4), kind (1), payload type (4), payload size (4).

Reading checks, in this order, that the header is there, that the declared payload fits in
what follows it, and, for events, that the kind byte names a kind. Bytes after the payload
are not part of the record.

The main statements are `Event.decode_encode` and `Command.decode_encode`: reading a record
gives back what was written, but for a payload too long for its 32-bit size field, which is
cut to the size declared.
-/

namespace EventSourcing

/-- Why bytes do not hold a record. -/
inductive RecordError where
  /-- Fewer bytes than a header. -/
  | truncated (length required : Nat)
  /-- The declared payload is longer than the bytes after the header. -/
  | payloadOverflow (declared available : Nat)
  /-- The kind byte of an event names no kind. -/
  | unknownKind (code : UInt8)
  deriving DecidableEq, Repr

namespace RecordError

/-- The sentence that reports the error. -/
def message : RecordError → String
  | truncated length required => s!"record too short: {length} bytes, header needs {required}"
  | payloadOverflow declared available =>
    s!"declared payload size {declared} exceeds the {available} bytes available"
  | unknownKind code => s!"unknown event type code {code}"

end RecordError

/-- The length of a command header. -/
def commandHeaderLength : Nat := 28

/-- The length of an event header. -/
def eventHeaderLength : Nat := 41

/-- The payload size that a header of `headerLength` bytes declares at `sizeOffset`,
once the header is there and the payload fits. -/
def declaredPayload (bytes : Bytes) (headerLength sizeOffset : Nat) : Except RecordError Nat :=
  if bytes.length < headerLength then
    .error (.truncated bytes.length headerLength)
  else
    let declared := (Bytes.readUInt32 bytes sizeOffset).toNat
    let available := bytes.length - headerLength
    if available < declared then .error (.payloadOverflow declared available)
    else .ok declared

namespace Command

/-- The record of a command. -/
def encode (c : Command) : Bytes :=
  Bytes.ofInt32 c.source ++ Bytes.ofUInt64 c.sequence ++ Bytes.ofInt64 c.time ++
    Bytes.ofInt32 c.payloadType ++ Bytes.ofUInt32 c.payload.length.toUInt32 ++ c.payload

/-- The command a record holds; bytes after its payload are ignored. -/
def decode (bytes : Bytes) : Except RecordError Command := do
  let size ← declaredPayload bytes commandHeaderLength 24
  pure {
    source := Bytes.readInt32 bytes 0
    sequence := Bytes.readUInt64 bytes 4
    time := Bytes.readInt64 bytes 12
    payloadType := Bytes.readInt32 bytes 20
    payload := (bytes.drop commandHeaderLength).take size }

/-- The length of the command's record. -/
def recordLength (c : Command) : Nat := commandHeaderLength + c.payload.length

open Bytes in
/-- Reading a command's record gives the command back, its payload cut to the length the
32-bit size field declares. -/
theorem decode_encode (c : Command) :
    decode (encode c) = .ok { c with payload := c.payload.take (c.payload.length % 4294967296) } := by
  have hlen : (encode c).length = 28 + c.payload.length := by
    simp [encode, ofInt32, ofInt64]
    omega
  have hsplit : encode c = ofUInt32 c.source.toUInt32 ++ (ofUInt64 c.sequence ++
      (ofUInt64 c.time.toUInt64 ++ (ofUInt32 c.payloadType.toUInt32 ++
      (ofUInt32 c.payload.length.toUInt32 ++ c.payload)))) := by
    simp [encode, ofInt32, ofInt64]
  unfold decode declaredPayload
  simp only [hlen, commandHeaderLength]
  rw [hsplit]
  -- each header field is read past the fields before it
  simp (disch := simp) only [readInt32, readInt64, readUInt32_append_right,
    readUInt64_append_right, length_ofUInt32, length_ofUInt64,
    readUInt32_ofUInt32, readUInt64_ofUInt64, Nat.reduceSub]
  have hsize : c.payload.length.toUInt32.toNat = c.payload.length % 4294967296 := by simp
  have htrunc : ¬ 28 + c.payload.length < 28 := by omega
  have hfits : ¬ c.payload.length < c.payload.length % 4294967296 :=
    Nat.not_lt.mpr (Nat.mod_le _ _)
  simp [hsize, htrunc, List.drop_append, List.drop_eq_nil_of_le]
  simp only [hfits, if_false]
  rfl

/-- The header fields of the command's record, one by one, and the payload's length. -/
def dump (c : Command) : String :=
  s!"CommandRecord \x7b source_id: {c.source}, source_sequence: {c.sequence}, " ++
    s!"command_time: {c.time}, payload_type: {c.payloadType}, " ++
    s!"payload_len: {c.payload.length} \x7d"

end Command

namespace Event

/-- The record of an event. -/
def encode (e : Event) : Bytes :=
  Bytes.ofInt32 e.source ++ Bytes.ofUInt64 e.sourceSequence ++ Bytes.ofInt64 e.time ++
    Bytes.ofUInt64 e.sequence ++ Bytes.ofUInt32 e.index ++ [e.kind.code] ++
    Bytes.ofInt32 e.payloadType ++ Bytes.ofUInt32 e.payload.length.toUInt32 ++ e.payload

/-- The kind byte of an event record, which sits at offset 32. -/
def kindByte (bytes : Bytes) : UInt8 := (bytes.drop 32).headD 0

/-- The event a record holds; bytes after its payload are ignored. -/
def decode (bytes : Bytes) : Except RecordError Event := do
  let size ← declaredPayload bytes eventHeaderLength 37
  let code := kindByte bytes
  match EventKind.ofCode? code with
  | none => .error (.unknownKind code)
  | some kind =>
    pure {
      source := Bytes.readInt32 bytes 0
      sourceSequence := Bytes.readUInt64 bytes 4
      time := Bytes.readInt64 bytes 12
      sequence := Bytes.readUInt64 bytes 20
      index := Bytes.readUInt32 bytes 28
      kind := kind
      payloadType := Bytes.readInt32 bytes 33
      payload := (bytes.drop eventHeaderLength).take size }

/-- The length of the event's record. -/
def recordLength (e : Event) : Nat := eventHeaderLength + e.payload.length

open Bytes in
/-- Reading an event's record gives the event back when its payload fits the 32-bit size
field. -/
theorem decode_encode (e : Event) (h : e.payload.length < 4294967296) :
    decode (encode e) = .ok e := by
  have hlen : (encode e).length = 41 + e.payload.length := by
    simp [encode, ofInt32, ofInt64]
    omega
  have hsplit : encode e = ofUInt32 e.source.toUInt32 ++ (ofUInt64 e.sourceSequence ++
      (ofUInt64 e.time.toUInt64 ++ (ofUInt64 e.sequence ++ (ofUInt32 e.index ++
      ([e.kind.code] ++ (ofUInt32 e.payloadType.toUInt32 ++
      (ofUInt32 e.payload.length.toUInt32 ++ e.payload))))))) := by
    simp [encode, ofInt32, ofInt64]
  unfold decode declaredPayload
  simp only [hlen, eventHeaderLength]
  rw [hsplit]
  simp (disch := simp) only [readInt32, readInt64, readUInt32_append_right,
    readUInt64_append_right, length_ofUInt32, length_ofUInt64, List.length_singleton,
    readUInt32_ofUInt32, readUInt64_ofUInt64, Nat.reduceSub]
  have hsize : e.payload.length.toUInt32.toNat = e.payload.length := by
    simp [Nat.mod_eq_of_lt h]
  have htrunc : ¬ 41 + e.payload.length < 41 := by omega
  simp [hsize, htrunc, kindByte, List.drop_append, List.drop_eq_nil_of_le, EventKind.ofCode?_code,
    Functor.map, Except.map]

/-- The header fields of the event's record, one by one, and the payload's length. -/
def dump (e : Event) : String :=
  s!"EventRecord \x7b source_id: {e.source}, source_sequence: {e.sourceSequence}, " ++
    s!"event_sequence: {e.sequence}, event_index: {e.index}, " ++
    s!"event_type: {e.kind.dumpName}, payload_type: {e.payloadType}, " ++
    s!"payload_len: {e.payload.length} \x7d"

end Event

end EventSourcing
