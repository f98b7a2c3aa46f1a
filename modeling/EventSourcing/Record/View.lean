import EventSourcing.Record.Codec

/-!
# Records read in place

A record is checked once and then read in place: a view keeps the bytes it was checked in,
which may run on past the record, and the payload length its header declares, and reads each
header field at its offset when asked. A view carries what the check established: the
declared length is the one in the header, it fits in the bytes, and for an event the kind
byte names a kind.

The main statements are `Command.decode_eq_map_parse` and `Event.decode_eq_map_parse`: an
owned record decoded from bytes is the owned copy of the view read from them, and
`CommandRecord.encode_toCommand` and `EventRecord.encode_toEvent`: the owned copy of a view,
written again, is the record the view was read from, without what follows it.
-/

namespace EventSourcing

/-- The payload size read from a header is the one at its offset, and it fits after the
header. -/
theorem declaredPayload_eq_ok {bytes : Bytes} {headerLength sizeOffset size : Nat}
    (h : declaredPayload bytes headerLength sizeOffset = .ok size) :
    size = (Bytes.readUInt32 bytes sizeOffset).toNat ∧ headerLength + size ≤ bytes.length := by
  unfold declaredPayload at h
  split at h
  · cases h
  · rename_i hheader
    dsimp only at h
    split at h
    · cases h
    · rename_i hfits
      cases h
      exact ⟨rfl, by omega⟩

/-- A command record read in place. -/
structure CommandRecord where
  /-- The bytes the record was read from; they may run on past it. -/
  bytes : Bytes
  payloadLength : Nat
  /-- The header declares the payload length at offset 24. -/
  declared : payloadLength = (Bytes.readUInt32 bytes 24).toNat
  /-- The payload fits in the bytes after the header. -/
  fits : commandHeaderLength + payloadLength ≤ bytes.length

namespace CommandRecord

/-- Checks that the bytes hold a command record: the header is there and the declared payload
fits in what follows it. -/
def parse (bytes : Bytes) : Except RecordError CommandRecord :=
  match h : declaredPayload bytes commandHeaderLength 24 with
  | .error e => .error e
  | .ok size => .ok ⟨bytes, size, (declaredPayload_eq_ok h).1, (declaredPayload_eq_ok h).2⟩

def source (r : CommandRecord) : SourceId := Bytes.readInt32 r.bytes 0

def sequence (r : CommandRecord) : UInt64 := Bytes.readUInt64 r.bytes 4

def time (r : CommandRecord) : Timestamp := Bytes.readInt64 r.bytes 12

def payloadType (r : CommandRecord) : PayloadType := Bytes.readInt32 r.bytes 20

/-- The payload, in place after the header. -/
def payload (r : CommandRecord) : Bytes :=
  (r.bytes.drop commandHeaderLength).take r.payloadLength

/-- The record: the header and the payload, without the bytes after it. -/
def asBytes (r : CommandRecord) : Bytes := r.bytes.take (commandHeaderLength + r.payloadLength)

/-- An owned copy of the command. -/
def toCommand (r : CommandRecord) : Command :=
  ⟨r.source, r.sequence, r.time, r.payloadType, r.payload⟩

theorem parse_of_declared_error {bytes : Bytes} {e : RecordError}
    (h : declaredPayload bytes commandHeaderLength 24 = .error e) : parse bytes = .error e := by
  unfold parse
  split
  · rename_i e' h'
    rw [h] at h'
    cases h'
    rfl
  · rename_i size h'
    rw [h] at h'
    cases h'

theorem parse_of_declared_ok {bytes : Bytes} {size : Nat}
    (h : declaredPayload bytes commandHeaderLength 24 = .ok size) :
    ∃ r, parse bytes = .ok r ∧ r.bytes = bytes ∧ r.payloadLength = size := by
  unfold parse
  split
  · rename_i e h'
    rw [h] at h'
    cases h'
  · rename_i size' h'
    rw [h] at h'
    cases h'
    exact ⟨_, rfl, rfl, rfl⟩

@[simp]
theorem length_payload (r : CommandRecord) : r.payload.length = r.payloadLength := by
  have := r.fits
  simp only [payload, List.length_take, List.length_drop, commandHeaderLength] at *
  omega

end CommandRecord

/-- Decoding a command is reading its view and copying it out. -/
theorem Command.decode_eq_map_parse (bytes : Bytes) :
    Command.decode bytes = CommandRecord.toCommand <$> CommandRecord.parse bytes := by
  cases h : declaredPayload bytes commandHeaderLength 24 with
  | error e =>
    rw [CommandRecord.parse_of_declared_error h]
    simp [Command.decode, h, bind, Except.bind, Functor.map, Except.map]
  | ok size =>
    obtain ⟨r, hr, rfl, rfl⟩ := CommandRecord.parse_of_declared_ok h
    rw [hr]
    simp [Command.decode, h, bind, Except.bind, pure, Except.pure, Functor.map, Except.map,
      CommandRecord.toCommand, CommandRecord.source, CommandRecord.sequence, CommandRecord.time,
      CommandRecord.payloadType, CommandRecord.payload]

/-- An event record read in place. -/
structure EventRecord where
  /-- The bytes the record was read from; they may run on past it. -/
  bytes : Bytes
  payloadLength : Nat
  kind : EventKind
  /-- The header declares the payload length at offset 37. -/
  declared : payloadLength = (Bytes.readUInt32 bytes 37).toNat
  /-- The payload fits in the bytes after the header. -/
  fits : eventHeaderLength + payloadLength ≤ bytes.length
  /-- The kind byte names the kind. -/
  named : EventKind.ofCode? (Event.kindByte bytes) = some kind

namespace EventRecord

/-- Checks that the bytes hold an event record: the header is there, the declared payload fits
in what follows it, and the kind byte names a kind. -/
def parse (bytes : Bytes) : Except RecordError EventRecord :=
  match h : declaredPayload bytes eventHeaderLength 37 with
  | .error e => .error e
  | .ok size =>
    match hk : EventKind.ofCode? (Event.kindByte bytes) with
    | none => .error (.unknownKind (Event.kindByte bytes))
    | some kind =>
      .ok ⟨bytes, size, kind, (declaredPayload_eq_ok h).1, (declaredPayload_eq_ok h).2, hk⟩

def source (r : EventRecord) : SourceId := Bytes.readInt32 r.bytes 0

def sourceSequence (r : EventRecord) : UInt64 := Bytes.readUInt64 r.bytes 4

def time (r : EventRecord) : Timestamp := Bytes.readInt64 r.bytes 12

def sequence (r : EventRecord) : UInt64 := Bytes.readUInt64 r.bytes 20

def index (r : EventRecord) : UInt32 := Bytes.readUInt32 r.bytes 28

def payloadType (r : EventRecord) : PayloadType := Bytes.readInt32 r.bytes 33

/-- The payload, in place after the header. -/
def payload (r : EventRecord) : Bytes := (r.bytes.drop eventHeaderLength).take r.payloadLength

/-- The record: the header and the payload, without the bytes after it. -/
def asBytes (r : EventRecord) : Bytes := r.bytes.take (eventHeaderLength + r.payloadLength)

/-- Whether the event ends its transaction. -/
def isTerminal (r : EventRecord) : Bool := r.kind.isTerminal

/-- An owned copy of the event. -/
def toEvent (r : EventRecord) : Event :=
  ⟨r.source, r.sourceSequence, r.sequence, r.index, r.kind, r.time, r.payloadType, r.payload⟩

theorem parse_of_declared_error {bytes : Bytes} {e : RecordError}
    (h : declaredPayload bytes eventHeaderLength 37 = .error e) : parse bytes = .error e := by
  unfold parse
  split
  · rename_i e' h'
    rw [h] at h'
    cases h'
    rfl
  · rename_i size h'
    rw [h] at h'
    cases h'

theorem parse_of_unnamed {bytes : Bytes} {size : Nat}
    (h : declaredPayload bytes eventHeaderLength 37 = .ok size)
    (hk : EventKind.ofCode? (Event.kindByte bytes) = none) :
    parse bytes = .error (.unknownKind (Event.kindByte bytes)) := by
  unfold parse
  split
  · rename_i e h'
    rw [h] at h'
    cases h'
  · split
    · rfl
    · rename_i kind hk'
      rw [hk] at hk'
      cases hk'

theorem parse_of_named {bytes : Bytes} {size : Nat} {kind : EventKind}
    (h : declaredPayload bytes eventHeaderLength 37 = .ok size)
    (hk : EventKind.ofCode? (Event.kindByte bytes) = some kind) :
    ∃ r, parse bytes = .ok r ∧ r.bytes = bytes ∧ r.payloadLength = size ∧ r.kind = kind := by
  unfold parse
  split
  · rename_i e h'
    rw [h] at h'
    cases h'
  · rename_i size' h'
    rw [h] at h'
    cases h'
    split
    · rename_i hk'
      rw [hk] at hk'
      cases hk'
    · rename_i kind' hk'
      rw [hk] at hk'
      cases hk'
      exact ⟨_, rfl, rfl, rfl, rfl⟩

@[simp]
theorem length_payload (r : EventRecord) : r.payload.length = r.payloadLength := by
  have := r.fits
  simp only [payload, List.length_take, List.length_drop, eventHeaderLength] at *
  omega

end EventRecord

/-- Decoding an event is reading its view and copying it out. -/
theorem Event.decode_eq_map_parse (bytes : Bytes) :
    Event.decode bytes = EventRecord.toEvent <$> EventRecord.parse bytes := by
  cases h : declaredPayload bytes eventHeaderLength 37 with
  | error e =>
    rw [EventRecord.parse_of_declared_error h]
    simp [Event.decode, h, bind, Except.bind, Functor.map, Except.map]
  | ok size =>
    cases hk : EventKind.ofCode? (Event.kindByte bytes) with
    | none =>
      rw [EventRecord.parse_of_unnamed h hk]
      simp [Event.decode, h, hk, bind, Except.bind, Functor.map, Except.map]
    | some kind =>
      obtain ⟨r, hr, rfl, rfl, rfl⟩ := EventRecord.parse_of_named h hk
      rw [hr]
      simp [Event.decode, h, hk, bind, Except.bind, pure, Except.pure, Functor.map, Except.map,
        EventRecord.toEvent, EventRecord.source, EventRecord.sourceSequence, EventRecord.time,
        EventRecord.sequence, EventRecord.index, EventRecord.payloadType, EventRecord.payload]

end EventSourcing
