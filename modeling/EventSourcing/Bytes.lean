/-!
# Byte strings

Records, payloads and log messages are lists of bytes. This file holds the fixed-width
little-endian words that record headers are made of, hexadecimal text, and the UTF-8
view of a payload.

The main statement is `toNatLE_ofNatLE`: reading back the `width` bytes written for a
number gives the number modulo `256 ^ width`; so a word written into a byte string reads
back at its offset (`readUInt32_ofUInt32`, `readUInt32_append_right`). The other way round,
`ofNatLE_toNatLE`: bytes read as a number and written back are the same bytes, so a word read
at an offset is written back as the bytes it was read from (`ofInt32_readInt32`).
-/

namespace EventSourcing

/-- A byte string: a payload, an encoded record, or a message of a log. -/
abbrev Bytes := List UInt8

namespace Bytes

/-- The `width` low bytes of `n`, least significant first. -/
def ofNatLE : Nat → Nat → Bytes
  | 0, _ => []
  | width + 1, n => UInt8.ofNat n :: ofNatLE width (n / 256)

/-- The number whose bytes, least significant first, are the given ones. -/
def toNatLE : Bytes → Nat
  | [] => 0
  | b :: rest => b.toNat + 256 * toNatLE rest

@[simp]
theorem length_ofNatLE (width n : Nat) : (ofNatLE width n).length = width := by
  induction width generalizing n with
  | zero => rfl
  | succ width ih => simp [ofNatLE, ih]

theorem toNat_ofNat_byte (n : Nat) : (UInt8.ofNat n).toNat = n % 256 := by
  change (BitVec.ofNat 8 n).toNat = n % 256
  rw [BitVec.toNat_ofNat]

theorem toNatLE_ofNatLE (width n : Nat) :
    toNatLE (ofNatLE width n) = n % Nat.pow 256 width := by
  induction width generalizing n with
  | zero => exact (Nat.mod_one n).symm
  | succ width ih =>
    simp only [ofNatLE, toNatLE, toNat_ofNat_byte, ih]
    show _ = n % (Nat.pow 256 width * 256)
    rw [Nat.mul_comm (Nat.pow 256 width) 256, Nat.mod_mul]

theorem ofNat_byte_add_mul (b : UInt8) (n : Nat) : UInt8.ofNat (b.toNat + 256 * n) = b := by
  apply UInt8.toNat_inj.1
  rw [toNat_ofNat_byte, Nat.add_mul_mod_self_left, Nat.mod_eq_of_lt b.toNat_lt]

/-- Writing back the number that some bytes hold gives those bytes. -/
theorem ofNatLE_toNatLE (bs : Bytes) : ofNatLE bs.length (toNatLE bs) = bs := by
  induction bs with
  | nil => rfl
  | cons b rest ih =>
    have hdiv : (b.toNat + 256 * toNatLE rest) / 256 = toNatLE rest := by
      have := b.toNat_lt
      omega
    simp only [List.length_cons, ofNatLE, toNatLE, ofNat_byte_add_mul, hdiv, ih]

theorem toNatLE_lt (bs : Bytes) : toNatLE bs < Nat.pow 256 bs.length := by
  induction bs with
  | nil => exact Nat.one_pos
  | cons b rest ih =>
    show b.toNat + 256 * toNatLE rest < Nat.pow 256 rest.length * 256
    have := b.toNat_lt
    omega

/-- A 32-bit word, little endian. -/
def ofUInt32 (x : UInt32) : Bytes := ofNatLE 4 x.toNat

/-- A 64-bit word, little endian. -/
def ofUInt64 (x : UInt64) : Bytes := ofNatLE 8 x.toNat

/-- A signed 32-bit word: its two's complement bits, little endian. -/
def ofInt32 (x : Int32) : Bytes := ofUInt32 x.toUInt32

/-- A signed 64-bit word: its two's complement bits, little endian. -/
def ofInt64 (x : Int64) : Bytes := ofUInt64 x.toUInt64

/-- The number held by the `width` bytes at `offset`; missing bytes read as zero. -/
def readNat (bytes : Bytes) (offset width : Nat) : Nat :=
  toNatLE ((bytes.drop offset).take width)

/-- The 32-bit word at `offset`. -/
def readUInt32 (bytes : Bytes) (offset : Nat) : UInt32 := (readNat bytes offset 4).toUInt32

/-- The 64-bit word at `offset`. -/
def readUInt64 (bytes : Bytes) (offset : Nat) : UInt64 := (readNat bytes offset 8).toUInt64

/-- The signed 32-bit word at `offset`. -/
def readInt32 (bytes : Bytes) (offset : Nat) : Int32 := (readUInt32 bytes offset).toInt32

/-- The signed 64-bit word at `offset`. -/
def readInt64 (bytes : Bytes) (offset : Nat) : Int64 := (readUInt64 bytes offset).toInt64

theorem readNat_append_right (A B : Bytes) {k : Nat} (w : Nat) (h : A.length ≤ k) :
    readNat (A ++ B) k w = readNat B (k - A.length) w := by
  unfold readNat
  rw [List.drop_append, List.drop_eq_nil_of_le h, List.nil_append]

theorem readNat_ofNatLE (w n : Nat) (B : Bytes) :
    readNat (ofNatLE w n ++ B) 0 w = n % Nat.pow 256 w := by
  unfold readNat
  rw [List.drop_zero, List.take_left' (length_ofNatLE w n), toNatLE_ofNatLE]

@[simp]
theorem length_ofUInt32 (x : UInt32) : (ofUInt32 x).length = 4 := length_ofNatLE 4 _

@[simp]
theorem length_ofUInt64 (x : UInt64) : (ofUInt64 x).length = 8 := length_ofNatLE 8 _

/-- A word written at the front reads back. -/
theorem readUInt32_ofUInt32 (x : UInt32) (B : Bytes) : readUInt32 (ofUInt32 x ++ B) 0 = x := by
  unfold readUInt32 ofUInt32
  rw [readNat_ofNatLE, Nat.mod_eq_of_lt x.toNat_lt]
  exact UInt32.ofNat_toNat

theorem readUInt64_ofUInt64 (x : UInt64) (B : Bytes) : readUInt64 (ofUInt64 x ++ B) 0 = x := by
  unfold readUInt64 ofUInt64
  rw [readNat_ofNatLE, Nat.mod_eq_of_lt x.toNat_lt]
  exact UInt64.ofNat_toNat

/-- A word past a prefix is read from what follows the prefix. -/
theorem readUInt32_append_right (A B : Bytes) {k : Nat} (h : A.length ≤ k) :
    readUInt32 (A ++ B) k = readUInt32 B (k - A.length) := by
  unfold readUInt32
  rw [readNat_append_right A B 4 h]

theorem readUInt64_append_right (A B : Bytes) {k : Nat} (h : A.length ≤ k) :
    readUInt64 (A ++ B) k = readUInt64 B (k - A.length) := by
  unfold readUInt64
  rw [readNat_append_right A B 8 h]

/-- A word that lies within a prefix is read from the prefix. -/
theorem readNat_append_left {A : Bytes} (B : Bytes) {offset width : Nat}
    (h : offset + width ≤ A.length) : readNat (A ++ B) offset width = readNat A offset width := by
  unfold readNat
  rw [List.drop_append_of_le_length (by omega), List.take_append_of_le_length (by simp; omega)]

theorem readUInt32_append_left {A : Bytes} (B : Bytes) {offset : Nat}
    (h : offset + 4 ≤ A.length) : readUInt32 (A ++ B) offset = readUInt32 A offset := by
  unfold readUInt32
  rw [readNat_append_left B h]

theorem readUInt64_append_left {A : Bytes} (B : Bytes) {offset : Nat}
    (h : offset + 8 ≤ A.length) : readUInt64 (A ++ B) offset = readUInt64 A offset := by
  unfold readUInt64
  rw [readNat_append_left B h]

theorem readInt32_append_left {A : Bytes} (B : Bytes) {offset : Nat}
    (h : offset + 4 ≤ A.length) : readInt32 (A ++ B) offset = readInt32 A offset := by
  unfold readInt32
  rw [readUInt32_append_left B h]

theorem readInt64_append_left {A : Bytes} (B : Bytes) {offset : Nat}
    (h : offset + 8 ≤ A.length) : readInt64 (A ++ B) offset = readInt64 A offset := by
  unfold readInt64
  rw [readUInt64_append_left B h]

theorem readNat_lt (bytes : Bytes) (offset width : Nat) :
    readNat bytes offset width < Nat.pow 256 width := by
  have h := toNatLE_lt ((bytes.drop offset).take width)
  have hle : ((bytes.drop offset).take width).length ≤ width := List.length_take_le _ _
  exact Nat.lt_of_lt_of_le h (Nat.pow_le_pow_right (by decide) hle)

/-- Writing back the number read at an offset gives the bytes read, when they are all there. -/
theorem ofNatLE_readNat {bytes : Bytes} {offset width : Nat}
    (h : offset + width ≤ bytes.length) :
    ofNatLE width (readNat bytes offset width) = (bytes.drop offset).take width := by
  have hlen : ((bytes.drop offset).take width).length = width := by
    simp only [List.length_take, List.length_drop]
    omega
  calc ofNatLE width (readNat bytes offset width)
      = ofNatLE ((bytes.drop offset).take width).length
          (toNatLE ((bytes.drop offset).take width)) := by rw [hlen]; rfl
    _ = (bytes.drop offset).take width := ofNatLE_toNatLE _

theorem ofUInt32_readUInt32 {bytes : Bytes} {offset : Nat} (h : offset + 4 ≤ bytes.length) :
    ofUInt32 (readUInt32 bytes offset) = (bytes.drop offset).take 4 := by
  have hlt := readNat_lt bytes offset 4
  unfold ofUInt32 readUInt32
  rw [Nat.toUInt32, UInt32.toNat_ofNat', Nat.mod_eq_of_lt hlt, ofNatLE_readNat h]

theorem ofUInt64_readUInt64 {bytes : Bytes} {offset : Nat} (h : offset + 8 ≤ bytes.length) :
    ofUInt64 (readUInt64 bytes offset) = (bytes.drop offset).take 8 := by
  have hlt := readNat_lt bytes offset 8
  unfold ofUInt64 readUInt64
  rw [Nat.toUInt64, UInt64.toNat_ofNat', Nat.mod_eq_of_lt hlt, ofNatLE_readNat h]

/-- A signed word is written back with the bits it was read from. -/
theorem ofInt32_readInt32 {bytes : Bytes} {offset : Nat} (h : offset + 4 ≤ bytes.length) :
    ofInt32 (readInt32 bytes offset) = (bytes.drop offset).take 4 := by
  rw [ofInt32, readInt32, UInt32.toUInt32_toInt32, ofUInt32_readUInt32 h]

theorem ofInt64_readInt64 {bytes : Bytes} {offset : Nat} (h : offset + 8 ≤ bytes.length) :
    ofInt64 (readInt64 bytes offset) = (bytes.drop offset).take 8 := by
  rw [ofInt64, readInt64, UInt64.toUInt64_toInt64, ofUInt64_readUInt64 h]

/-- The bytes of a text in UTF-8. -/
def ofString (text : String) : Bytes := text.toUTF8.toList

/-- The text that the bytes encode in UTF-8, if they are valid UTF-8. -/
def utf8? (bytes : Bytes) : Option String := String.fromUTF8? ⟨bytes.toArray⟩

/-- The digit of a nibble in lowercase hexadecimal. -/
def hexDigit (n : Nat) : Char :=
  if n < 10 then Char.ofNat (48 + n) else Char.ofNat (87 + n)

/-- Lowercase hexadecimal, two digits a byte. -/
def toHex (bytes : Bytes) : String :=
  String.ofList (bytes.flatMap fun b => [hexDigit (b.toNat / 16), hexDigit (b.toNat % 16)])

/-- The value of a hexadecimal digit of either case. -/
def hexValue? (c : Char) : Option Nat :=
  if '0' ≤ c ∧ c ≤ '9' then some (c.toNat - 48)
  else if 'a' ≤ c ∧ c ≤ 'f' then some (c.toNat - 87)
  else if 'A' ≤ c ∧ c ≤ 'F' then some (c.toNat - 55)
  else none

/-- Reads pairs of hexadecimal digits; an odd count or another character is refused. -/
def ofHexChars? : List Char → Option Bytes
  | [] => some []
  | [_] => none
  | hi :: lo :: rest => do
    let h ← hexValue? hi
    let l ← hexValue? lo
    let tail ← ofHexChars? rest
    pure ((h * 16 + l).toUInt8 :: tail)

/-- Reads a hexadecimal text, two digits a byte. -/
def ofHex? (text : String) : Option Bytes := ofHexChars? text.toList

end Bytes

end EventSourcing
