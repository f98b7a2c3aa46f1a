/-!
# The wyrand generator

A 64-bit state advanced by a fixed odd increment; each output mixes the new state with the
128-bit product of the state and the state with a second constant, folding the high half onto
the low half. Bounded draws use Lemire's multiply-and-reject reduction, which is exact: every
value of a range of `n` is drawn from the same number of raw outputs.
-/

namespace EventSourcing.Random

/-- The generator's state. -/
structure WyRand where
  state : UInt64
  deriving DecidableEq, Repr

namespace WyRand

/-- The increment of the state. -/
def increment : UInt64 := 0x2d358dccaa6c78a5

/-- The mixing constant. -/
def mixer : UInt64 := 0x8bb84b93962eacc9

/-- A generator started from a seed. -/
def seeded (seed : UInt64) : WyRand := ⟨seed⟩

/-- The next raw 64-bit output. -/
def next64 (g : WyRand) : UInt64 × WyRand :=
  let s := g.state + increment
  let t := s.toNat * (s ^^^ mixer).toNat
  ((t % 18446744073709551616).toUInt64 ^^^ (t / 18446744073709551616).toUInt64, ⟨s⟩)

/-- The next raw 32-bit output: the low half of a 64-bit one. -/
def next32 (g : WyRand) : UInt32 × WyRand :=
  let (x, g') := g.next64
  (x.toUInt32, g')

/-- A draw below `n` from raw outputs of `bits` bits, by multiplying and rejecting the draws
whose low part falls below `2^bits mod n`. -/
def below (bits : Nat) (raw : WyRand → Nat × WyRand) (n : Nat) : Nat → WyRand → Nat × WyRand
  | 0, g => ((raw g).1 * n / Nat.pow 2 bits, (raw g).2)
  | fuel + 1, g =>
    let (r, g') := raw g
    let lo := r * n % Nat.pow 2 bits
    let hi := r * n / Nat.pow 2 bits
    if lo < n then
      let t := (Nat.pow 2 bits - n) % n
      if lo < t then below bits raw n fuel g' else (hi, g')
    else (hi, g')

/-- The number of rejections a draw tolerates; each happens with probability below one half. -/
def rejectionLimit : Nat := 256

/-- A draw below `n` from 32-bit outputs, for `0 < n < 2^32`. -/
def below32 (g : WyRand) (n : Nat) : Nat × WyRand :=
  below 32 (fun g => let (x, g') := g.next32; (x.toNat, g')) n rejectionLimit g

/-- A draw below `n` from 64-bit outputs, for `0 < n < 2^64`. -/
def below64 (g : WyRand) (n : Nat) : Nat × WyRand :=
  below 64 (fun g => let (x, g') := g.next64; (x.toNat, g')) n rejectionLimit g

end WyRand

end EventSourcing.Random
