/-!
# Doubles

A finite double is `(-1)^negative * mantissa * 2^exponent` with a mantissa below `2^53` and an
exponent of at least `-1074`. Every operation here rounds its exact result to the nearest
double, an exact tie going to the even mantissa, and works on exact naturals throughout.

An exponent above 971 stands for a value past the largest finite double; `Double.isFinite`
tells them apart, and the operations leave it to their callers to refuse such a value.
-/

namespace EventSourcing.Text

/-- A double: `(-1)^negative * mantissa * 2^exponent`. -/
structure Double where
  negative : Bool
  mantissa : Nat
  exponent : Int
  deriving DecidableEq, Repr

/-- `a * 2^k` for an integer `k`, as a numerator over `2^(-k)` when `k` is negative. -/
def shiftNat (a : Nat) (k : Int) : Nat := if 0 ≤ k then a * Nat.pow 2 k.toNat else a

/-- `2^(-k)` when `k` is negative, else 1. -/
def shiftDen (k : Int) : Nat := if 0 ≤ k then 1 else Nat.pow 2 (-k).toNat

/-- The largest `k` with `2^k * den ≤ num`, for positive `num` and `den`. -/
def floorLog2 (num den : Nat) : Int :=
  let k0 : Int := (Nat.log2 num : Int) - (Nat.log2 den : Int)
  -- `2^k * den ≤ num`, written without negative powers
  let fits (k : Int) : Bool := shiftNat den k ≤ num * shiftDen k
  if fits (k0 + 1) then k0 + 1 else if fits k0 then k0 else k0 - 1

/-- Rounds `num / den` to the nearest natural, a tie going to the even one. -/
def roundHalfEven (num den : Nat) : Nat :=
  let q := num / den
  let r := num % den
  if 2 * r < den then q else if den < 2 * r then q + 1 else if q % 2 = 0 then q else q + 1

namespace Double

/-- Positive zero. -/
def zero : Double := ⟨false, 0, 0⟩

/-- The nonnegative double nearest to `num / den`, for a positive `den`, with no bound on the
exponent above. The mantissa keeps 53 bits, or fewer below the smallest normal exponent; when
it rounds up to `2^53` it is halved and the exponent carries. -/
def ofRatio (num den : Nat) : Double :=
  if num = 0 then zero
  else
    let k := floorLog2 num den
    let e := max (k - 52) (-1074)
    -- round `num / (den * 2^e)`
    let m := roundHalfEven (num * shiftDen e) (den * shiftNat 1 e)
    let (m, e) := if m = 9007199254740992 then (4503599627370496, e + 1) else (m, e)
    ⟨false, m, e⟩

/-- The double nearest to a natural number. -/
def ofNat (n : Nat) : Double := ofRatio n 1

/-- The magnitude of a double as a fraction `num / den`. -/
def ratio (d : Double) : Nat × Nat := (shiftNat d.mantissa d.exponent, shiftDen d.exponent)

/-- Whether a double is within the range of finite doubles. -/
def isFinite (d : Double) : Bool := d.exponent ≤ 971

/-- Whether a double is zero. -/
def isZero (d : Double) : Bool := d.mantissa = 0

/-- The rounded product of the magnitudes of two doubles. -/
def mulAbs (x y : Double) : Double :=
  let (a, b) := x.ratio
  let (c, d) := y.ratio
  ofRatio (a * c) (b * d)

/-- The rounded quotient of the magnitudes of two doubles, the divisor nonzero. -/
def divAbs (x y : Double) : Double :=
  let (a, b) := x.ratio
  let (c, d) := y.ratio
  ofRatio (a * d) (b * c)

/-- The double with its sign flipped. -/
def neg (d : Double) : Double := { d with negative := !d.negative }

/-- The double nearest to `10^k`. -/
def pow10 (k : Nat) : Double := ofNat (Nat.pow 10 k)

end Double

end EventSourcing.Text
