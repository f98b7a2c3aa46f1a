import EventSourcing.Text.Double

/-!
# Shortest decimal text of a double

A decimal number is rounded to the nearest double (ties to an even mantissa); the double is
then written with the fewest significant digits that read back as that double, the nearer of
two candidates of that length winning and an exact tie going to the even one. All arithmetic
is on exact naturals.

The digits are laid out positionally when the decimal exponent of the leading digit is
between -5 and 15, with `.0` after an integer, and otherwise as `d.ddde<exponent>`, the
exponent signed: `1e+16`, `5e-324`.
-/

namespace EventSourcing.Text

/-- `a * 10^k` for an integer `k`, as a numerator over `10^(-k)` when `k` is negative. -/
def scale10 (a : Nat) (k : Int) : Nat := if 0 ≤ k then a * Nat.pow 10 k.toNat else a

/-- `10^(-k)` when `k` is negative, else 1. -/
def den10 (k : Int) : Nat := if 0 ≤ k then 1 else Nat.pow 10 (-k).toNat

/-- The shortest digits of a positive double and the decimal exponent of the last digit. -/
def shortestDigits (d : Double) : Nat × Int :=
  -- the value and the ends of its rounding interval, as numerators over `den`
  let den := 4 * shiftDen d.exponent
  let unit := shiftNat 1 d.exponent
  let v := 4 * d.mantissa * unit
  let hi := v + 2 * unit
  let lo := if d.mantissa = 4503599627370496 ∧ -1074 < d.exponent then v - unit else v - 2 * unit
  let inclusive := d.mantissa % 2 = 0
  -- `c * 10^s` compared with a numerator over `den`
  let lt (c : Nat) (s : Int) (x : Nat) : Bool := scale10 c s * den < x * den10 s
  let eq (c : Nat) (s : Int) (x : Nat) : Bool := scale10 c s * den = x * den10 s
  let inside (c : Nat) (s : Int) : Bool :=
    (lt c s hi || (inclusive && eq c s hi)) && (!(lt c s lo) && (!(eq c s lo) || inclusive))
  -- the decimal exponent of the leading digit: the largest `j` with `10^j ≤ v`
  let lead : Int := Id.run do
    let mut j : Int := 0
    for _ in [0:700] do
      if scale10 1 j * den ≤ v * den10 j then
        if scale10 1 (j + 1) * den ≤ v * den10 (j + 1) then j := j + 1 else break
      else j := j - 1
    return j
  let found := (List.range 17).findSome? fun (i : Nat) =>
    let s := lead - (i : Int)
    -- `floor (v / 10^s)`
    let c := (v * den10 s) / (den * scale10 1 s)
    let below := inside c s
    let above := inside (c + 1) s
    if below && above then
      -- twice the distance of each candidate, over a common denominator
      let dBelow := v * den10 s * 2 - scale10 c s * den * 2
      let dAbove := scale10 (c + 1) s * den * 2 - v * den10 s * 2
      if dBelow < dAbove then some (c, s)
      else if dAbove < dBelow then some (c + 1, s)
      else if c % 2 = 0 then some (c, s) else some (c + 1, s)
    else if below then some (c, s)
    else if above then some (c + 1, s)
    else none
  match found with
  | some (c, s) => (c, s)
  | none => (d.mantissa, 0)

/-- Drops trailing zero digits, raising the exponent for each. -/
def trimZeros : Nat → Nat → Int → Nat × Int
  | 0, c, s => (c, s)
  | fuel + 1, c, s => if c ≠ 0 ∧ c % 10 = 0 then trimZeros fuel (c / 10) (s + 1) else (c, s)

/-- The decimal text of a double. -/
def Double.text (d : Double) : String :=
  let sign := if d.negative then "-" else ""
  if d.mantissa = 0 then sign ++ "0.0"
  else
    let (c, s) := shortestDigits d
    let (c, s) := trimZeros 20 c s
    let digits := toString c
    let n : Int := digits.length
    let kk := n + s
    let zeros (k : Int) : String := String.ofList (List.replicate k.toNat '0')
    let expText (x : Int) : String := if x < 0 then "e" ++ toString x else "e+" ++ toString x
    let body :=
      if 0 ≤ s ∧ kk ≤ 16 then digits ++ zeros s ++ ".0"
      else if 0 < kk ∧ kk ≤ 16 then
        String.ofList (digits.toList.take kk.toNat) ++ "." ++
          String.ofList (digits.toList.drop kk.toNat)
      else if -5 < kk ∧ kk ≤ 0 then "0." ++ zeros (-kk) ++ digits
      else if n = 1 then digits ++ expText (kk - 1)
      else
        String.ofList (digits.toList.take 1) ++ "." ++ String.ofList (digits.toList.drop 1) ++
          expText (kk - 1)
    sign ++ body

end EventSourcing.Text
