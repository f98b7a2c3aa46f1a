import EventSourcing.Text.Shortest

/-!
# Similar names

When a word on a command line names nothing, the names it is close to are offered instead.
Closeness is the Jaro similarity of the two character sequences: characters match when they
are equal and no further apart than half the longer length less one, each character matching
once, in order; with `m` matches, `t` half the number of matched pairs out of order, and
lengths `a` and `b`, the similarity is `(m / a + m / b + (m - t) / m) / 3`, and 0 without a
match. A name is offered when its similarity is above 0.7.

The similarity is computed in double precision, each quotient and sum rounded to the nearest
double, and it is those doubles that are compared. Rounding decides borderline names: three
matches between names of six and five characters give exactly 0.7, yet the rounded sum
`0.5 + 0.6` lands above it, so such a name is offered. Every double is kept as the exact
fraction it stands for, so that comparing similarities is comparing integers.
-/

namespace EventSourcing.Cli

/-- A similarity: a double, as the exact fraction `num / den` it stands for, `den` positive. -/
structure Score where
  num : Nat
  den : Nat
  deriving DecidableEq, Repr

namespace Score

/-- The double nearest to `num / den`. -/
def ofRatio (num den : Nat) : Score :=
  let d := Text.Double.ofRatio num den
  ⟨Text.shiftNat d.mantissa d.exponent, Text.shiftDen d.exponent⟩

/-- The rounded sum of two similarities. -/
def add (x y : Score) : Score := ofRatio (x.num * y.den + y.num * x.den) (x.den * y.den)

/-- The rounded quotient of a similarity by a positive count. -/
def div (x : Score) (n : Nat) : Score := ofRatio x.num (x.den * n)

/-- Whether a similarity is below another. -/
def lt (x y : Score) : Bool := x.num * y.den < y.num * x.den

/-- Whether a similarity is above 0.7, that is above the double nearest to it. -/
def close (x : Score) : Bool := (ofRatio 7 10).lt x

end Score

/-- Marks the first unmatched position of `b` within `[lo, hi)` that holds `c`; `none` when
there is none. -/
def claim (b : Array Char) (taken : Array Bool) (c : Char) (lo hi : Nat) : Option (Array Bool) :=
  let candidates := (List.range (hi - lo)).map (· + lo)
  match candidates.find? fun j => b.getD j ' ' == c && !taken.getD j true with
  | some j => some (taken.set! j true)
  | none => none

/-- The matches of `a` in `b`: which positions of each matched, scanning `a` in order. -/
def matchFlags (a b : Array Char) : Array Bool × Array Bool :=
  let range := max a.size b.size / 2 - 1
  (List.range a.size).foldl (fun (fa, fb) i =>
    let lo := i - range
    let hi := min b.size (i + range + 1)
    match claim b fb (a.getD i ' ') lo hi with
    | some fb' => (fa.set! i true, fb')
    | none => (fa, fb)) (Array.replicate a.size false, Array.replicate b.size false)

/-- The characters at the marked positions, in order. -/
def marked (s : Array Char) (flags : Array Bool) : List Char :=
  ((s.toList.zip flags.toList).filter (·.2)).map (·.1)

/-- The Jaro similarity of two texts. -/
def jaro (x y : String) : Score :=
  let a := x.toList.toArray
  let b := y.toList.toArray
  if a.size = 0 && b.size = 0 then ⟨1, 1⟩
  else if a.size = 0 || b.size = 0 then ⟨0, 1⟩
  else
    let (fa, fb) := matchFlags a b
    let ma := marked a fa
    let mb := marked b fb
    let m := ma.length
    let t := ((ma.zip mb).filter fun (p, q) => p != q).length / 2
    if m = 0 then ⟨0, 1⟩
    else
      let sum := (Score.ofRatio m a.size).add (Score.ofRatio m b.size)
      (sum.add (Score.ofRatio (m - t) m)).div 3

/-- Inserts a scored name after every name that scores no higher, keeping earlier names of
an equal score first. -/
def insertByScore (entry : Score × String) : List (Score × String) → List (Score × String)
  | [] => [entry]
  | e :: rest => if entry.1.lt e.1 then entry :: e :: rest else e :: insertByScore entry rest

/-- The names close to a word, from the least to the most similar. -/
def similarNames (word : String) (names : List String) : List String :=
  let scored := (names.map fun n => (jaro word n, n)).filter (·.1.close)
  (scored.foldl (fun acc e => insertByScore e acc) []).map (·.2)

/-- The name most similar to a word, among those close to it; of equally similar ones, the
last. -/
def closestName (word : String) (names : List String) : Option String :=
  (similarNames word names).getLast?

end EventSourcing.Cli
