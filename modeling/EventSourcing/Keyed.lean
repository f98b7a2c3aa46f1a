/-!
# Keyed lists

Finite maps kept as lists of entries whose keys ascend, each key once. Watermarks per
source, balances per source and stock per item are such maps: they are written out in key
order, and a key's entry is replaced in place.

The main statements are `find?_insert_self` and `find?_insert_of_ne`: after `insert`, the
key reads back the new value and every other key reads back what it read before; after
`erase`, the key reads back nothing and every other key what it read before.
-/

namespace EventSourcing.Keyed

variable {κ ν : Type} [LT κ] [DecidableRel (α := κ) (· < ·)] [DecidableEq κ]

/-- The value of a key. -/
def find? (xs : List (κ × ν)) (k : κ) : Option ν :=
  match xs with
  | [] => none
  | (k', v) :: rest => if k = k' then some v else find? rest k

/-- The value of a key, or `d` for a key that is not there. -/
def findD (xs : List (κ × ν)) (k : κ) (d : ν) : ν := (find? xs k).getD d

/-- Sets the value of a key, in place if it is there and in key order if not. -/
def insert (xs : List (κ × ν)) (k : κ) (v : ν) : List (κ × ν) :=
  match xs with
  | [] => [(k, v)]
  | (k', v') :: rest =>
    if k = k' then (k, v) :: rest
    else if k < k' then (k, v) :: (k', v') :: rest
    else (k', v') :: insert rest k v

/-- Removes a key. -/
def erase (xs : List (κ × ν)) (k : κ) : List (κ × ν) := xs.filter (fun e => e.1 ≠ k)

/-- Whether a key is there. -/
def contains (xs : List (κ × ν)) (k : κ) : Bool := (find? xs k).isSome

@[simp]
theorem find?_insert_self (xs : List (κ × ν)) (k : κ) (v : ν) :
    find? (insert xs k v) k = some v := by
  induction xs with
  | nil => simp [insert, find?]
  | cons e rest ih =>
    obtain ⟨k', v'⟩ := e
    unfold insert
    by_cases h : k = k'
    · simp [h, find?]
    · by_cases hl : k < k'
      · simp [h, hl, find?]
      · simp [h, hl, find?, ih]

theorem find?_insert_of_ne (xs : List (κ × ν)) (k j : κ) (v : ν) (h : j ≠ k) :
    find? (insert xs k v) j = find? xs j := by
  induction xs with
  | nil => simp [insert, find?, h]
  | cons e rest ih =>
    obtain ⟨k', v'⟩ := e
    unfold insert
    by_cases hk : k = k'
    · subst hk; simp [find?, h]
    · by_cases hl : k < k'
      · simp [hk, hl, find?, h]
      · simp only [hk, hl, if_false, find?]
        split <;> simp_all

omit [LT κ] [DecidableRel (α := κ) (· < ·)] in
@[simp]
theorem find?_erase_self (xs : List (κ × ν)) (k : κ) : find? (erase xs k) k = none := by
  induction xs with
  | nil => rfl
  | cons e rest ih =>
    obtain ⟨k', v'⟩ := e
    by_cases h : k' = k
    · simpa [erase, h] using ih
    · simpa [erase, h, find?, Ne.symm h] using ih

omit [LT κ] [DecidableRel (α := κ) (· < ·)] in
theorem find?_erase_of_ne (xs : List (κ × ν)) (k j : κ) (h : j ≠ k) :
    find? (erase xs k) j = find? xs j := by
  induction xs with
  | nil => rfl
  | cons e rest ih =>
    obtain ⟨k', v'⟩ := e
    by_cases hk : k' = k
    · subst hk
      simpa [erase, find?, h] using ih
    · by_cases hj : j = k'
      · simp [erase, find?, hk, hj]
      · simpa [erase, find?, hk, hj] using ih

end EventSourcing.Keyed
