import TransducerLookup.Decimal.Binary

/-!
# The fewest digits that read back

A decimal is a number of digits times a power of ten. Of all decimals in the
rounding interval of a number those with the fewest digits are wanted, and of
these the nearest. The search goes through ever finer grids of powers of ten.
On each grid only the two neighbours of the number matter: if any point of the
grid lies in the interval, one of them does (`onGrid?_eq_none_iff`).
-/

namespace TransducerLookup.Decimal

/-- The number `digits * 10 ^ exponent`. -/
structure Scaled where
  digits : Nat
  exponent : Int
  deriving DecidableEq, Repr

/-- Which of two decimals that are equally near is taken. -/
inductive Tie where
  | up
  | toEven
  deriving DecidableEq, Repr

/-- How many decimal digits the number has; zero has one. -/
def digitCount (n : Nat) : Nat := (Nat.toDigits 10 n).length

namespace Magnitude

def leadingExponent (v : Magnitude) : Int :=
  let num := v.significand * Nat.pow 2 v.exponent.toNat
  let den := Nat.pow 2 (-v.exponent).toNat
  if den ≤ num then digitCount (num / den) - 1
  else -digitCount ((den + num - 1) / num - 1)

/-! Points of the grid `10 ^ k` and multiples of `2 ^ (exponent - 2)` are
compared in a common unit, of which `tenUnits` and `twoUnits` make one of each. -/

def tenUnits (v : Magnitude) (k : Int) : Nat :=
  Nat.pow 10 k.toNat * Nat.pow 2 (2 - v.exponent).toNat

def twoUnits (v : Magnitude) (k : Int) : Nat :=
  Nat.pow 2 (v.exponent - 2).toNat * Nat.pow 10 (-k).toNat

/-- Whether `d * 10 ^ k` lies in the rounding interval. -/
def readsBack (v : Magnitude) (k : Int) (d : Nat) : Bool :=
  let low := v.lower * v.twoUnits k
  let high := v.upper * v.twoUnits k
  let point := d * v.tenUnits k
  if v.holdsEnds then low ≤ point && point ≤ high else low < point && point < high

/-- The last point of the grid `10 ^ k` that does not lie above the number. -/
def floorOn (v : Magnitude) (k : Int) : Nat := v.middle * v.twoUnits k / v.tenUnits k

/-- Whether of `d`, the neighbour below the number, and `d + 1` the latter is
taken. -/
def prefersAbove (v : Magnitude) (tie : Tie) (k : Int) (d : Nat) : Bool :=
  let toBelow := v.middle * v.twoUnits k - d * v.tenUnits k
  let toAbove := (d + 1) * v.tenUnits k - v.middle * v.twoUnits k
  toAbove < toBelow || toAbove = toBelow && (tie = .up || d % 2 = 1)

/-- The point of the grid `10 ^ k` that reads back as the number and is nearest
to it, if there is one. -/
def onGrid? (v : Magnitude) (tie : Tie) (k : Int) : Option Nat :=
  match v.readsBack k (v.floorOn k), v.readsBack k (v.floorOn k + 1) with
  | true, true =>
    some (if v.prefersAbove tie k (v.floorOn k) then v.floorOn k + 1 else v.floorOn k)
  | true, false => some (v.floorOn k)
  | false, true => some (v.floorOn k + 1)
  | false, false => none

/-- The first hit on the grids `10 ^ k`, `10 ^ (k - 1)`, …, of which the last is
taken as it comes. -/
def firstOnGrids (v : Magnitude) (tie : Tie) : Nat → Int → Scaled
  | 0, k => ⟨(v.onGrid? tie k).getD 0, k⟩
  | more + 1, k =>
    match v.onGrid? tie k with
    | some d => ⟨d, k⟩
    | none => firstOnGrids v tie more (k - 1)

/-- Seventeen digits are enough for every number of up to 53 significant bits. -/
def shortest (v : Magnitude) (tie : Tie) : Scaled :=
  if v.significand = 0 then ⟨0, 0⟩
  else
    let found := v.firstOnGrids tie 16 v.leadingExponent
    if found.digits = 10 then ⟨1, found.exponent + 1⟩ else found

/-! ## The two neighbours are enough -/

theorem readsBack_of_onGrid? {v : Magnitude} {tie : Tie} {k : Int} {d : Nat}
    (h : v.onGrid? tie k = some d) : v.readsBack k d = true := by
  unfold onGrid? at h
  split at h
  · next hbelow habove =>
    rw [← Option.some.inj h]
    split
    · exact habove
    · exact hbelow
  · next hbelow _ => rw [← Option.some.inj h]; exact hbelow
  · next _ habove => rw [← Option.some.inj h]; exact habove
  · simp at h

theorem tenUnits_pos (v : Magnitude) (k : Int) : 0 < v.tenUnits k :=
  Nat.mul_pos (Nat.pow_pos (by decide)) (Nat.pow_pos (by decide))

theorem twoUnits_pos (v : Magnitude) (k : Int) : 0 < v.twoUnits k :=
  Nat.mul_pos (Nat.pow_pos (by decide)) (Nat.pow_pos (by decide))

theorem lower_lt_middle {v : Magnitude} (h : 0 < v.significand) : v.lower < v.middle := by
  unfold lower middle
  split <;> omega

theorem middle_lt_upper (v : Magnitude) : v.middle < v.upper := by
  unfold middle upper
  omega

/-- If any point of a grid reads back, then so does a neighbour of the number. -/
theorem readsBack_floorOn {v : Magnitude} (hv : 0 < v.significand) {k : Int} {d : Nat}
    (h : v.readsBack k d = true) :
    v.readsBack k (v.floorOn k) = true ∨ v.readsBack k (v.floorOn k + 1) = true := by
  have hlower := Nat.mul_lt_mul_of_pos_right (lower_lt_middle hv) (v.twoUnits_pos k)
  have hupper := Nat.mul_lt_mul_of_pos_right v.middle_lt_upper (v.twoUnits_pos k)
  have hfloor : v.floorOn k * v.tenUnits k ≤ v.middle * v.twoUnits k := Nat.div_mul_le_self _ _
  have habove : v.middle * v.twoUnits k < (v.floorOn k + 1) * v.tenUnits k := by
    rw [Nat.mul_comm (_ + 1)]
    exact Nat.lt_mul_div_succ _ (v.tenUnits_pos k)
  rcases Nat.lt_or_ge (v.floorOn k) d with hd | hd
  · right
    have hpoint : (v.floorOn k + 1) * v.tenUnits k ≤ d * v.tenUnits k :=
      Nat.mul_le_mul_right _ hd
    cases hends : v.holdsEnds <;> simp [readsBack, hends] at h ⊢ <;> omega
  · left
    have hpoint : d * v.tenUnits k ≤ v.floorOn k * v.tenUnits k := Nat.mul_le_mul_right _ hd
    cases hends : v.holdsEnds <;> simp [readsBack, hends] at h ⊢ <;> omega

/-- A grid without a hit has no point at all that reads back. -/
theorem onGrid?_eq_none_iff {v : Magnitude} (hv : 0 < v.significand) {tie : Tie} {k : Int} :
    v.onGrid? tie k = none ↔ ∀ d, v.readsBack k d = false := by
  constructor
  · intro h d
    rw [← Bool.not_eq_true]
    intro hd
    have hnear := readsBack_floorOn hv hd
    unfold onGrid? at h
    split at h <;> simp_all
  · intro h
    cases hg : v.onGrid? tie k with
    | none => rfl
    | some d => exact absurd (readsBack_of_onGrid? hg) (by simp [h d])

end Magnitude

end TransducerLookup.Decimal
