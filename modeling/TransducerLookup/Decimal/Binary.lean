/-!
# Binary floating-point numbers, taken apart

The bits of a floating-point number spell a sign, an exponent and a fraction.
A finite number is its significand times a power of two, exactly. A decimal
reads back as the number if it lies in the number's rounding interval, which
reaches halfway to the neighbours on both sides and holds its ends exactly if
the significand is even.
-/

namespace TransducerLookup.Decimal

/-- The widths of the fields of a floating-point format. -/
structure BinaryFormat where
  fractionBits : Nat
  exponentBits : Nat
  deriving DecidableEq, Repr

namespace BinaryFormat

def single : BinaryFormat := ⟨23, 8⟩

def double : BinaryFormat := ⟨52, 11⟩

def leastExponent (f : BinaryFormat) : Int := 2 - Nat.pow 2 (f.exponentBits - 1) - f.fractionBits

end BinaryFormat

/-- The number `significand * 2 ^ exponent`. -/
structure Magnitude where
  significand : Nat
  exponent : Int
  /-- Whether the next smaller number is half as far away as the next larger. -/
  closeBelow : Bool
  deriving DecidableEq, Repr

inductive Binary where
  | nan
  | infinite (negative : Bool)
  | finite (negative : Bool) (magnitude : Magnitude)
  deriving DecidableEq, Repr

namespace Binary

def ofBits (f : BinaryFormat) (bits : Nat) : Binary :=
  let fraction := bits % Nat.pow 2 f.fractionBits
  let biased := bits / Nat.pow 2 f.fractionBits % Nat.pow 2 f.exponentBits
  let negative := bits / Nat.pow 2 (f.fractionBits + f.exponentBits) % 2 = 1
  if biased = Nat.pow 2 f.exponentBits - 1 then
    if fraction = 0 then infinite negative else nan
  else if biased = 0 then
    finite negative ⟨fraction, f.leastExponent, false⟩
  else
    finite negative
      ⟨Nat.pow 2 f.fractionBits + fraction, f.leastExponent + (biased - 1),
        fraction = 0 && 1 < biased⟩

end Binary

namespace Magnitude

/-- The ends of the rounding interval and the number itself, as multiples of
`2 ^ (exponent - 2)`. -/
def lower (v : Magnitude) : Nat := 4 * v.significand - (if v.closeBelow then 1 else 2)

def middle (v : Magnitude) : Nat := 4 * v.significand

def upper (v : Magnitude) : Nat := 4 * v.significand + 2

def holdsEnds (v : Magnitude) : Bool := v.significand % 2 = 0

end Magnitude

end TransducerLookup.Decimal
