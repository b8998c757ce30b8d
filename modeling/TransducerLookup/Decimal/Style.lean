import TransducerLookup.Decimal.Shortest

/-!
# Decimal notation

A style says how a number is written once its digits are known: which decimal
exponents are written positionally, what follows whole numbers, which way ties
between digits go, and what stands for values that are no numbers.
-/

namespace TransducerLookup.Decimal

structure Style where
  /-- The least and the greatest decimal exponent that is written positionally;
  without bounds all are. -/
  positional : Option (Int × Int)
  /-- Follows whole numbers in positional notation. -/
  wholeEnding : String
  tie : Tie
  nan : String
  infinity : String
  negativeInfinity : String

namespace Style

/-- Plain notation, never with an exponent. -/
def plain : Style where
  positional := none
  wholeEnding := ""
  tie := .up
  nan := "NaN"
  infinity := "inf"
  negativeInfinity := "-inf"

/-- JSON numbers; a value that is none becomes null. -/
def json (least greatest : Int) : Style where
  positional := some (least, greatest)
  wholeEnding := ".0"
  tie := .toEven
  nan := "null"
  infinity := "null"
  negativeInfinity := "null"

def isPositional (s : Style) (exponent : Int) : Bool :=
  match s.positional with
  | none => true
  | some (least, greatest) => least ≤ exponent && exponent ≤ greatest

def positionalText (s : Style) (digits : List Char) (exponent : Int) : String :=
  let places := (-exponent).toNat
  if 0 ≤ exponent then
    String.ofList (digits ++ List.replicate exponent.toNat '0') ++ s.wholeEnding
  else if places < digits.length then
    let whole := digits.length - places
    String.ofList (digits.take whole ++ '.' :: digits.drop whole)
  else
    String.ofList ('0' :: '.' :: List.replicate (places - digits.length) '0' ++ digits)

/-- One digit, the others behind the point, and the exponent with its sign. -/
def scientificText (digits : List Char) (leading : Int) : String :=
  let fraction := if digits.length ≤ 1 then [] else '.' :: digits.drop 1
  let exponent := (if leading < 0 then "e-" else "e+") ++ toString leading.natAbs
  String.ofList (digits.take 1 ++ fraction) ++ exponent

def magnitudeText (s : Style) (v : Magnitude) : String :=
  let scaled := v.shortest s.tie
  let digits := Nat.toDigits 10 scaled.digits
  let leading := scaled.exponent + digits.length - 1
  if s.isPositional leading then s.positionalText digits scaled.exponent
  else scientificText digits leading

def text (s : Style) : Binary → String
  | .nan => s.nan
  | .infinite negative => if negative then s.negativeInfinity else s.infinity
  | .finite negative v => (if negative then "-" else "") ++ s.magnitudeText v

end Style

end TransducerLookup.Decimal
