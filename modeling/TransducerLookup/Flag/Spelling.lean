import TransducerLookup.Flag.Basic

/-!
# How flag diacritics are spelled

A symbol is flag-shaped if it has more than five characters, the first and the
last of which are `@` and the third of which is a dot. Between the two `@`
stand parts separated by dots, and empty parts at the end do not count. The
first part is the operator and the second the feature; the third, if it is the
last, is the value. A flag-shaped symbol may still spell no flag.
-/

namespace TransducerLookup.Flag

def isShaped (text : List Char) : Bool :=
  5 < text.length && text.head? = some '@' && text.getLast? = some '@' && text[2]? = some '.'

/-- A flag diacritic with its feature and value in words. -/
structure Spelling where
  operator : Operator
  feature : String
  /-- Empty if the flag has no value. -/
  value : String
  deriving DecidableEq, Repr

namespace Spelling

/-- The parts between the dots, without empty ones at the end. -/
def parts (inner : List Char) : List (List Char) :=
  ((inner.splitOn '.').reverse.dropWhile List.isEmpty).reverse

def ofParts? : List (List Char) → Option Spelling
  | [code] :: feature :: rest =>
    (Operator.ofCode? code).map fun operator =>
      { operator
        feature := String.ofList feature
        value := match rest with
          | [value] => String.ofList value
          | _ => "" }
  | _ => none

def ofText? (text : List Char) : Option Spelling :=
  if isShaped text then ofParts? (parts text.tail.dropLast) else none

end Spelling

end TransducerLookup.Flag
