import TransducerLookup.Text.Utf8

/-!
# Preamble properties

A preamble body lists properties such as `version` or `type` as NUL-terminated
texts, each key followed by its value. Reading stops at an empty key; a key
without a value is dropped.
-/

namespace TransducerLookup

/-- Keys with their values, in file order. -/
abbrev Properties := List (String × String)

namespace Properties

/-- Consecutive fields as keys and values, up to an empty key. -/
def ofFields : List String → Properties
  | key :: value :: rest => if key = "" then [] else (key, value) :: ofFields rest
  | _ => []

def ofBytes (body : List UInt8) : Properties :=
  ofFields ((body.splitOn 0).map Utf8.decodeLossy)

def find? (properties : Properties) (key : String) : Option String := properties.lookup key

end Properties

end TransducerLookup
