import TransducerLookup.Flag.Spelling
import TransducerLookup.NameTable

/-!
# Feature and value names

Reading symbols in order, the features and values that their flags name get
ids in first-seen order. The empty value is there from the start, as id 0.
-/

namespace TransducerLookup.Flag

structure Names where
  features : NameTable
  values : NameTable
  deriving DecidableEq, Repr

namespace Names

def initial : Names := ⟨.empty, ⟨#[""]⟩⟩

/-- The operation of a flag, and the names with its own among them. -/
def operation (names : Names) (flag : Spelling) : Operation × Names :=
  let (value, values) := names.values.intern flag.value
  let (feature, features) := names.features.intern flag.feature
  ({ operator := flag.operator
     feature := UInt16.ofNat feature
     value := Int32.ofNat value },
   { features, values })

/-- The operation of a symbol, if it spells a flag; no other symbol adds names. -/
def read (names : Names) (text : List Char) : Option Operation × Names :=
  match Spelling.ofText? text with
  | none => (none, names)
  | some flag =>
    let (operation, names) := names.operation flag
    (some operation, names)

end Names

end TransducerLookup.Flag
