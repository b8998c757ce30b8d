import TransducerLookup.Stream
import TransducerLookup.SymbolId
import TransducerLookup.Table.Address
import TransducerLookup.Weight

/-!
# The index table

A state in the index table has a head cell and, behind it, one cell for each
input symbol, at the distance of the symbol's id. A cell takes six bytes: the
input symbol and the target. A head cell without input symbol is final if it
has a target, which in weighted transducers holds the bits of the final weight.
-/

namespace TransducerLookup

structure IndexCell where
  input : SymbolId
  target : Target
  deriving DecidableEq, Repr

namespace IndexCell

/-- The cell at every position past the end. -/
def absent : IndexCell := ⟨noSymbol, noTarget⟩

def ofBytes (record : List UInt8) : IndexCell where
  input := Record.field16 record 0
  target := Record.field32 record 2

end IndexCell

structure IndexTable where
  cells : Array IndexCell
  deriving DecidableEq, Repr

namespace IndexTable

def size (t : IndexTable) : Nat := t.cells.size

def cell (t : IndexTable) (pos : Nat) : IndexCell := t.cells[pos]?.getD .absent

def input (t : IndexTable) (pos : Nat) : SymbolId := (t.cell pos).input

def target (t : IndexTable) (pos : Nat) : Target := (t.cell pos).target

def isFinal (t : IndexTable) (pos : Nat) : Bool :=
  t.input pos = noSymbol && t.target pos ≠ noTarget

/-- The final weight that a final cell of a weighted transducer holds. -/
def finalWeight (t : IndexTable) (pos : Nat) : Weight := ⟨t.target pos⟩

/-- Bytes of one cell in a file. -/
def cellSize : Nat := 6

def ofBytes (count : Nat) (bytes : List UInt8) : IndexTable :=
  ⟨Record.collect cellSize IndexCell.ofBytes count bytes #[]⟩

def decode (count : Nat) : Decoder IndexTable := do
  return ofBytes count (← Decoder.block (count * cellSize) .indexTable)

def describe (t : IndexTable) : String := "IndexTable \x7b len: " ++ toString t.size ++ " \x7d"

end IndexTable

end TransducerLookup
