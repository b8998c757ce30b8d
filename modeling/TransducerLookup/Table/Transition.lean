import TransducerLookup.Stream
import TransducerLookup.SymbolId
import TransducerLookup.Table.Address
import TransducerLookup.Weight

/-!
# The transition table

A state in the transition table has a head cell, and its transitions are the
cells that follow, up to the first that does not fit. A cell takes eight bytes:
input symbol, output symbol and target. In weighted transducers four more
bytes hold the weight. A head cell with neither symbol and target 1 is final.
-/

namespace TransducerLookup

structure TransitionCell where
  input : SymbolId
  output : SymbolId
  target : Target
  /-- Zero in unweighted transducers. -/
  weight : Weight := .zero
  deriving DecidableEq, Repr

namespace TransitionCell

/-- The cell at every position past the end. -/
def absent : TransitionCell := { input := noSymbol, output := noSymbol, target := noTarget }

def ofBytes (weighted : Bool) (record : List UInt8) : TransitionCell where
  input := Record.field16 record 0
  output := Record.field16 record 2
  target := Record.field32 record 4
  weight := if weighted then ⟨Record.field32 record 8⟩ else .zero

end TransitionCell

structure TransitionTable where
  cells : Array TransitionCell
  /-- Whether the cells carry weights of their own. -/
  weighted : Bool
  deriving DecidableEq, Repr

namespace TransitionTable

def size (t : TransitionTable) : Nat := t.cells.size

def cell (t : TransitionTable) (pos : Nat) : TransitionCell := t.cells[pos]?.getD .absent

def input (t : TransitionTable) (pos : Nat) : SymbolId := (t.cell pos).input

def output (t : TransitionTable) (pos : Nat) : SymbolId := (t.cell pos).output

def target (t : TransitionTable) (pos : Nat) : Target := (t.cell pos).target

def weight (t : TransitionTable) (pos : Nat) : Weight := (t.cell pos).weight

/-- The target of final head cells. -/
def finalTarget : Target := 1

def isFinal (t : TransitionTable) (pos : Nat) : Bool :=
  t.input pos = noSymbol && t.output pos = noSymbol && t.target pos = finalTarget

/-- Whether the cell can be taken on `symbol`. A cell without input symbol never
can; asked for no symbol in particular, every other cell can. -/
def fits (t : TransitionTable) (pos : Nat) (symbol : SymbolId) : Bool :=
  t.input pos ≠ noSymbol && (symbol = noSymbol || t.input pos = symbol)

/-- Bytes of one cell in a file. -/
def cellSize (weighted : Bool) : Nat := if weighted then 12 else 8

def ofBytes (weighted : Bool) (count : Nat) (bytes : List UInt8) : TransitionTable where
  cells := Record.collect (cellSize weighted) (TransitionCell.ofBytes weighted) count bytes #[]
  weighted := weighted

def decode (count : Nat) (weighted : Bool) : Decoder TransitionTable := do
  return ofBytes weighted count (← Decoder.block (count * cellSize weighted) .transitionTable)

def describe (t : TransitionTable) : String :=
  "TransitionTable \x7b len: " ++ toString t.size ++ ", weighted: "
    ++ toString (t.weighted && 0 < t.size) ++ " \x7d"

end TransitionTable

end TransducerLookup
