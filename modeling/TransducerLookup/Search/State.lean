import TransducerLookup.Analysis
import TransducerLookup.Flag.Stack
import TransducerLookup.SymbolId
import TransducerLookup.Table.Address

/-!
# The state of a search

A search walks the paths of a transducer depth first. Its stack has one frame
for each state on the current path, the first state at the bottom; the cursor,
the output and the flags describe the same path.
-/

namespace TransducerLookup.Search

/-- What a frame does next with its state. -/
inductive Phase where
  /-- Try the transition at this cell, if it reads no input. -/
  | epsilon (pos : Nat)
  /-- No such transition is left: end here, or go on with the input. -/
  | arrive
  /-- Try the transition at this cell, if it reads the current symbol. -/
  | consume (pos : Nat)
  /-- Go back. -/
  | done
  deriving DecidableEq, Repr

/-- What kind of transition led into a frame. -/
inductive Edge where
  | epsilon
  | flag
  | symbol
  deriving DecidableEq, Repr

structure Frame where
  address : Address
  phase : Phase
  /-- `none` for the first state of the path. -/
  edge : Option Edge
  /-- How many transitions without input led here since the last with input. -/
  epsilonDepth : Nat
  deriving DecidableEq, Repr

structure State where
  /-- The tokens of the text, and `noSymbol` behind them. -/
  input : Array SymbolId
  /-- The place in the input. -/
  cursor : Nat
  flags : Flag.Stack
  /-- Output symbols and weights of the transitions taken, last first. -/
  output : List (SymbolId × Weight)
  /-- The frames, last first. -/
  frames : List Frame
  /-- The analyses found so far, last first. -/
  found : List Analysis
  deriving DecidableEq, Repr

namespace State

/-- A state that has not been used for a lookup. -/
def fresh : State where
  input := #[]
  cursor := 0
  flags := .start 0
  output := []
  frames := []
  found := []

/-- At the start of the input, with these frames. -/
def start (featureCount : Nat) (tokens : List SymbolId) (frames : List Frame) : State where
  input := tokens.toArray.push noSymbol
  cursor := 0
  flags := .start featureCount
  output := []
  frames := frames
  found := []

def currentSymbol (s : State) : SymbolId := s.input.getD s.cursor noSymbol

/-- The state after a flag, or `none` if the flag is refused. -/
def pushFlag? (s : State) (o : Flag.Operation) : Option State :=
  (s.flags.push? o).map fun flags => { s with flags }

def popFlag (s : State) : State := { s with flags := s.flags.pop }

end State

end TransducerLookup.Search
