import TransducerLookup.Search.State
import TransducerLookup.Transducer

/-!
# One turn of a search

A turn does the next thing that the last frame asks for. Each state is explored
in the same order: first its transitions without input, then, at the end of the
input, whether it is final, and elsewhere its transitions on the current symbol.
Taking a transition adds a frame; going back removes it and undoes exactly what
the transition did.
-/

namespace TransducerLookup.Search

def enter (t : Transducer) (address : Address) (edge : Option Edge) (epsilonDepth : Nat) :
    Frame where
  address := address
  phase := match t.epsilonStart? address with
    | some pos => .epsilon pos
    | none => .arrive
  edge := edge
  epsilonDepth := epsilonDepth

namespace State

def analysis (t : Transducer) (s : State) (final : Weight) : Analysis where
  symbols := (s.output.reverse.filterMap fun (id, _) => t.alphabet.text? id).filter (· ≠ "")
  weight :=
    if t.header.weighted then Weight.sum (s.output.reverse.map (·.2)) + final else .one

def follow (t : Transducer) (s : State) (pos : Nat) (edge : Edge) (epsilonDepth : Nat) : State :=
  let address := Address.ofTarget (t.transitions.target pos)
  { s with
    cursor := if edge = .symbol then s.cursor + 1 else s.cursor
    output := (t.transitions.output pos, t.transitions.weight pos) :: s.output
    frames := enter t address (some edge) epsilonDepth :: s.frames }

/-- Goes back from the last frame to those below it. -/
def leave (s : State) (frame : Frame) (below : List Frame) : State :=
  match frame.edge with
  | none => { s with frames := below }
  | some edge =>
    { s with
      cursor := if edge = .symbol then s.cursor - 1 else s.cursor
      flags := if edge = .flag then s.flags.pop else s.flags
      output := s.output.tail
      frames := below }

/-- Tries the transition at `pos` as one without input. Beyond the depth limit
it is skipped, and so is one whose flag is refused. -/
def tryEpsilon (t : Transducer) (s : State) (frame : Frame) (below : List Frame) (pos : Nat) :
    State :=
  let input := t.transitions.input pos
  let next := { s with frames := { frame with phase := .epsilon (pos + 1) } :: below }
  let within := frame.epsilonDepth < t.limits.maxEpsilonDepth
  if input = epsilonId then
    if within then next.follow t pos .epsilon (frame.epsilonDepth + 1) else next
  else
    match t.operation? input with
    | none => { s with frames := { frame with phase := .arrive } :: below }
    | some o =>
      if within then
        match next.pushFlag? o with
        | none => next
        | some pushed => pushed.follow t pos .flag (frame.epsilonDepth + 1)
      else next

/-- Ends the path if the input is used up, and otherwise turns to the
transitions on the current symbol. -/
def arrive (t : Transducer) (s : State) (frame : Frame) (below : List Frame) : State :=
  let symbol := s.currentSymbol
  if symbol = noSymbol then
    let next := { s with frames := { frame with phase := .done } :: below }
    match t.finalWeight? frame.address with
    | none => next
    | some final => { next with found := s.analysis t final :: s.found }
  else
    let phase := match t.consumeStart? symbol frame.address with
      | some pos => .consume pos
      | none => .done
    { s with frames := { frame with phase } :: below }

/-- Tries the transition at `pos` as one on the current symbol. The first that
does not fit ends the row of candidates. -/
def tryConsume (t : Transducer) (s : State) (frame : Frame) (below : List Frame) (pos : Nat) :
    State :=
  if t.transitions.fits pos s.currentSymbol then
    State.follow t { s with frames := { frame with phase := .consume (pos + 1) } :: below } pos
      .symbol 0
  else { s with frames := { frame with phase := .done } :: below }

/-- The state after one turn, `none` if there is no frame left. -/
def turn (t : Transducer) (s : State) : Option State :=
  match s.frames with
  | [] => none
  | frame :: below =>
    match frame.phase with
    | .epsilon pos => some (s.tryEpsilon t frame below pos)
    | .arrive => some (s.arrive t frame below)
    | .consume pos => some (s.tryConsume t frame below pos)
    | .done => some (s.leave frame below)

end State

end TransducerLookup.Search
