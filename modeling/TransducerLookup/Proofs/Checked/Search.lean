import TransducerLookup.Proofs.Checked.Flags
import TransducerLookup.Proofs.Checked.Tokens
import TransducerLookup.Proofs.Graph.Basic
import TransducerLookup.Search.Run

/-!
# The search with every operation checked

This is the search turn by turn on the flattened flag stack, where each access
to the input, each table position, each change of the cursor and the step
counter is one of the checked operations.
-/

namespace TransducerLookup.Checked

open Search (Edge Frame Phase)

structure State where
  input : Array SymbolId
  cursor : Nat
  flags : FlatStack
  output : List (SymbolId × Weight)
  frames : List Frame
  found : List Analysis
  deriving DecidableEq, Repr

/-! ## Positions -/

def epsilonStart? (t : Transducer) : Address → Checked (Option Nat)
  | .transition i => do return some (← position (i + 1))
  | .index i => do
    let cell ← position (i + 1)
    if t.index.input cell = epsilonId then
      return some (← position (Address.ofTarget (t.index.target cell)).offset)
    else return none

def consumeStart? (t : Transducer) (symbol : SymbolId) : Address → Checked (Option Nat)
  | .transition i => do return some (← position (i + 1))
  | .index i => do
    let cell ← position (i + 1 + symbol.toNat)
    if t.index.input cell = symbol then
      return some (← position (Address.ofTarget (t.index.target cell)).offset)
    else return none

def enter (t : Transducer) (address : Address) (edge : Option Edge) (epsilonDepth : Nat) :
    Checked Frame := do
  match ← epsilonStart? t address with
  | some pos => return ⟨address, .epsilon pos, edge, epsilonDepth⟩
  | none => return ⟨address, .arrive, edge, epsilonDepth⟩

namespace State

/-! ## Turns -/

def fresh : State := ⟨#[], 0, ⟨0, #[]⟩, [], [], []⟩

def currentSymbol (s : State) : Checked SymbolId := get s.input s.cursor

def follow (t : Transducer) (s : State) (pos : Nat) (edge : Edge) (epsilonDepth : Nat) :
    Checked State := do
  let frame ← enter t (.ofTarget (t.transitions.target pos)) (some edge) epsilonDepth
  return { s with
    cursor := if edge = .symbol then s.cursor + 1 else s.cursor
    output := (t.transitions.output pos, t.transitions.weight pos) :: s.output
    frames := frame :: s.frames }

def leave (s : State) (frame : Frame) (below : List Frame) : Checked State :=
  match frame.edge with
  | none => return { s with frames := below }
  | some .epsilon => return { s with output := s.output.tail, frames := below }
  | some .flag => do
    return { s with flags := ← s.flags.pop, output := s.output.tail, frames := below }
  | some .symbol => do
    return { s with cursor := ← minus s.cursor 1, output := s.output.tail, frames := below }

def tryEpsilon (t : Transducer) (s : State) (frame : Frame) (below : List Frame) (pos : Nat) :
    Checked State :=
  let input := t.transitions.input pos
  if input = epsilonId then do
    let after ← position (pos + 1)
    let next := { s with frames := { frame with phase := .epsilon after } :: below }
    if frame.epsilonDepth < t.limits.maxEpsilonDepth then
      next.follow t pos .epsilon (← increment frame.epsilonDepth)
    else return next
  else
    match t.operation? input with
    | none => return { s with frames := { frame with phase := .arrive } :: below }
    | some o => do
      let after ← position (pos + 1)
      let next := { s with frames := { frame with phase := .epsilon after } :: below }
      if frame.epsilonDepth < t.limits.maxEpsilonDepth then
        match ← next.flags.push? o with
        | none => return next
        | some flags =>
          State.follow t { next with flags := flags } pos .flag (← increment frame.epsilonDepth)
      else return next

def arrive (t : Transducer) (s : State) (frame : Frame) (below : List Frame) : Checked State := do
  let symbol ← s.currentSymbol
  if symbol = noSymbol then
    let next := { s with frames := { frame with phase := .done } :: below }
    match t.finalWeight? frame.address with
    | none => return next
    | some final =>
      return { next with
        found := .ofOutput t.alphabet t.header.weighted s.output final :: s.found }
  else
    match ← consumeStart? t symbol frame.address with
    | some pos => return { s with frames := { frame with phase := .consume pos } :: below }
    | none => return { s with frames := { frame with phase := .done } :: below }

def tryConsume (t : Transducer) (s : State) (frame : Frame) (below : List Frame) (pos : Nat) :
    Checked State := do
  let symbol ← s.currentSymbol
  if t.transitions.fits pos symbol then
    let after ← position (pos + 1)
    follow t { s with frames := { frame with phase := .consume after } :: below } pos .symbol 0
  else return { s with frames := { frame with phase := .done } :: below }

/-- The state after one turn, if there is a frame left. -/
def turn (t : Transducer) (s : State) : Checked State :=
  match s.frames with
  | [] => return s
  | frame :: below =>
    match frame.phase with
    | .epsilon pos => s.tryEpsilon t frame below pos
    | .arrive => s.arrive t frame below
    | .consume pos => s.tryConsume t frame below pos
    | .done => s.leave frame below

theorem increment_eq_ok {n m : Nat} (h : increment n = .ok m) : m = n + 1 := by
  unfold increment at h
  split at h
  · exact (Except.ok.inj h).symm
  · cases h

/-- Counts each turn before it is taken, until no frame is left or the limit is passed. -/
def loop (t : Transducer) (steps : Nat) (s : State) : Checked State :=
  if s.frames = [] then return s
  else
    match _h : increment steps with
    | .error trap => .error trap
    | .ok count =>
      if _hcount : t.limits.maxSteps < count then return s
      else do loop t count (← s.turn t)
  termination_by t.limits.maxSteps - steps
  decreasing_by
    have := increment_eq_ok _h
    omega

theorem loop_of_frames_eq_nil {t : Transducer} {s : State} (h : s.frames = []) (steps : Nat) :
    loop t steps s = .ok s := by
  rw [loop, if_pos h]; rfl

theorem loop_of_le {t : Transducer} {s : State} {steps : Nat} (h : t.limits.maxSteps ≤ steps)
    (hsteps : steps + 1 < 2 ^ 64) : loop t steps s = .ok s := by
  rw [loop]
  split
  · rfl
  · split
    · next hcount => rw [show increment steps = _ from if_pos hsteps] at hcount; cases hcount
    · next count hcount =>
      have := increment_eq_ok hcount
      rw [dif_pos (by omega)]
      rfl

theorem loop_of_lt {t : Transducer} {s : State} {steps : Nat} (hframes : s.frames ≠ [])
    (h : steps < t.limits.maxSteps) (hsteps : steps + 1 < 2 ^ 64) :
    loop t steps s = s.turn t >>= loop t (steps + 1) := by
  rw [loop, if_neg hframes]
  split
  · next hcount => rw [show increment steps = _ from if_pos hsteps] at hcount; cases hcount
  · next count hcount =>
    obtain rfl := increment_eq_ok hcount
    rw [dif_neg (by omega)]

def start (featureCount : Nat) (tokens : List SymbolId) (frames : List Frame) : State :=
  ⟨tokens.toArray.push noSymbol, 0, .start featureCount, [], frames, []⟩

end State

def analyzeWith (t : Transducer) (s : State) (text : String) : Checked (List Analysis × State) := do
  match ← tokenizeFrom t.trie text.toList 0 with
  | none => return ([], s)
  | some tokens =>
    let root ← enter t (.index 0) none 0
    let final ← State.loop t 0 (.start t.alphabet.featureCount tokens [root])
    return (final.found.reverse, { final with frames := [], found := [] })

end TransducerLookup.Checked
