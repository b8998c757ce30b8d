import TransducerLookup.Proofs.Search.Backtracking
import TransducerLookup.Proofs.Search.Exploration

/-!
# The moves out of a state

`Makes` lists the moves that a search makes out of one frame, whatever it does
in the frames above. What happens above a frame does not depend on the frames
below (`turn_over`), so the visits that the moves start can be left out. Then
the moves out of a state are those through its silent cells and after these
those through its cells on the next token (`Stands.makes_visit`).

A state in the transition table has one row of cells for both, and each of the
two scans starts behind the head and ends at the first cell that does not fit.
So the cells on a symbol are found only where the row starts with them
(`takes_iff_of_mixedRow`).
-/

namespace TransducerLookup.Search

open TransducerLookup.Graph

variable {t : Transducer} {tokens : List SymbolId}

/-! ## Moves -/

/-- The move that led into the last of these frames. -/
def lastMove? : List Frame → Option Move
  | child :: parent :: _ => child.edge.bind fun edge => parent.cell?.map fun pos => ⟨edge, pos⟩
  | _ => none

/-- The move that the next turn makes, if it makes one. -/
def State.made? (t : Transducer) (s : State) : Option Move :=
  (s.turn t).bind fun next =>
    if s.frames.length < next.frames.length then lastMove? next.frames else none

/-- Some turns lead from the first state to the second, all with at least so many frames, and these
are the moves made by the turns with just so many. -/
inductive Makes (t : Transducer) (height : Nat) : State → List Move → State → Prop where
  | refl {s : State} : height ≤ s.frames.length → Makes t height s [] s
  | above {s next s' : State} {moves : List Move} : s.turn t = some next →
      height < s.frames.length → Makes t height next moves s' → Makes t height s moves s'
  | here {s next s' : State} {moves : List Move} : s.turn t = some next →
      s.frames.length = height → Makes t height next moves s' →
      Makes t height s ((s.made? t).toList ++ moves) s'

/-- The search makes these moves out of the state of the last frame until it is done with it. -/
def Takes (t : Transducer) (s : State) (moves : List Move) : Prop :=
  ∃ f below s', s.frames = f :: below ∧ s'.frames = f.at .done :: below ∧
    Makes t s.frames.length s moves s'

namespace Makes

variable {height : Nat} {s s' next : State} {moves moves' : List Move}

theorem height_le (h : Makes t height s moves s') : height ≤ s.frames.length := by
  cases h with
  | refl hle => exact hle
  | above _ hlt _ => exact Nat.le_of_lt hlt
  | here _ heq _ => exact Nat.le_of_eq heq.symm

theorem trans {s'' : State} (h : Makes t height s moves s') (h' : Makes t height s' moves' s'') :
    Makes t height s (moves ++ moves') s'' := by
  induction h with
  | refl => exact h'
  | above hturn hlt _ ih => exact .above hturn hlt (ih h')
  | here hturn heq _ ih =>
    rw [List.append_assoc]
    exact .here hturn heq (ih h')

theorem of_stay (hturn : s.turn t = some next) (hs : s.frames.length = height)
    (hnext : next.frames.length = height) : Makes t height s [] next := by
  have hmade : s.made? t = none := by
    rw [State.made?, hturn, Option.bind_some, if_neg (by omega)]
  have h := here hturn hs (refl (Nat.le_of_eq hnext.symm))
  rwa [hmade] at h

theorem of_push {child parent : Frame} {below : List Frame} {edge : Edge} {pos : Nat}
    (hturn : s.turn t = some next) (hs : s.frames.length = height)
    (hnext : next.frames = child :: parent :: below) (hheight : below.length + 1 = height)
    (hedge : child.edge = some edge) (hcell : parent.cell? = some pos) :
    Makes t height s [⟨edge, pos⟩] next := by
  have hlength : next.frames.length = height + 1 := by
    rw [hnext, List.length_cons, List.length_cons, hheight]
  have hmade : s.made? t = some ⟨edge, pos⟩ := by
    rw [State.made?, hturn, Option.bind_some, if_pos (by omega), hnext, lastMove?, hedge,
      hcell]
    rfl
  have h := here hturn hs (refl (s := next) (by omega))
  rwa [hmade] at h

theorem eq_nil_of_done {f : Frame} {below : List Frame} (h : Makes t height s moves s')
    (hframes : s.frames = f.at .done :: below) (hheight : below.length + 1 = height) :
    moves = [] := by
  have hlength : s.frames.length = height := by rw [hframes, List.length_cons, hheight]
  cases h with
  | refl => rfl
  | above _ hlt _ => omega
  | here hturn _ hrest =>
    -- The turn leaves the frame.
    rw [State.turn, hframes] at hturn
    obtain rfl := Option.some.inj hturn
    have hle := hrest.height_le
    have hleave : (s.leave (f.at .done) below).frames = below := by
      unfold State.leave
      split <;> rfl
    change height ≤ (s.leave (f.at .done) below).frames.length at hle
    rw [hleave] at hle
    omega

theorem unique {s'' : State} {f f' : Frame} {below below' : List Frame}
    (h : Makes t height s moves s') (hs' : s'.frames = f.at .done :: below)
    (hheight : below.length + 1 = height) (h' : Makes t height s moves' s'')
    (hs'' : s''.frames = f'.at .done :: below') (hheight' : below'.length + 1 = height) :
    moves = moves' := by
  -- Both runs make the same turns, and neither goes on where the frame is done.
  induction h generalizing moves' with
  | refl => exact (h'.eq_nil_of_done hs' hheight).symm
  | @above s next _ _ hturn hlt hrest ih =>
    cases h' with
    | refl =>
      rw [hs'', List.length_cons, hheight'] at hlt
      exact absurd hlt (Nat.lt_irrefl height)
    | above hturn' _ hrest' =>
      obtain rfl := Option.some.inj (hturn.symm.trans hturn')
      exact ih hs' hrest'
    | here _ heq _ => omega
  | @here s next _ _ hturn heq hrest ih =>
    cases h' with
    | refl _ => exact (here hturn heq hrest).eq_nil_of_done hs'' hheight'
    | above _ hlt _ => omega
    | here hturn' _ hrest' =>
      obtain rfl := Option.some.inj (hturn.symm.trans hturn')
      rw [ih hs' hrest']

end Makes

/-! ## Frames below -/

/-- The state with more frames below its own. -/
def State.over (s : State) (below : List Frame) : State := { s with frames := s.frames ++ below }

section Over

variable (s : State) (f : Frame) (rest below : List Frame)

theorem tryEpsilon_over (pos : Nat) : (s.over below).tryEpsilon t f (rest ++ below) pos =
    (s.tryEpsilon t f rest pos).over below := by
  unfold State.tryEpsilon
  dsimp only
  split
  · split <;> rfl
  · split
    · rfl
    · next o _ =>
      split
      · unfold State.pushFlag? State.over
        dsimp only
        cases s.flags.push? o <;> rfl
      · rfl

theorem arrive_over : (s.over below).arrive t f (rest ++ below) =
    (s.arrive t f rest).over below := by
  show (if s.currentSymbol = noSymbol then _ else _) = State.over (if s.currentSymbol = noSymbol
    then _ else _) below
  split
  · cases t.finalWeight? f.address <;> rfl
  · rfl

theorem tryConsume_over (pos : Nat) : (s.over below).tryConsume t f (rest ++ below) pos =
    (s.tryConsume t f rest pos).over below := by
  show (if t.transitions.fits pos s.currentSymbol then _ else _) =
    State.over (if t.transitions.fits pos s.currentSymbol then _ else _) below
  split <;> rfl

theorem leave_over : (s.over below).leave f (rest ++ below) = (s.leave f rest).over below := by
  unfold State.leave
  cases f.edge <;> rfl

/-- A turn does not look below the last frame. -/
theorem turn_over {s : State} (h : s.frames ≠ []) (below : List Frame) :
    (s.over below).turn t = (s.turn t).map (·.over below) := by
  obtain ⟨f, rest, hframes⟩ := List.exists_cons_of_ne_nil h
  have hover : (s.over below).frames = f :: (rest ++ below) := by
    rw [State.over, hframes, List.cons_append]
  unfold State.turn
  rw [hframes, hover]
  dsimp only
  cases f.phase with
  | epsilon pos => exact congrArg some (tryEpsilon_over s f rest below pos)
  | arrive => exact congrArg some (arrive_over s f rest below)
  | consume pos => exact congrArg some (tryConsume_over s f rest below pos)
  | done => exact congrArg some (leave_over s f rest below)

/-- What a search does with frames of its own makes no moves out of those below them. -/
theorem makes_over (frames : List Frame) {turns : Nat} {s : State}
    (h : (run t turns s).frames ≠ []) :
    Makes t frames.length (s.over frames) [] ((run t turns s).over frames) := by
  induction turns generalizing s with
  | zero => exact .refl (by simp [State.over])
  | succ turns ih =>
    cases hturn : s.turn t with
    | none =>
      rw [run_of_turn_eq_none hturn]
      exact .refl (by simp [State.over])
    | some next =>
      rw [run_succ_of_turn_eq_some hturn] at h ⊢
      have hne : s.frames ≠ [] := fun hnil => by
        rw [turn_eq_none_iff.2 hnil] at hturn
        cases hturn
      refine .above ?_ ?_ (ih h)
      · rw [turn_over hne, hturn, Option.map_some]
      · have hpos := List.length_pos_iff.2 hne
        rw [State.over, List.length_append]
        omega

end Over

/-! ## Visits -/

section Visit

variable {s : State} {f : Frame} {p q : Place Address} {m : Move}

/-- A move is made, and all that the search does until it is back makes no other move here. -/
theorem Stands.makes_of_visits {d : Nat} {g : Graph Address} (h : Stands t tokens s f p)
    (hstep : g.Step d tokens p m q) (hvisits : Visits t tokens q) (frames : List Frame)
    (as : List Analysis) : ∃ as', Makes t frames.length
      ((s.moved m q).after (arrival t (some m.edge) q :: frames) as) [] (s.after frames as') := by
  obtain ⟨turns, hturns⟩ := hvisits _ _ [] as (h.moved hstep)
  have hne : (run t turns ((s.moved m q).after [arrival t (some m.edge) q] as)).frames ≠ [] := by
    rw [hturns]
    exact nofun
  have hvisit := makes_over frames hne
  rw [hturns] at hvisit
  have hback : Makes t frames.length (s.after frames (as ++ ways t tokens q)) []
      (s.after frames (as ++ ways t tokens q)) := .refl (Nat.le_refl _)
  refine ⟨as ++ ways t tokens q, hvisit.trans (.above ?_ ?_ hback)⟩
  · exact congrArg some (h.leave_moved hstep frames _)
  · exact Nat.lt_succ_self frames.length

/-- Scanning a row, the search makes the moves through its cells, in order. -/
theorem makes_scan {fits : Nat → Bool} (hend : t.EndsInside fits) {height : Nat}
    (frames : Nat → List Frame) {next : List Frame} {move? : Nat → Option Move}
    (hstop : ∀ pos as, fits pos = false →
      Makes t height (s.after (frames pos) as) [] (s.after next as)) {start : Nat}
    (hfits : ∀ pos ∈ t.row fits start, fits pos = true → ∀ as, ∃ as',
      Makes t height (s.after (frames pos) as) (move? pos).toList (s.after (frames (pos + 1)) as'))
    (as : List Analysis) : ∃ as', Makes t height (s.after (frames start) as)
      ((t.row fits start).filterMap move?) (s.after next as') := by
  -- By induction on the cells that are left in the table.
  induction hn : t.transitions.size - start generalizing start as with
  | zero =>
    have hpos := hend start (by omega)
    rw [Transducer.row_of_not_fits hpos]
    exact ⟨as, hstop start as hpos⟩
  | succ n ih =>
    cases hpos : fits start with
    | false =>
      rw [Transducer.row_of_not_fits hpos]
      exact ⟨as, hstop start as hpos⟩
    | true =>
      rw [Transducer.row_of_fits hend hpos] at hfits ⊢
      obtain ⟨as', hfirst⟩ := hfits start List.mem_cons_self hpos as
      obtain ⟨as'', hrest⟩ := ih (fun pos hmem => hfits pos (List.mem_cons_of_mem _ hmem)) as'
        (by omega)
      refine ⟨as'', ?_⟩
      have hall := hfirst.trans hrest
      cases hmove : move? start with
      | none =>
        rw [hmove] at hall
        rwa [List.filterMap_cons_none hmove]
      | some m =>
        rw [hmove] at hall
        rwa [List.filterMap_cons_some hmove]

/-- The silent moves go through the cells of the silent row. -/
theorem map_silentMoves (t : Transducer) (p : Place Address) :
    (t.graph.silentMoves t.limits.maxEpsilonDepth p).map (·.1) =
      ((t.epsilonStart? p.state).toList.flatMap (t.row t.ReadsNothing)).filterMap fun pos =>
        (t.graph.silentMove? t.limits.maxEpsilonDepth p (pos, t.arc pos)).map (·.1) := by
  unfold silentMoves
  rw [List.map_filterMap]
  exact List.filterMap_map ..

theorem map_readingMoves {symbol : SymbolId} (hsymbol : tokens[p.cursor]? = some symbol) :
    (t.graph.readingMoves tokens p).map (·.1) =
      ((t.consumeStart? symbol p.state).toList.flatMap
        (t.row (t.transitions.input · = symbol))).map (⟨.symbol, ·⟩) := by
  rw [readingMoves, hsymbol]
  show List.map _ (List.map _ (List.map _ _)) = _
  rw [List.map_map, List.map_map]
  rfl

variable (ht : t.WellFormed) (htokens : noSymbol ∉ tokens)
include ht htokens

theorem Stands.makes_silent {edge : Option Edge} (h : Stands t tokens s (arrival t edge p) p)
    (below : List Frame) (as : List Analysis) : ∃ as', Makes t (below.length + 1)
      (s.after (arrival t edge p :: below) as)
      ((t.graph.silentMoves t.limits.maxEpsilonDepth p).map (·.1))
      (s.after ((arrival t edge p).at .arrive :: below) as') := by
  rw [map_silentMoves]
  cases hstart : t.epsilonStart? p.state with
  | none =>
    rw [← arrival_eq_at_arrive hstart]
    exact ⟨as, .refl (Nat.le_refl _)⟩
  | some start =>
    rw [Option.toList_some, List.flatMap_cons, List.flatMap_nil, List.append_nil]
    rw [arrival_eq_at hstart]
    refine makes_scan ht.silent_endsInside
      (fun pos => (arrival t edge p).at (.epsilon pos) :: below) (fun pos as hpos => ?_)
      (fun pos hmem hpos as => ?_) as
    · exact .of_stay (turn_epsilon_end below as (of_decide_eq_false hpos)) rfl rfl
    · have hturn := h.turn_epsilon below as (of_decide_eq_true hpos)
      cases hmove : t.graph.silentMove? t.limits.maxEpsilonDepth p (pos, t.arc pos) with
      | none =>
        rw [hmove] at hturn
        exact ⟨as, .of_stay hturn rfl rfl⟩
      | some x =>
        obtain ⟨⟨edge', number⟩, q⟩ := x
        rw [hmove] at hturn
        obtain ⟨-, -, -, hnumber, -⟩ := silentMove?_eq_some_iff.1 hmove
        obtain rfl : pos = number := hnumber.symm
        have hstep : t.graph.Step t.limits.maxEpsilonDepth tokens p ⟨edge', pos⟩ q :=
          step_of_silentMove? hstart hmem hmove
        have hpush := Makes.of_push hturn rfl rfl rfl rfl rfl
        obtain ⟨as', hback⟩ := h.makes_of_visits hstep (visits ht htokens q)
          ((arrival t edge p).at (.epsilon (pos + 1)) :: below) as
        exact ⟨as', hpush.trans hback⟩

theorem Stands.makes_reading (h : Stands t tokens s f p) (below : List Frame)
    (as : List Analysis) : ∃ as', Makes t (below.length + 1) (s.after (f.at .arrive :: below) as)
      ((t.graph.readingMoves tokens p).map (·.1)) (s.after (f.at .done :: below) as') := by
  cases hsymbol : tokens[p.cursor]? with
  | none =>
    have hmoves : t.graph.readingMoves tokens p = [] := by rw [readingMoves, hsymbol]
    rw [hmoves]
    exact ⟨_, .of_stay (h.turn_arrive_end below as hsymbol) rfl rfl⟩
  | some symbol =>
    have hne : symbol ≠ noSymbol := fun heq => htokens (heq ▸ List.mem_of_getElem? hsymbol)
    rw [map_readingMoves hsymbol, ← List.filterMap_eq_map']
    have hturn := h.turn_arrive below as hsymbol hne
    cases hstart : t.consumeStart? symbol p.state with
    | none =>
      rw [hstart] at hturn
      exact ⟨as, .of_stay hturn rfl rfl⟩
    | some start =>
      rw [hstart] at hturn
      rw [Option.toList_some, List.flatMap_cons, List.flatMap_nil, List.append_nil]
      have hscan : ∃ as', Makes t (below.length + 1)
          (s.after (f.at (.consume start) :: below) as)
          ((t.row (t.transitions.input · = symbol) start).filterMap fun pos =>
            some ⟨.symbol, pos⟩) (s.after (f.at .done :: below) as') := by
        refine makes_scan (Transducer.reading_endsInside hne)
          (fun pos => f.at (.consume pos) :: below) (fun pos as hpos => ?_)
          (fun pos hmem hpos as => ?_) as
        · exact .of_stay (h.turn_consume_end below as hsymbol (of_decide_eq_false hpos) hne) rfl rfl
        · have hpush := Makes.of_push
            (h.turn_consume below as hsymbol (of_decide_eq_true hpos) hne) rfl rfl rfl rfl rfl
          obtain ⟨as', hback⟩ := h.makes_of_visits (step_of_reading hsymbol hstart hmem)
            (visits ht htokens _) (f.at (.consume (pos + 1)) :: below) as
          exact ⟨as', hpush.trans hback⟩
      obtain ⟨as', hscan⟩ := hscan
      exact ⟨as', (Makes.of_stay hturn rfl rfl).trans hscan⟩

/-- Out of a state the search makes the moves of the graph, first those without input. -/
theorem Stands.makes_visit {edge : Option Edge} (h : Stands t tokens s (arrival t edge p) p)
    (below : List Frame) (as : List Analysis) : ∃ as', Makes t (below.length + 1)
      (s.after (arrival t edge p :: below) as)
      ((t.graph.silentMoves t.limits.maxEpsilonDepth p).map (·.1) ++
        (t.graph.readingMoves tokens p).map (·.1))
      (s.after ((arrival t edge p).at .done :: below) as') := by
  obtain ⟨as', hsilent⟩ := h.makes_silent ht htokens below as
  obtain ⟨as'', hreading⟩ := h.makes_reading ht htokens below as'
  exact ⟨as'', hsilent.trans hreading⟩

end Visit

/-! ## Rows of states in the transition table -/

/-- Behind the head cell `i` come `k` cells without input, then `m` cells on the symbol, and then a
cell without any symbol. -/
structure MixedRow (t : Transducer) (symbol : SymbolId) (i k m : Nat) : Prop where
  silent : ∀ pos, i + 1 ≤ pos → pos < i + 1 + k → t.ReadsNothing pos
  symbol : ∀ pos, i + 1 + k ≤ pos → pos < i + 1 + k + m → t.transitions.input pos = symbol
  ends : t.transitions.input (i + 1 + k + m) = noSymbol

theorem row_eq_range' {fits : Nat → Bool} (hend : t.EndsInside fits) {start n : Nat}
    (hfits : ∀ pos, start ≤ pos → pos < start + n → fits pos = true)
    (hstop : fits (start + n) = false) : t.row fits start = List.range' start n := by
  induction n generalizing start with
  | zero => exact Transducer.row_of_not_fits hstop
  | succ n ih =>
    rw [Transducer.row_of_fits hend (hfits start (Nat.le_refl _) (by omega)), List.range'_succ]
    refine congrArg (start :: ·) (ih (fun pos h h' => hfits pos (by omega) (by omega)) ?_)
    rwa [Nat.add_right_comm]

section MixedRow

variable {symbol : SymbolId} {i k m : Nat}
  (hsilent : symbol ≠ epsilonId ∧ t.operation? symbol = none)
include hsilent

theorem MixedRow.row_silent (h : MixedRow t symbol i k m) (ht : t.WellFormed) :
    t.row t.ReadsNothing (i + 1) = List.range' (i + 1) k := by
  refine row_eq_range' ht.silent_endsInside
    (fun pos hle hlt => decide_eq_true (h.silent pos hle hlt)) (decide_eq_false ?_)
  unfold Transducer.ReadsNothing
  cases m with
  | zero =>
    rw [show i + 1 + k = i + 1 + k + 0 from rfl, h.ends, ht.operation?_noSymbol]
    exact not_or.2 ⟨by decide, by simp⟩
  | succ m =>
    rw [h.symbol (i + 1 + k) (Nat.le_refl _) (by omega), hsilent.2]
    exact not_or.2 ⟨hsilent.1, by simp⟩

/-- Behind a cell without input no cell on the symbol is in the row. -/
theorem MixedRow.row_symbol (h : MixedRow t symbol i k m) (hne : symbol ≠ noSymbol) :
    t.row (t.transitions.input · = symbol) (i + 1) =
      if k = 0 then List.range' (i + 1) m else [] := by
  have hend := Transducer.reading_endsInside (t := t) hne
  split
  · next hk =>
    subst hk
    refine row_eq_range' hend (fun pos hle hlt => decide_eq_true (h.symbol pos hle (by omega)))
      (decide_eq_false ?_)
    have hstop := h.ends
    rw [Nat.add_zero] at hstop
    rw [hstop]
    exact hne.symm
  · next hk =>
    refine Transducer.row_of_not_fits (decide_eq_false fun heq => ?_)
    have hreads := h.silent (i + 1) (Nat.le_refl _) (by omega)
    rw [Transducer.ReadsNothing, heq, hsilent.2] at hreads
    exact hreads.elim hsilent.1 (by simp)

end MixedRow

/-- Where the search is with its last frame. -/
def State.place (s : State) (f : Frame) : Place Address :=
  ⟨f.address, s.flags.top, s.cursor, f.epsilonDepth, s.output⟩

/-- The move through a cell without input, if the limit on such moves and the flags let it pass. -/
def State.silentMove? (t : Transducer) (s : State) (f : Frame) (pos : Nat) : Option Move :=
  (t.graph.silentMove? t.limits.maxEpsilonDepth (s.place f) (pos, t.arc pos)).map (·.1)

/-- Out of the state the search takes all the cells on the symbol of a mixed row, in order. -/
def TakesSymbols (t : Transducer) (s : State) (i k m : Nat) : Prop :=
  ∃ moves, Takes t s moves ∧
    (moves.filter (·.edge = .symbol)).map (·.number) = List.range' (i + 1 + k) m

section Takes

variable {s : State} {f : Frame} {below : List Frame}

theorem OnTrail.stands (h : OnTrail t tokens s) (hframes : s.frames = f :: below) :
    Stands t tokens s f (s.place f) where
  input := h.input
  cursor := rfl
  cursor_le := (h.trail f below hframes).cursor_le
  row := rfl
  output := rfl
  address := rfl
  depth := rfl

theorem Takes.unique {moves moves' : List Move} (h : Takes t s moves) (h' : Takes t s moves') :
    moves = moves' := by
  obtain ⟨f, below, last, hframes, hlast, hmakes⟩ := h
  obtain ⟨f', below', last', hframes', hlast', hmakes'⟩ := h'
  have hheight : below.length + 1 = s.frames.length := by rw [hframes, List.length_cons]
  have hheight' : below'.length + 1 = s.frames.length := by rw [hframes', List.length_cons]
  exact hmakes.unique hlast hheight hmakes' hlast' hheight'

variable {symbol : SymbolId} {i k m : Nat}

/-- The frame is new, so the search visits its place from the beginning. -/
theorem arrival_place (t : Transducer) (s : State) (haddress : f.address = .transition i)
    (hphase : f.phase = .epsilon (i + 1)) : arrival t f.edge (s.place f) = f := by
  obtain ⟨address, phase, edge, depth⟩ := f
  obtain rfl : address = .transition i := haddress
  obtain rfl : phase = .epsilon (i + 1) := hphase
  rfl

theorem MixedRow.map_moves (hrow : MixedRow t symbol i k m) (ht : t.WellFormed)
    (hsilent : symbol ≠ epsilonId ∧ t.operation? symbol = none) (hne : symbol ≠ noSymbol)
    (haddress : f.address = .transition i) (hsymbol : tokens[s.cursor]? = some symbol) :
    (t.graph.silentMoves t.limits.maxEpsilonDepth (s.place f)).map (·.1) ++
      (t.graph.readingMoves tokens (s.place f)).map (·.1) =
        (List.range' (i + 1) k).filterMap (s.silentMove? t f) ++
          (if k = 0 then List.range' (i + 1) m else []).map (⟨.symbol, ·⟩) := by
  have hstart : t.epsilonStart? (s.place f).state = some (i + 1) := by
    rw [State.place, haddress]
    rfl
  have hconsume : t.consumeStart? symbol (s.place f).state = some (i + 1) := by
    rw [State.place, haddress]
    rfl
  rw [map_silentMoves, map_readingMoves hsymbol, hstart, hconsume]
  simp only [Option.toList_some, List.flatMap_cons, List.flatMap_nil, List.append_nil]
  rw [hrow.row_silent hsilent ht, hrow.row_symbol hsilent hne]
  rfl

/-- Just after the search came to a state in the transition table whose row is mixed, it takes the
cells without input, and those on the next token only if there are no cells without input. -/
theorem takes_iff_of_mixedRow (ht : t.WellFormed) (htokens : noSymbol ∉ tokens)
    (htrail : OnTrail t tokens s) (hframes : s.frames = f :: below)
    (haddress : f.address = .transition i) (hphase : f.phase = .epsilon (i + 1))
    (hsymbol : tokens[s.cursor]? = some symbol)
    (hsilent : symbol ≠ epsilonId ∧ t.operation? symbol = none)
    (hrow : MixedRow t symbol i k m) (moves : List Move) :
    Takes t s moves ↔ moves = (List.range' (i + 1) k).filterMap (s.silentMove? t f) ++
      (if k = 0 then List.range' (i + 1) m else []).map (⟨.symbol, ·⟩) := by
  have hne : symbol ≠ noSymbol := fun heq => htokens (heq ▸ List.mem_of_getElem? hsymbol)
  have hnew := arrival_place t s haddress hphase
  have hstands : Stands t tokens s (arrival t f.edge (s.place f)) (s.place f) := by
    rw [hnew]
    exact htrail.stands hframes
  have hs : s.after (f :: below) [] = s := by
    rw [← hframes]
    rfl
  obtain ⟨as, hvisit⟩ := hstands.makes_visit ht htokens below []
  rw [hnew, hs, hrow.map_moves ht hsilent hne haddress hsymbol] at hvisit
  have htakes : Takes t s ((List.range' (i + 1) k).filterMap (s.silentMove? t f) ++
      (if k = 0 then List.range' (i + 1) m else []).map (⟨.symbol, ·⟩)) := by
    refine ⟨f, below, s.after (f.at .done :: below) as, hframes, rfl, ?_⟩
    rwa [hframes, List.length_cons]
  exact ⟨fun h => h.unique htakes, fun h => h ▸ htakes⟩

theorem edge_of_silentMove? {pos : Nat} {move : Move} (h : s.silentMove? t f pos = some move) :
    move.edge ≠ .symbol := by
  obtain ⟨⟨move, q⟩, hmove, rfl⟩ := Option.map_eq_some_iff.1 h
  obtain ⟨-, row, hpass, -⟩ := silentMove?_eq_some_iff.1 hmove
  rcases pass?_eq_some_iff.1 hpass with ⟨-, hedge, -⟩ | ⟨-, hedge, -⟩
  · simp [hedge]
  · simp [hedge]

theorem filter_symbol_append (cells cells' : List Nat) :
    ((cells.filterMap (s.silentMove? t f) ++ cells'.map (⟨Edge.symbol, ·⟩ : Nat → Move)).filter
      (·.edge = .symbol)).map (·.number) = cells' := by
  have hsilent : (cells.filterMap (s.silentMove? t f)).filter (·.edge = .symbol) = [] := by
    refine List.filter_eq_nil_iff.2 fun move hmove => ?_
    obtain ⟨pos, -, hmove⟩ := List.mem_filterMap.1 hmove
    simpa using edge_of_silentMove? hmove
  have hsymbol : (cells'.map (⟨Edge.symbol, ·⟩ : Nat → Move)).filter (·.edge = .symbol) =
      cells'.map (⟨.symbol, ·⟩) := by
    refine List.filter_eq_self.2 fun move hmove => ?_
    obtain ⟨pos, -, rfl⟩ := List.mem_map.1 hmove
    rfl
  rw [List.filter_append, hsilent, List.nil_append, hsymbol, List.map_map]
  exact List.map_id cells'

/-- So the cells on the token are all taken only if one kind of cells is missing. -/
theorem takesSymbols_iff (h : ∀ moves, Takes t s moves ↔
      moves = (List.range' (i + 1) k).filterMap (s.silentMove? t f) ++
        (if k = 0 then List.range' (i + 1) m else []).map (⟨.symbol, ·⟩)) :
    TakesSymbols t s i k m ↔ k = 0 ∨ m = 0 := by
  have hcells : TakesSymbols t s i k m ↔
      (if k = 0 then List.range' (i + 1) m else []) = List.range' (i + 1 + k) m := by
    simp only [TakesSymbols, h, exists_eq_left, filter_symbol_append]
  rw [hcells]
  split
  · next hk => simp [hk]
  · next hk =>
    rw [eq_comm, List.range'_eq_nil_iff]
    simp [hk]

end Takes

/-! ## A small file with a mixed row -/

/-- A file of epsilon and `a`. Its first state leads on epsilon to a state with a transition on
epsilon and one on `a`, in this order and both to the same final state. -/
def mixedFile : List UInt8 :=
  -- The header: symbol counts, table sizes, and nothing else set.
  [2, 0, 2, 0, 2, 0, 0, 0, 7, 0, 0, 0] ++ List.replicate 44 0
  -- The symbols, and an index table with a cell for epsilon.
  ++ [0, 97, 0] ++ [255, 255, 255, 255, 255, 255, 0, 0, 0, 0, 0, 128]
  -- The row of the first state.
  ++ [0, 0, 0, 0, 2, 0, 0, 128, 255, 255, 255, 255, 255, 255, 255, 255]
  -- The state with the mixed row.
  ++ [255, 255, 255, 255, 255, 255, 255, 255, 0, 0, 0, 0, 6, 0, 0, 128]
  ++ [1, 0, 1, 0, 6, 0, 0, 128, 255, 255, 255, 255, 255, 255, 255, 255]
  -- The final state.
  ++ [255, 255, 255, 255, 1, 0, 0, 0]

theorem isSome_ofBytes_mixedFile : (Transducer.ofBytes mixedFile).toOption.isSome = true := by
  decide +kernel

def mixed : Transducer := (Transducer.ofBytes mixedFile).toOption.get isSome_ofBytes_mixedFile

theorem ofBytes_mixedFile : Transducer.ofBytes mixedFile = .ok mixed :=
  Transducer.eq_ok_get isSome_ofBytes_mixedFile

theorem tokenize_mixed : mixed.tokenize "a" = some [1] := by decide +kernel

theorem mixedRow_mixed : MixedRow mixed 1 2 1 1 where
  silent pos hle hlt := by
    obtain rfl : pos = 3 := by omega
    decide +kernel
  symbol pos hle hlt := by
    obtain rfl : pos = 4 := by omega
    decide +kernel
  ends := by decide +kernel

/-- The state with the mixed row, as the search on `a` comes to it. -/
def mixedFrame : Frame := ⟨.transition 2, .epsilon 3, some .epsilon, 1⟩

/-! ## Whole searches -/

/-- Whenever the search of a loaded transducer has come to a state in the transition table whose
row is mixed and goes on until it is done with it, it takes the cells without input that the limit
and the flags let pass. Then it takes all cells on the next token, in order, if there are no cells
without input in front of them, and otherwise none. -/
theorem takes_iff_of_load {file : Stream} {t : Transducer} (hload : Transducer.load file = .ok t)
    (limits : Limits) {text : String} {tokens : List SymbolId}
    (htokens : t.tokenize text = some tokens) {turns : Nat} {s : State}
    (hs : run (t.withLimits limits) turns (begin t tokens) = s) {f : Frame} {below : List Frame}
    (hframes : s.frames = f :: below) {i : Nat} (haddress : f.address = .transition i)
    (hphase : f.phase = .epsilon (i + 1)) {symbol : SymbolId}
    (hsymbol : tokens[s.cursor]? = some symbol) {k m : Nat} (hrow : MixedRow t symbol i k m) :
    (∀ moves, Takes (t.withLimits limits) s moves ↔
      moves = (List.range' (i + 1) k).filterMap (s.silentMove? (t.withLimits limits) f) ++
        (if k = 0 then List.range' (i + 1) m else []).map (⟨.symbol, ·⟩)) ∧
    (TakesSymbols (t.withLimits limits) s i k m ↔ k = 0 ∨ m = 0) := by
  have ht := Transducer.wellFormed_of_load hload
  have hmem := List.mem_of_getElem? hsymbol
  have hsilent : symbol ≠ epsilonId ∧ t.operation? symbol = none :=
    ⟨fun heq => ht.ne_epsilonId_of_mem_tokenize htokens (heq ▸ hmem),
      Transducer.operation?_of_mem_tokenize htokens hmem⟩
  have htrail : OnTrail (t.withLimits limits) tokens s := by
    rw [← hs]
    exact (OnTrail.begin (t.withLimits limits) tokens).run turns
  have htakes := takes_iff_of_mixedRow (ht.withLimits limits)
    (Transducer.noSymbol_notMem_tokenize htokens) htrail hframes haddress hphase hsymbol hsilent
    ⟨hrow.silent, hrow.symbol, hrow.ends⟩
  exact ⟨htakes, takesSymbols_iff htakes⟩

/-- The second state of the small file has one transition, on `a`, which is taken. That of the
mixed file has one on epsilon and one on `a`, and the second is not. -/
theorem takes_iff_of_load_small :
    (Transducer.load (.ofBytes Transducer.smallFile) = .ok Transducer.small ∧
      Transducer.small.tokenize "a" = some [1] ∧
      (run (Transducer.small.withLimits ⟨1, 100⟩) 1 (begin Transducer.small [1])).frames =
        [⟨.transition 2, .epsilon 3, some .flag, 1⟩, ⟨.index 0, .epsilon 1, none, 0⟩] ∧
      MixedRow Transducer.small 1 2 0 1 ∧
      Takes (Transducer.small.withLimits ⟨1, 100⟩)
        (run (Transducer.small.withLimits ⟨1, 100⟩) 1 (begin Transducer.small [1]))
        [⟨.symbol, 3⟩]) ∧
    Transducer.load (.ofBytes mixedFile) = .ok mixed ∧
    mixed.tokenize "a" = some [1] ∧
    (run (mixed.withLimits ⟨2, 100⟩) 1 (begin mixed [1])).frames =
      [mixedFrame, ⟨.index 0, .epsilon 1, none, 0⟩] ∧
    MixedRow mixed 1 2 1 1 ∧
    Takes (mixed.withLimits ⟨2, 100⟩) (run (mixed.withLimits ⟨2, 100⟩) 1 (begin mixed [1]))
      [⟨.epsilon, 3⟩] ∧
    ¬ TakesSymbols (mixed.withLimits ⟨2, 100⟩)
      (run (mixed.withLimits ⟨2, 100⟩) 1 (begin mixed [1])) 2 1 1 := by
  refine ⟨?_, ?_⟩
  · have htokens : Transducer.small.tokenize "a" = some [1] := by decide +kernel
    have hframes : (run (Transducer.small.withLimits ⟨1, 100⟩) 1
        (begin Transducer.small [1])).frames =
          [⟨.transition 2, .epsilon 3, some .flag, 1⟩, ⟨.index 0, .epsilon 1, none, 0⟩] := by
      decide +kernel
    have hsymbol : [(1 : SymbolId)][(run (Transducer.small.withLimits ⟨1, 100⟩) 1
        (begin Transducer.small [1])).cursor]? = some 1 := by
      decide +kernel
    have hrow : MixedRow Transducer.small 1 2 0 1 := by
      refine ⟨fun pos hle hlt => by omega, fun pos hle hlt => ?_, by decide +kernel⟩
      obtain rfl : pos = 3 := by omega
      decide +kernel
    obtain ⟨htakes, -⟩ := takes_iff_of_load Transducer.ofBytes_smallFile ⟨1, 100⟩ htokens rfl
      hframes rfl rfl hsymbol hrow
    exact ⟨Transducer.ofBytes_smallFile, htokens, hframes, hrow, (htakes _).2 rfl⟩
  · have hframes : (run (mixed.withLimits ⟨2, 100⟩) 1 (begin mixed [1])).frames =
        [mixedFrame, ⟨.index 0, .epsilon 1, none, 0⟩] := by
      decide +kernel
    have hsymbol : [(1 : SymbolId)][(run (mixed.withLimits ⟨2, 100⟩) 1
        (begin mixed [1])).cursor]? = some 1 := by
      decide +kernel
    obtain ⟨htakes, hsymbols⟩ := takes_iff_of_load ofBytes_mixedFile ⟨2, 100⟩ tokenize_mixed rfl
      hframes rfl rfl hsymbol mixedRow_mixed
    refine ⟨ofBytes_mixedFile, tokenize_mixed, hframes, mixedRow_mixed,
      (htakes _).2 (by decide +kernel), ?_⟩
    rw [hsymbols]
    decide

/-- The search on `a` comes to no limit, and out of the state with the mixed row it makes the move
on epsilon only. The text has no analysis. -/
theorem not_takesSymbols_mixed :
    Transducer.load (.ofBytes mixedFile) = .ok mixed ∧ mixed.tokenize "a" = some [1] ∧
    (run mixed 1 (begin mixed [1])).frames = [mixedFrame, ⟨.index 0, .epsilon 1, none, 0⟩] ∧
    mixedFrame.address = .transition 2 ∧ mixedFrame.phase = .epsilon 3 ∧
    [(1 : SymbolId)][(run mixed 1 (begin mixed [1])).cursor]? = some 1 ∧
    MixedRow mixed 1 2 1 1 ∧
    (run mixed 13 (begin mixed [1])).frames = [] ∧ 13 ≤ mixed.limits.maxSteps ∧
    (∀ turns ≤ 13, ∀ f ∈ (run mixed turns (begin mixed [1])).frames,
      f.epsilonDepth < mixed.limits.maxEpsilonDepth) ∧
    ¬ TakesSymbols mixed (run mixed 1 (begin mixed [1])) 2 1 1 ∧
    mixed.analyze "a" = [] := by
  have hframes : (run mixed 1 (begin mixed [1])).frames =
      [mixedFrame, ⟨.index 0, .epsilon 1, none, 0⟩] := by
    decide +kernel
  have hsymbol : [(1 : SymbolId)][(run mixed 1 (begin mixed [1])).cursor]? = some 1 := by
    decide +kernel
  have htakes := takes_iff_of_mixedRow (Transducer.wellFormed_of_load ofBytes_mixedFile) (by decide)
    ((OnTrail.begin mixed [1]).run 1) hframes rfl rfl hsymbol (by decide +kernel) mixedRow_mixed
  refine ⟨ofBytes_mixedFile, tokenize_mixed, hframes, rfl, rfl, hsymbol, mixedRow_mixed,
    by decide +kernel, by decide +kernel, by decide +kernel, ?_, by decide +kernel⟩
  rw [takesSymbols_iff htakes]
  decide

end TransducerLookup.Search
