import Mathlib.Data.List.Basic
import TransducerLookup.Proofs.Table.Path
import TransducerLookup.Search.Run

/-!
# A search explores the graph

`Stands` says that a search state and a frame are at a place. From there the
search finds the analyses of all ways on, in the order of `Graph.explore`, and
is then at the same place again with the frame done and all else as it was
(`reaches_done`). There is one lemma per turn, one lemma for scanning a row of
cells, and one for the visit that a taken transition starts.
-/

namespace TransducerLookup.Search

open TransducerLookup.Graph

/-! ## Runs of any length -/

/-- The second state comes some turns after the first. -/
def Reaches (t : Transducer) (s s' : State) : Prop := ∃ turns, run t turns s = s'

theorem Reaches.refl (t : Transducer) (s : State) : Reaches t s s := ⟨0, rfl⟩

theorem Reaches.trans {t : Transducer} {s s' s'' : State} (h : Reaches t s s')
    (h' : Reaches t s' s'') : Reaches t s s'' := by
  obtain ⟨m, rfl⟩ := h
  obtain ⟨n, rfl⟩ := h'
  exact ⟨m + n, run_add t m n s⟩

theorem Reaches.turn {t : Transducer} {s s' : State} (h : s.turn t = some s') :
    Reaches t s s' := ⟨1, by rw [run_succ_of_turn_eq_some h]; rfl⟩

theorem turn_eq_none_iff {t : Transducer} {s : State} : s.turn t = none ↔ s.frames = [] := by
  unfold State.turn
  cases s.frames with
  | nil => simp
  | cons frame below => cases hphase : frame.phase <;> simp [hphase]

theorem run_eq_of_frames_eq_nil {t : Transducer} {s : State} {m n : Nat}
    (hm : (run t m s).frames = []) (hn : (run t n s).frames = []) : run t m s = run t n s := by
  rcases Nat.le_total m n with h | h
  · obtain ⟨k, rfl⟩ := Nat.exists_eq_add_of_le h
    rw [run_add, run_of_turn_eq_none (turn_eq_none_iff.2 hm)]
  · obtain ⟨k, rfl⟩ := Nat.exists_eq_add_of_le h
    rw [run_add, run_of_turn_eq_none (turn_eq_none_iff.2 hn)]

/-! ## Standing at a place -/

/-- The state with these frames, after these analyses were found in addition. -/
def State.after (s : State) (frames : List Frame) (analyses : List Analysis) : State :=
  { s with frames := frames, found := analyses.reverse ++ s.found }

def Frame.at (f : Frame) (phase : Phase) : Frame := { f with phase := phase }

structure Stands (t : Transducer) (tokens : List SymbolId) (s : State) (f : Frame)
    (p : Place Address) : Prop where
  input : s.input = tokens.toArray.push noSymbol
  cursor : s.cursor = p.cursor
  cursor_le : p.cursor ≤ tokens.length
  row : s.flags.top = p.row
  output : s.output = p.output
  address : f.address = p.state
  depth : f.epsilonDepth = p.depth

def pushed (flags : Flag.Stack) (edge : Edge) (row : Flag.Row) : Flag.Stack :=
  if edge = .flag then ⟨row, flags.rows⟩ else flags

/-- The state at the place to which a move leads. -/
def State.moved (s : State) (m : Move) (q : Place Address) : State :=
  { s with cursor := q.cursor, flags := pushed s.flags m.edge q.row, output := q.output }

def arrival (t : Transducer) (edge : Option Edge) (q : Place Address) : Frame :=
  enter t q.state edge q.depth

variable {t : Transducer} {tokens : List SymbolId} {s : State} {f : Frame} {p q : Place Address}
  {m : Move}

theorem Stands.currentSymbol (h : Stands t tokens s f p) (frames : List Frame)
    (as : List Analysis) :
    (s.after frames as).currentSymbol = tokens[p.cursor]?.getD noSymbol := by
  have hle := h.cursor_le
  show s.input.getD s.cursor noSymbol = _
  rw [h.input, h.cursor, Array.getD_eq_getD_getElem?, Array.getElem?_push]
  split
  · next heq => rw [heq]; simp
  · simp

/-! ## Moving on and coming back -/

theorem step_output {d : Nat} {g : Graph Address} (h : g.Step d tokens p m q) :
    ∃ arc, q.output = arc :: p.output := by
  cases h <;> exact ⟨_, rfl⟩

theorem step_cursor {d : Nat} {g : Graph Address} (h : g.Step d tokens p m q) :
    q.cursor = if m.edge = .symbol then p.cursor + 1 else p.cursor := by
  cases h <;> rfl

theorem step_row {d : Nat} {g : Graph Address} (h : g.Step d tokens p m q)
    (hm : m.edge ≠ .flag) : q.row = p.row := by
  cases h with
  | epsilon => rfl
  | flag => exact absurd rfl hm
  | symbol => rfl

theorem Stands.moved {d : Nat} {g : Graph Address} (h : Stands t tokens s f p)
    (hstep : g.Step d tokens p m q) :
    Stands t tokens (s.moved m q) (arrival t (some m.edge) q) q where
  input := h.input
  cursor := rfl
  cursor_le := step_cursor_le hstep h.cursor_le
  row := by
    show (pushed s.flags m.edge q.row).top = q.row
    unfold pushed
    split
    · rfl
    · next hm => rw [h.row, step_row hstep hm]
  output := rfl
  address := rfl
  depth := rfl

theorem Stands.leave_moved {d : Nat} {g : Graph Address} (h : Stands t tokens s f p)
    (hstep : g.Step d tokens p m q) (frames : List Frame) (as : List Analysis) :
    ((s.moved m q).after (((arrival t (some m.edge) q).at .done) :: frames) as).leave
      ((arrival t (some m.edge) q).at .done) frames = s.after frames as := by
  obtain ⟨arc, houtput⟩ := step_output hstep
  have hcursor : (if m.edge = .symbol then q.cursor - 1 else q.cursor) = s.cursor := by
    rw [h.cursor, step_cursor hstep]
    split <;> rfl
  have hflags : (if m.edge = .flag then (pushed s.flags m.edge q.row).pop
      else pushed s.flags m.edge q.row) = s.flags := by
    unfold pushed
    split <;> rfl
  show State.mk _ (if m.edge = .symbol then q.cursor - 1 else q.cursor) _ q.output.tail _ _ = _
  rw [hcursor, houtput, List.tail_cons, ← h.output]
  show State.mk _ _ (if m.edge = .flag then (pushed s.flags m.edge q.row).pop
      else pushed s.flags m.edge q.row) _ _ _ = _
  rw [hflags]
  rfl

/-! ## Turns -/

variable {pos : Nat} (below : List Frame) (as : List Analysis)

theorem turn_epsilon_end (hpos : ¬ t.ReadsNothing pos) :
    (s.after (f.at (.epsilon pos) :: below) as).turn t =
      some (s.after (f.at .arrive :: below) as) := by
  obtain ⟨hin, ho⟩ := not_or.1 hpos
  have ho : t.operation? (t.transitions.input pos) = none := by simpa using ho
  show some (State.tryEpsilon ..) = _
  simp only [State.tryEpsilon, if_neg hin, ho]
  rfl

theorem Stands.pushFlag? (h : Stands t tokens s f p) (frames : List Frame) (as : List Analysis)
    (o : Flag.Operation) : (s.after frames as).pushFlag? o = (p.row.after? o).map
      fun row => { s.after frames as with flags := ⟨row, s.flags.rows⟩ } := by
  show Option.map _ (Option.map _ (s.flags.top.after? o)) = _
  rw [h.row, Option.map_map]
  rfl

/-- Taking the transition in a cell. -/
theorem Stands.follow (h : Stands t tokens s f p) {edge : Edge} {arc : Arc Address}
    (harc : arc = t.arc pos) (hcursor : q.cursor = if edge = .symbol then p.cursor + 1 else p.cursor)
    (hstate : q.state = arc.target) (houtput : q.output = (arc.output, arc.weight) :: p.output)
    (frames : List Frame) (as : List Analysis) :
    State.follow t { s.after frames as with flags := pushed s.flags edge q.row } pos edge q.depth =
      (s.moved ⟨edge, pos⟩ q).after (arrival t (some edge) q :: frames) as := by
  subst harc
  have hc : (if edge = .symbol then s.cursor + 1 else s.cursor) = q.cursor := by
    rw [hcursor, h.cursor]
  have ho : (t.transitions.output pos, t.transitions.weight pos) :: s.output = q.output := by
    rw [houtput, h.output]; rfl
  show State.mk _ (if edge = .symbol then s.cursor + 1 else s.cursor) _
    ((t.transitions.output pos, t.transitions.weight pos) :: s.output) _ _ = _
  rw [hc, ho]
  show State.mk _ _ _ _ (enter t (t.arc pos).target (some edge) q.depth :: frames) _ = _
  rw [← hstate]
  rfl

theorem turn_epsilon_of_epsilon (hin : t.transitions.input pos = epsilonId) :
    (s.after (f.at (.epsilon pos) :: below) as).turn t =
      some (if f.epsilonDepth < t.limits.maxEpsilonDepth then
        State.follow t (s.after (f.at (.epsilon (pos + 1)) :: below) as) pos .epsilon
          (f.epsilonDepth + 1)
        else s.after (f.at (.epsilon (pos + 1)) :: below) as) := by
  show some (State.tryEpsilon ..) = _
  rw [State.tryEpsilon, if_pos hin]
  rfl

theorem turn_epsilon_of_flag (hin : t.transitions.input pos ≠ epsilonId) {o : Flag.Operation}
    (ho : t.operation? (t.transitions.input pos) = some o) :
    (s.after (f.at (.epsilon pos) :: below) as).turn t =
      some (if f.epsilonDepth < t.limits.maxEpsilonDepth then
        (((s.after (f.at (.epsilon (pos + 1)) :: below) as).pushFlag? o).map
          fun pushed => pushed.follow t pos .flag (f.epsilonDepth + 1)).getD
            (s.after (f.at (.epsilon (pos + 1)) :: below) as)
        else s.after (f.at (.epsilon (pos + 1)) :: below) as) := by
  show some (State.tryEpsilon ..) = _
  rw [State.tryEpsilon, if_neg hin, ho]
  refine congrArg some ?_
  dsimp only
  split
  · next hd =>
    rw [if_pos (show f.epsilonDepth < t.limits.maxEpsilonDepth from hd)]
    split
    · next hpush =>
      rw [show (s.after (f.at (.epsilon (pos + 1)) :: below) as).pushFlag? o = none from hpush]
      rfl
    · next pushed hpush =>
      rw [show (s.after (f.at (.epsilon (pos + 1)) :: below) as).pushFlag? o = some pushed
        from hpush]
      rfl
  · next hd =>
    rw [if_neg (show ¬ f.epsilonDepth < t.limits.maxEpsilonDepth from hd)]
    rfl

/-- A cell without input is taken if the graph has a move through it, and skipped otherwise. -/
theorem Stands.turn_epsilon (h : Stands t tokens s f p) (hpos : t.ReadsNothing pos) :
    (s.after (f.at (.epsilon pos) :: below) as).turn t =
      some (match t.graph.silentMove? t.limits.maxEpsilonDepth p (pos, t.arc pos) with
        | none => s.after (f.at (.epsilon (pos + 1)) :: below) as
        | some (m, q) => (s.moved m q).after
            (arrival t (some m.edge) q :: f.at (.epsilon (pos + 1)) :: below) as) := by
  unfold silentMove?
  by_cases hin : t.transitions.input pos = epsilonId
  · have hpass : t.graph.pass? p.row (t.arc pos).input = some (.epsilon, p.row) := if_pos hin
    rw [turn_epsilon_of_epsilon below as hin, h.depth]
    split
    · simp only [hpass, Option.map_some]
      exact congrArg some (h.follow (q := p.pass (t.arc pos) p.row) rfl rfl rfl rfl _ as)
    · rfl
  · obtain ⟨o, ho⟩ := Option.isSome_iff_exists.1 (hpos.resolve_left hin)
    have hpass : t.graph.pass? p.row (t.arc pos).input = (p.row.after? o).map (.flag, ·) := by
      unfold pass?
      rw [if_neg (show (t.arc pos).input ≠ epsilonId from hin),
        show t.graph.alphabet.operation? (t.arc pos).input = some o from ho]
      rfl
    rw [turn_epsilon_of_flag below as hin ho, h.depth]
    split
    · rw [hpass, h.pushFlag?]
      cases hrow : p.row.after? o with
      | none => rfl
      | some row =>
        exact congrArg some (h.follow (q := p.pass (t.arc pos) row) rfl rfl rfl rfl _ as)
    · rfl

theorem Stands.turn_consume (h : Stands t tokens s f p) {symbol : SymbolId}
    (hsymbol : tokens[p.cursor]? = some symbol) (hpos : t.transitions.input pos = symbol)
    (hne : symbol ≠ noSymbol) :
    (s.after (f.at (.consume pos) :: below) as).turn t =
      some ((s.moved ⟨.symbol, pos⟩ (p.read (t.arc pos))).after
        (arrival t (some .symbol) (p.read (t.arc pos)) :: f.at (.consume (pos + 1)) :: below) as) := by
  have hfits : t.transitions.fits pos symbol = true := by
    simp [TransitionTable.fits, hpos, hne]
  show some (State.tryConsume ..) = _
  unfold State.tryConsume
  rw [h.currentSymbol, hsymbol, Option.getD_some, if_pos hfits]
  exact congrArg some (h.follow (q := p.read (t.arc pos)) rfl rfl rfl rfl
    (f.at (.consume (pos + 1)) :: below) as)

theorem Stands.turn_consume_end (h : Stands t tokens s f p) {symbol : SymbolId}
    (hsymbol : tokens[p.cursor]? = some symbol) (hpos : t.transitions.input pos ≠ symbol)
    (hne : symbol ≠ noSymbol) :
    (s.after (f.at (.consume pos) :: below) as).turn t =
      some (s.after (f.at .done :: below) as) := by
  have hfits : t.transitions.fits pos symbol = false := by
    simp [TransitionTable.fits, hpos, hne]
  show some (State.tryConsume ..) = _
  unfold State.tryConsume
  rw [h.currentSymbol, hsymbol, Option.getD_some, if_neg (by simp [hfits])]
  rfl

theorem Stands.turn_arrive_end (h : Stands t tokens s f p) (hsymbol : tokens[p.cursor]? = none) :
    (s.after (f.at .arrive :: below) as).turn t =
      some (s.after (f.at .done :: below) (as ++ (t.graph.stop? tokens p).toList)) := by
  have hfinal : t.finalWeight? (f.at .arrive).address = t.graph.final? p.state := by
    rw [← h.address]; rfl
  show some (State.arrive ..) = _
  unfold State.arrive stop?
  rw [h.currentSymbol, hsymbol, Option.getD_none]
  simp only [if_true, hfinal]
  cases t.graph.final? p.state with
  | none => simp [Frame.at, State.after]
  | some w =>
    rw [← h.output]
    simp [Frame.at, State.after, State.analysis, Analysis.ofOutput, Transducer.graph]

theorem Stands.turn_arrive (h : Stands t tokens s f p) {symbol : SymbolId}
    (hsymbol : tokens[p.cursor]? = some symbol) (hne : symbol ≠ noSymbol) :
    (s.after (f.at .arrive :: below) as).turn t =
      some (match t.consumeStart? symbol p.state with
        | some start => s.after (f.at (.consume start) :: below) as
        | none => s.after (f.at .done :: below) as) := by
  have hstart : t.consumeStart? symbol (f.at .arrive).address = t.consumeStart? symbol p.state := by
    rw [← h.address]; rfl
  show some (State.arrive ..) = _
  unfold State.arrive
  rw [h.currentSymbol, hsymbol, Option.getD_some]
  simp only [if_neg hne, hstart]
  cases t.consumeStart? symbol p.state <;> rfl

/-! ## Whole visits -/

/-- Scanning a row, the search finds what lies behind each cell of it, in order. -/
theorem reaches_scan {fits : Nat → Bool} (hend : t.EndsInside fits) (frames : Nat → List Frame)
    {next : List Frame} {behind : Nat → List Analysis}
    (hstop : ∀ pos as, fits pos = false →
      Reaches t (s.after (frames pos) as) (s.after next as)) {start : Nat}
    (hfits : ∀ pos ∈ t.row fits start, fits pos = true → ∀ as,
      Reaches t (s.after (frames pos) as) (s.after (frames (pos + 1)) (as ++ behind pos)))
    (as : List Analysis) :
    Reaches t (s.after (frames start) as)
      (s.after next (as ++ (t.row fits start).flatMap behind)) := by
  induction hn : t.transitions.size - start generalizing start as with
  | zero =>
    have hpos := hend start (by omega)
    rw [Transducer.row_of_not_fits hpos, List.flatMap_nil, List.append_nil]
    exact hstop start as hpos
  | succ n ih =>
    cases hpos : fits start with
    | false =>
      rw [Transducer.row_of_not_fits hpos, List.flatMap_nil, List.append_nil]
      exact hstop start as hpos
    | true =>
      rw [Transducer.row_of_fits hend hpos] at hfits ⊢
      rw [List.flatMap_cons, ← List.append_assoc]
      exact (hfits start List.mem_cons_self hpos as).trans
        (ih (fun pos hmem => hfits pos (List.mem_cons_of_mem _ hmem)) _ (by omega))

/-- The analyses of all ways on from a place. -/
def ways (t : Transducer) (tokens : List SymbolId) (p : Place Address) : List Analysis :=
  (t.graph.explore t.limits.maxEpsilonDepth tokens p).map (·.2)

theorem ways_eq (t : Transducer) (tokens : List SymbolId) (p : Place Address) :
    ways t tokens p =
      (t.graph.silentMoves t.limits.maxEpsilonDepth p).flatMap (fun x => ways t tokens x.2) ++
        ((t.graph.stop? tokens p).toList ++
          (t.graph.readingMoves tokens p).flatMap fun x => ways t tokens x.2) := by
  have hthrough (moves : List (Move × Place Address)) :
      (t.graph.through t.limits.maxEpsilonDepth tokens moves).map (·.2) =
        moves.flatMap fun x => ways t tokens x.2 := by
    simp only [through, ways, List.map_flatMap, List.map_map]
    rfl
  unfold ways
  rw [explore_eq, List.map_append, List.map_append, hthrough, hthrough, List.map_map,
    List.append_assoc]
  congr 2
  exact List.map_id _

/-- From its first frame at the place, the search finds all ways on and is done with the frame. -/
def Visits (t : Transducer) (tokens : List SymbolId) (p : Place Address) : Prop :=
  ∀ s edge below as, Stands t tokens s (arrival t edge p) p →
    Reaches t (s.after (arrival t edge p :: below) as)
      (s.after ((arrival t edge p).at .done :: below) (as ++ ways t tokens p))

/-- A move, the visit that it starts and the way back. -/
theorem Stands.reaches_of_visits {d : Nat} {g : Graph Address} (h : Stands t tokens s f p)
    (hstep : g.Step d tokens p m q) (hvisits : Visits t tokens q) (frames : List Frame)
    (as : List Analysis) :
    Reaches t ((s.moved m q).after (arrival t (some m.edge) q :: frames) as)
      (s.after frames (as ++ ways t tokens q)) := by
  refine (hvisits _ _ frames as (h.moved hstep)).trans (.turn ?_)
  show some (State.leave ..) = _
  rw [h.leave_moved hstep]

/-- What lies behind a cell without input. -/
def behind (t : Transducer) (tokens : List SymbolId) (p : Place Address) (pos : Nat) :
    List Analysis :=
  (t.graph.silentMove? t.limits.maxEpsilonDepth p (pos, t.arc pos)).toList.flatMap
    fun x => ways t tokens x.2

theorem flatMap_silentMoves (t : Transducer) (tokens : List SymbolId) (p : Place Address) :
    (t.graph.silentMoves t.limits.maxEpsilonDepth p).flatMap (fun x => ways t tokens x.2) =
      ((t.epsilonStart? p.state).toList.flatMap (t.row t.ReadsNothing)).flatMap
        (behind t tokens p) := by
  unfold silentMoves
  rw [List.filterMap_eq_flatMap_toList, List.flatMap_assoc]
  exact List.flatMap_map ..

theorem flatMap_readingMoves (t : Transducer) (tokens : List SymbolId) (p : Place Address)
    {symbol : SymbolId} (hsymbol : tokens[p.cursor]? = some symbol) :
    (t.graph.readingMoves tokens p).flatMap (fun x => ways t tokens x.2) =
      ((t.consumeStart? symbol p.state).toList.flatMap
        (t.row (t.transitions.input · = symbol))).flatMap fun pos =>
          ways t tokens (p.read (t.arc pos)) := by
  unfold readingMoves
  rw [hsymbol]
  show List.flatMap _ (List.map _ (List.map _ _)) = _
  rw [List.map_map, List.flatMap_map]
  rfl

theorem arrival_eq_at {edge : Option Edge} {start : Nat} (h : t.epsilonStart? p.state = some start) :
    arrival t edge p = (arrival t edge p).at (.epsilon start) := by
  unfold arrival enter Frame.at
  rw [h]

theorem arrival_eq_at_arrive {edge : Option Edge} (h : t.epsilonStart? p.state = none) :
    arrival t edge p = (arrival t edge p).at .arrive := by
  unfold arrival enter Frame.at
  rw [h]

theorem step_of_silentMove? {start : Nat} (hstart : t.epsilonStart? p.state = some start)
    (hmem : pos ∈ t.row t.ReadsNothing start)
    (hmove : t.graph.silentMove? t.limits.maxEpsilonDepth p (pos, t.arc pos) = some (m, q)) :
    t.graph.Step t.limits.maxEpsilonDepth tokens p m q :=
  step_iff_mem_moves.2 (.inl (List.mem_filterMap.2 ⟨_, List.mem_map.2 ⟨pos, List.mem_flatMap.2
    ⟨start, by simp [hstart], hmem⟩, rfl⟩, hmove⟩))

theorem step_of_reading {symbol : SymbolId} (hsymbol : tokens[p.cursor]? = some symbol)
    {start : Nat} (hstart : t.consumeStart? symbol p.state = some start)
    (hmem : pos ∈ t.row (t.transitions.input · = symbol) start) :
    t.graph.Step t.limits.maxEpsilonDepth tokens p ⟨.symbol, pos⟩ (p.read (t.arc pos)) :=
  .symbol hsymbol (List.mem_map.2 ⟨pos, List.mem_flatMap.2
    ⟨start, by simp [hstart], hmem⟩, rfl⟩)

section

variable (ht : t.WellFormed) (hvisits : ∀ m q,
  t.graph.Step t.limits.maxEpsilonDepth tokens p m q → Visits t tokens q)
include ht hvisits

theorem Stands.reaches_arrive {edge : Option Edge} (h : Stands t tokens s (arrival t edge p) p)
    (below : List Frame) (as : List Analysis) :
    Reaches t (s.after (arrival t edge p :: below) as)
      (s.after ((arrival t edge p).at .arrive :: below)
        (as ++ (t.graph.silentMoves t.limits.maxEpsilonDepth p).flatMap
          fun x => ways t tokens x.2)) := by
  rw [flatMap_silentMoves]
  cases hstart : t.epsilonStart? p.state with
  | none =>
    rw [← arrival_eq_at_arrive hstart]
    simpa using Reaches.refl t _
  | some start =>
    rw [Option.toList_some, List.flatMap_cons, List.flatMap_nil, List.append_nil]
    have hbegin : Reaches t (s.after (arrival t edge p :: below) as)
        (s.after ((arrival t edge p).at (.epsilon start) :: below) as) := by
      rw [← arrival_eq_at hstart]; exact .refl t _
    refine hbegin.trans (reaches_scan ht.silent_endsInside
      (fun pos => (arrival t edge p).at (.epsilon pos) :: below)
      (fun pos as hpos => .turn (turn_epsilon_end below as (of_decide_eq_false hpos)))
      (fun pos hmem hpos as => ?_) as)
    have hturn := h.turn_epsilon below as (of_decide_eq_true hpos)
    unfold behind
    cases hmove : t.graph.silentMove? t.limits.maxEpsilonDepth p (pos, t.arc pos) with
    | none =>
      rw [hmove] at hturn
      simpa using Reaches.turn hturn
    | some x =>
      obtain ⟨m, q⟩ := x
      rw [hmove] at hturn
      have hstep : t.graph.Step t.limits.maxEpsilonDepth tokens p m q :=
        step_of_silentMove? hstart hmem hmove
      refine (Reaches.turn hturn).trans ?_
      simpa using h.reaches_of_visits hstep (hvisits m q hstep)
        ((arrival t edge p).at (.epsilon (pos + 1)) :: below) as

omit ht in
/-- Where its state is arrived at, the search finds the ways on that are left. -/
theorem Stands.reaches_done (htokens : noSymbol ∉ tokens) (h : Stands t tokens s f p)
    (below : List Frame) (as : List Analysis) :
    Reaches t (s.after (f.at .arrive :: below) as) (s.after (f.at .done :: below)
      (as ++ ((t.graph.stop? tokens p).toList ++
        (t.graph.readingMoves tokens p).flatMap fun x => ways t tokens x.2))) := by
  cases hsymbol : tokens[p.cursor]? with
  | none =>
    have hreading : t.graph.readingMoves tokens p = [] := by unfold readingMoves; rw [hsymbol]
    rw [hreading, List.flatMap_nil, List.append_nil]
    exact .turn (h.turn_arrive_end below as hsymbol)
  | some symbol =>
    have hne : symbol ≠ noSymbol := fun heq => htokens (heq ▸ List.mem_of_getElem? hsymbol)
    have hstop : t.graph.stop? tokens p = none := by unfold stop?; rw [hsymbol]
    rw [hstop, Option.toList_none, List.nil_append, flatMap_readingMoves t tokens p hsymbol]
    have hturn := h.turn_arrive below as hsymbol hne
    cases hstart : t.consumeStart? symbol p.state with
    | none =>
      rw [hstart] at hturn
      simpa using Reaches.turn hturn
    | some start =>
      rw [hstart] at hturn
      rw [Option.toList_some, List.flatMap_cons, List.flatMap_nil, List.append_nil]
      refine (Reaches.turn hturn).trans (reaches_scan (Transducer.reading_endsInside hne)
        (fun pos => f.at (.consume pos) :: below)
        (fun pos as hpos => .turn (h.turn_consume_end below as hsymbol (of_decide_eq_false hpos) hne))
        (fun pos hmem hpos as => ?_) as)
      have hstep := step_of_reading hsymbol hstart hmem
      exact (Reaches.turn (h.turn_consume below as hsymbol (of_decide_eq_true hpos) hne)).trans
        (h.reaches_of_visits hstep (hvisits _ _ hstep) (f.at (.consume (pos + 1)) :: below) as)

end

/-- The search visits every place as the recursion of `Graph.explore` does. -/
theorem visits (ht : t.WellFormed) (htokens : noSymbol ∉ tokens) (p : Place Address) :
    Visits t tokens p := by
  induction p using explore_induction t.graph t.limits.maxEpsilonDepth tokens with
  | step p ih =>
    intro s edge below as h
    rw [ways_eq, ← List.append_assoc]
    exact (h.reaches_arrive ht ih below as).trans (h.reaches_done ih htokens below _)

/-! ## Whole lookups -/

/-- A lookup comes to its end with the analyses of all ways from the root. -/
theorem reaches_end (ht : t.WellFormed) (htokens : noSymbol ∉ tokens) :
    Reaches t (begin t tokens) ((begin t tokens).after [] (ways t tokens t.root)) := by
  have hstands : Stands t tokens (begin t tokens) (arrival t none t.root) t.root :=
    ⟨rfl, rfl, Nat.zero_le _, rfl, rfl, rfl, rfl⟩
  exact (visits ht htokens t.root _ none [] [] hstands).trans (.turn rfl)

/-- A run that leaves no frame has found the analyses of all ways from the root. -/
theorem found_run (ht : t.WellFormed) (htokens : noSymbol ∉ tokens) {turns : Nat}
    (hframes : (run t turns (begin t tokens)).frames = []) :
    (run t turns (begin t tokens)).found.reverse = ways t tokens t.root := by
  obtain ⟨n, hn⟩ := reaches_end ht htokens
  rw [run_eq_of_frames_eq_nil hframes (by rw [hn]; rfl), hn]
  simp [State.after, begin, State.start]

end TransducerLookup.Search
