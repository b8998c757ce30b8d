import Mathlib.Data.List.Basic
import Mathlib.Data.List.Forall2
import TransducerLookup.Proofs.Graph.Basic

/-!
# Exploring a graph

`Graph.explore` lists the paths from a place by recursion on the place: all
ways through the silent moves, then the end of the path or all ways through
the moves on the next token. `mem_explore_iff` says that these are exactly the
accepting paths, `pairwise_explore` that they come in the order `Before`, and
`map_explore_congr` that two graphs whose places have matching moves list the
same analyses.
-/

namespace TransducerLookup.Graph

open Search (Edge)

variable {σ : Type} (g : Graph σ) (maxDepth : Nat) (tokens : List SymbolId)

/-! ## Moves -/

/-- What kind of silent move a transition with this input is, and the row after it; `none` if
its flag is refused. -/
def pass? (row : Flag.Row) (input : SymbolId) : Option (Edge × Flag.Row) :=
  if input = epsilonId then some (.epsilon, row)
  else (g.alphabet.operation? input).bind fun o => (row.after? o).map (.flag, ·)

def silentMove? (p : Place σ) (arc : Nat × Arc σ) : Option (Move × Place σ) :=
  if p.depth < maxDepth then
    (g.pass? p.row arc.2.input).map fun (edge, row) => (⟨edge, arc.1⟩, p.pass arc.2 row)
  else none

def silentMoves (p : Place σ) : List (Move × Place σ) :=
  (g.silent p.state).filterMap (g.silentMove? maxDepth p)

def readingMoves (p : Place σ) : List (Move × Place σ) :=
  match tokens[p.cursor]? with
  | none => []
  | some s => (g.reading p.state s).map fun (k, arc) => (⟨.symbol, k⟩, p.read arc)

def stop? (p : Place σ) : Option Analysis :=
  match tokens[p.cursor]? with
  | none => (g.final? p.state).map (.ofOutput g.alphabet g.weighted p.output)
  | some _ => none

variable {g maxDepth tokens}

theorem pass?_eq_some_iff {row row' : Flag.Row} {input : SymbolId} {edge : Edge} :
    g.pass? row input = some (edge, row') ↔
      (input = epsilonId ∧ edge = .epsilon ∧ row' = row) ∨
      (input ≠ epsilonId ∧ edge = .flag ∧
        ∃ o, g.alphabet.operation? input = some o ∧ row.after? o = some row') := by
  unfold pass?
  split
  · next h => simp [h]; grind
  · next h =>
    simp only [Option.bind_eq_some_iff, Option.map_eq_some_iff, Prod.mk.injEq]
    constructor
    · rintro ⟨o, ho, r, hr, rfl, rfl⟩
      exact .inr ⟨h, rfl, o, ho, hr⟩
    · rintro (⟨h', -⟩ | ⟨-, rfl, o, ho, hr⟩)
      · exact absurd h' h
      · exact ⟨o, ho, _, hr, rfl, rfl⟩

theorem silentMove?_eq_some_iff {p q : Place σ} {arc : Nat × Arc σ} {m : Move} :
    g.silentMove? maxDepth p arc = some (m, q) ↔
      p.depth < maxDepth ∧ ∃ row, g.pass? p.row arc.2.input = some (m.edge, row) ∧
        m.number = arc.1 ∧ q = p.pass arc.2 row := by
  unfold silentMove?
  split
  · next h =>
    simp only [Option.map_eq_some_iff, Prod.mk.injEq, Prod.exists, h, true_and]
    constructor
    · rintro ⟨edge, row, he, rfl, rfl⟩
      exact ⟨row, he, rfl, rfl⟩
    · rintro ⟨row, he, hn, rfl⟩
      exact ⟨m.edge, row, he, by rw [← hn], rfl⟩
  · next h => simp [h]

theorem mem_silentMoves_iff {p q : Place σ} {m : Move} :
    (m, q) ∈ g.silentMoves maxDepth p ↔ p.depth < maxDepth ∧ ∃ arc row,
      (m.number, arc) ∈ g.silent p.state ∧ g.pass? p.row arc.input = some (m.edge, row) ∧
        q = p.pass arc row := by
  simp only [silentMoves, List.mem_filterMap, silentMove?_eq_some_iff, Prod.exists]
  constructor
  · rintro ⟨k, arc, hmem, hd, row, he, rfl, rfl⟩
    exact ⟨hd, arc, row, hmem, he, rfl⟩
  · rintro ⟨hd, arc, row, hmem, he, rfl⟩
    exact ⟨m.number, arc, hmem, hd, row, he, rfl, rfl⟩

theorem mem_readingMoves_iff {p q : Place σ} {m : Move} :
    (m, q) ∈ g.readingMoves tokens p ↔ m.edge = .symbol ∧ ∃ s arc,
      tokens[p.cursor]? = some s ∧ (m.number, arc) ∈ g.reading p.state s ∧ q = p.read arc := by
  unfold readingMoves
  cases tokens[p.cursor]? with
  | none => simp
  | some s =>
    simp only [List.mem_map, Prod.exists, Prod.mk.injEq, Option.some.injEq]
    constructor
    · rintro ⟨k, arc, hmem, rfl, rfl⟩
      exact ⟨rfl, s, arc, rfl, hmem, rfl⟩
    · rintro ⟨he, s', arc, rfl, hmem, rfl⟩
      exact ⟨m.number, arc, hmem, by rw [← he], rfl⟩

theorem step_iff_mem_moves {p q : Place σ} {m : Move} :
    g.Step maxDepth tokens p m q ↔
      (m, q) ∈ g.silentMoves maxDepth p ∨ (m, q) ∈ g.readingMoves tokens p := by
  rw [mem_silentMoves_iff, mem_readingMoves_iff]
  constructor
  · rintro (⟨hmem, hin, hd⟩ | ⟨hmem, hin, ho, hr, hd⟩ | ⟨hs, hmem⟩)
    · exact .inl ⟨hd, _, _, hmem, pass?_eq_some_iff.2 (.inl ⟨hin, rfl, rfl⟩), rfl⟩
    · exact .inl ⟨hd, _, _, hmem, pass?_eq_some_iff.2 (.inr ⟨hin, rfl, _, ho, hr⟩), rfl⟩
    · exact .inr ⟨rfl, _, _, hs, hmem, rfl⟩
  · obtain ⟨edge, k⟩ := m
    rintro (⟨hd, arc, row, hmem, he, rfl⟩ | ⟨he, s, arc, hs, hmem, rfl⟩)
    · rcases pass?_eq_some_iff.1 he with ⟨hin, hedge, rfl⟩ | ⟨hin, hedge, o, ho, hr⟩
      · cases hedge; exact .epsilon hmem hin hd
      · cases hedge; exact .flag hmem hin ho hr hd
    · cases he; exact .symbol hs hmem

theorem edge_of_mem_silentMoves {p q : Place σ} {m : Move}
    (h : (m, q) ∈ g.silentMoves maxDepth p) : m.edge ≠ .symbol := by
  obtain ⟨-, arc, row, -, he, -⟩ := mem_silentMoves_iff.1 h
  rcases pass?_eq_some_iff.1 he with ⟨-, h, -⟩ | ⟨-, h, -⟩ <;> simp [h]

theorem step_cursor_le {p q : Place σ} {m : Move} (h : g.Step maxDepth tokens p m q)
    (hp : p.cursor ≤ tokens.length) : q.cursor ≤ tokens.length := by
  cases h with
  | epsilon => exact hp
  | flag => exact hp
  | symbol hs _ => exact (List.getElem?_eq_some_iff.1 hs).1

theorem stop?_eq_some_iff {p : Place σ} (hp : p.cursor ≤ tokens.length) {a : Analysis} :
    g.stop? tokens p = some a ↔ ∃ w, p.cursor = tokens.length ∧ g.final? p.state = some w ∧
      a = .ofOutput g.alphabet g.weighted p.output w := by
  unfold stop?
  split
  · next h =>
    have hle := List.getElem?_eq_none_iff.1 h
    simp only [Option.map_eq_some_iff, show p.cursor = tokens.length by omega, true_and]
    exact exists_congr fun w => and_congr_right fun _ => eq_comm
  · next h =>
    have hlt := (List.getElem?_eq_some_iff.1 h).1
    simp [show p.cursor ≠ tokens.length by omega]

/-! ## All ways on from a place -/

variable (g maxDepth tokens)

/-- The accepting ways on from a place, with the analyses of the whole paths. -/
def explore (p : Place σ) : List (List Move × Analysis) :=
  ((g.silentMoves maxDepth p).attach.flatMap fun ⟨(m, q), _⟩ =>
      (explore q).map fun (ms, a) => (m :: ms, a))
    ++ (g.stop? tokens p).toList.map ([], ·)
    ++ (g.readingMoves tokens p).attach.flatMap fun ⟨(m, q), _⟩ =>
      (explore q).map fun (ms, a) => (m :: ms, a)
  termination_by (tokens.length - p.cursor, maxDepth - p.depth)
  decreasing_by
    · next h =>
      obtain ⟨hd, arc, row, -, -, rfl⟩ := mem_silentMoves_iff.1 h
      exact .right _ (by simp only [Place.pass]; omega)
    · next h =>
      obtain ⟨-, s, arc, hs, -, rfl⟩ := mem_readingMoves_iff.1 h
      have := (List.getElem?_eq_some_iff.1 hs).1
      exact .left _ _ (by simp only [Place.read]; omega)

/-- The ways on that begin with one of these moves. -/
def through (moves : List (Move × Place σ)) : List (List Move × Analysis) :=
  moves.flatMap fun (m, q) => (g.explore maxDepth tokens q).map fun (ms, a) => (m :: ms, a)

theorem explore_eq (p : Place σ) :
    g.explore maxDepth tokens p = g.through maxDepth tokens (g.silentMoves maxDepth p)
      ++ (g.stop? tokens p).toList.map ([], ·)
      ++ g.through maxDepth tokens (g.readingMoves tokens p) := by
  rw [explore, through, through]
  simp only [List.flatMap_subtype, List.unattach_attach]

/-- Induction along the recursion of `explore`. -/
theorem explore_induction {motive : Place σ → Prop}
    (step : ∀ p, (∀ m q, g.Step maxDepth tokens p m q → motive q) → motive p) (p : Place σ) :
    motive p := by
  induction p using explore.induct g maxDepth tokens with
  | case1 p ihSilent ihReading =>
    refine step p fun m q h => ?_
    rcases step_iff_mem_moves.1 h with h | h
    · exact ihSilent m q h
    · exact ihReading m q h

variable {g maxDepth tokens}

theorem mem_through_iff {moves : List (Move × Place σ)} {ms : List Move} {a : Analysis} :
    (ms, a) ∈ g.through maxDepth tokens moves ↔ ∃ m q rest,
      (m, q) ∈ moves ∧ ms = m :: rest ∧ (rest, a) ∈ g.explore maxDepth tokens q := by
  simp only [through, List.mem_flatMap, List.mem_map, Prod.exists, Prod.mk.injEq]
  constructor
  · rintro ⟨m, q, hmem, rest, a, ha, rfl, rfl⟩
    exact ⟨m, q, rest, hmem, rfl, ha⟩
  · rintro ⟨m, q, rest, hmem, rfl, ha⟩
    exact ⟨m, q, hmem, rest, a, ha, rfl, rfl⟩

theorem mem_explore_iff {p : Place σ} (hp : p.cursor ≤ tokens.length) {ms : List Move}
    {a : Analysis} :
    (ms, a) ∈ g.explore maxDepth tokens p ↔ ∃ q w, Path (g.Step maxDepth tokens) p ms q ∧
      q.cursor = tokens.length ∧ g.final? q.state = some w ∧
      a = .ofOutput g.alphabet g.weighted q.output w := by
  induction p using explore_induction g maxDepth tokens generalizing ms with
  | step p ih =>
    rw [explore_eq, List.mem_append, List.mem_append, mem_through_iff, mem_through_iff]
    cases ms with
    | nil =>
      simp only [List.mem_map, Option.mem_toList, Prod.mk.injEq, true_and, path_nil_iff,
        stop?_eq_some_iff hp]
      grind
    | cons m rest =>
      -- A longer path goes on with a move that the recursion follows.
      have hrest : ∀ q, g.Step maxDepth tokens p m q → ((rest, a) ∈ g.explore maxDepth tokens q ↔
          _) := fun q hq => ih m q hq (step_cursor_le hq hp)
      simp only [path_cons_iff, step_iff_mem_moves] at hrest ⊢
      grind

/-! ## The order -/

theorem pairwise_through {moves : List (Move × Place σ)}
    (hmoves : moves.Pairwise fun x y => x.1.Earlier y.1)
    (hrest : ∀ m q, (m, q) ∈ moves →
      (g.explore maxDepth tokens q).Pairwise fun x y => Before x.1 y.1) :
    (g.through maxDepth tokens moves).Pairwise fun x y => Before x.1 y.1 := by
  refine List.pairwise_flatMap.2 ⟨?_, ?_⟩
  · rintro ⟨m, q⟩ hmem
    exact List.pairwise_map.2 ((hrest m q hmem).imp fun h => .together m h)
  · refine hmoves.imp fun {x y} hxy => ?_
    simp only [List.mem_map]
    rintro _ ⟨⟨ms, a⟩, -, rfl⟩ _ ⟨⟨ns, b⟩, -, rfl⟩
    exact .part ms ns hxy

theorem earlier_silentMoves (hg : g.Numbered) (p : Place σ) :
    (g.silentMoves maxDepth p).Pairwise fun x y => x.1.Earlier y.1 := by
  refine List.pairwise_filterMap.2 ((hg.silent p.state).imp fun {x y} hxy => ?_)
  rintro ⟨m, q⟩ hm ⟨n, r⟩ hn
  obtain ⟨-, _, hem, hkm, -⟩ := silentMove?_eq_some_iff.1 hm
  obtain ⟨-, _, hen, hkn, -⟩ := silentMove?_eq_some_iff.1 hn
  have hm' : m.edge ≠ .symbol := by grind [pass?_eq_some_iff]
  have hn' : n.edge ≠ .symbol := by grind [pass?_eq_some_iff]
  exact .inr ⟨by simp [hm', hn'], by rw [hkm, hkn]; exact hxy⟩

theorem earlier_readingMoves (hg : g.Numbered) (p : Place σ) :
    (g.readingMoves tokens p).Pairwise fun x y => x.1.Earlier y.1 := by
  unfold readingMoves
  split
  · exact .nil
  · exact List.pairwise_map.2 ((hg.reading _ _).imp fun h => .inr ⟨Iff.rfl, h⟩)

/-- The ways on come in the order of a depth first search. -/
theorem pairwise_explore (hg : g.Numbered) (p : Place σ) :
    (g.explore maxDepth tokens p).Pairwise fun x y => Before x.1 y.1 := by
  induction p using explore_induction g maxDepth tokens with
  | step p ih =>
    rw [explore_eq, List.append_assoc]
    refine List.pairwise_append.2 ⟨pairwise_through (earlier_silentMoves hg p)
      fun m q h => ih m q (step_iff_mem_moves.2 (.inl h)), List.pairwise_append.2 ⟨?_,
        pairwise_through (earlier_readingMoves hg p)
          fun m q h => ih m q (step_iff_mem_moves.2 (.inr h)), ?_⟩, ?_⟩
    · cases g.stop? tokens p <;> simp
    · rintro ⟨_, a⟩ h ⟨ns, b⟩ hn
      obtain ⟨n, q, rest, hmem, rfl, -⟩ := mem_through_iff.1 hn
      obtain ⟨_, -, h⟩ := List.mem_map.1 h
      cases h
      exact .endEarlier _ (mem_readingMoves_iff.1 hmem).1
    · rintro ⟨ms, a⟩ hm ⟨ns, b⟩ hn
      obtain ⟨m, q, rest, hmem, rfl, -⟩ := mem_through_iff.1 hm
      have hm := edge_of_mem_silentMoves hmem
      rcases List.mem_append.1 hn with hn | hn
      · obtain ⟨_, -, h⟩ := List.mem_map.1 hn
        cases h
        exact .endLater _ hm
      · obtain ⟨n, r, rest', hmem', rfl, -⟩ := mem_through_iff.1 hn
        exact .part _ _ (.inl ⟨hm, (mem_readingMoves_iff.1 hmem').1⟩)

/-! ## Graphs with the same moves -/

variable {τ : Type} {h : Graph τ}

theorem map_through_congr {moves : List (Move × Place σ)} {moves' : List (Move × Place τ)}
    (hmoves : List.Forall₂ (fun x y => (g.explore maxDepth tokens x.2).map (·.2) =
      (h.explore maxDepth tokens y.2).map (·.2)) moves moves') :
    (g.through maxDepth tokens moves).map (·.2) = (h.through maxDepth tokens moves').map (·.2) := by
  induction hmoves with
  | nil => rfl
  | @cons x y xs ys hxy _ ih =>
    unfold through at ih ⊢
    rw [List.flatMap_cons, List.flatMap_cons, List.map_append, List.map_append, ih, List.map_map,
      List.map_map]
    exact congrArg (· ++ _) hxy

/-- Graphs whose matching places stop alike and have matching moves list the same analyses. -/
theorem map_explore_congr {R : Place σ → Place τ → Prop}
    (hstop : ∀ p q, R p q → g.stop? tokens p = h.stop? tokens q)
    (hsilent : ∀ p q, R p q → List.Forall₂ (fun x y => R x.2 y.2) (g.silentMoves maxDepth p)
      (h.silentMoves maxDepth q))
    (hreading : ∀ p q, R p q → List.Forall₂ (fun x y => R x.2 y.2) (g.readingMoves tokens p)
      (h.readingMoves tokens q))
    {p : Place σ} {q : Place τ} (hpq : R p q) :
    (g.explore maxDepth tokens p).map (·.2) = (h.explore maxDepth tokens q).map (·.2) := by
  induction p using explore_induction g maxDepth tokens generalizing q with
  | step p ih =>
    have hrest {moves : List (Move × Place σ)} {moves' : List (Move × Place τ)}
        (hstep : ∀ x ∈ moves, g.Step maxDepth tokens p x.1 x.2)
        (hR : List.Forall₂ (fun x y => R x.2 y.2) moves moves') :=
      map_through_congr (((List.forall₂_and_left moves moves').2
        ⟨fun x hx q' (hq' : R x.2 q') => ih x.1 x.2 (hstep x hx) hq', hR⟩).imp
          fun x y hxy => hxy.1 y.2 hxy.2)
    rw [explore_eq, explore_eq, List.map_append, List.map_append, List.map_append,
      List.map_append, hstop p q hpq,
      hrest (fun x hx => step_iff_mem_moves.2 (.inl hx)) (hsilent p q hpq),
      hrest (fun x hx => step_iff_mem_moves.2 (.inr hx)) (hreading p q hpq)]

end TransducerLookup.Graph
