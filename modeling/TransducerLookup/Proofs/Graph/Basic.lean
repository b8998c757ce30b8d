import Mathlib.Data.List.Nodup
import TransducerLookup.Analysis
import TransducerLookup.Alphabet
import TransducerLookup.Flag.Stack
import TransducerLookup.Search.State

/-!
# Transducers as graphs

A graph gives each state its transitions without input, in order, and its
transitions on each symbol, in order. `Graph.Step` is one move along a path:
silent moves respect the flags met so far and a limit on how many may follow
each other, and moves on a symbol read the next token. `Graph.Accepts` says
what the paths through all tokens to a final state analyse to, and `Before` is
the order in which a depth first search comes to the ends of paths.
-/

namespace TransducerLookup

open Search (Edge)

/-- One move of a path: its kind, and its number among the transitions of the state. -/
structure Move where
  edge : Edge
  number : Nat
  deriving DecidableEq, Repr

/-! ## The order of paths -/

/-- Tried earlier at the same state: silent moves come first, lower numbers come first. -/
def Move.Earlier (m n : Move) : Prop :=
  m.edge ≠ .symbol ∧ n.edge = .symbol ∨
    (m.edge = .symbol ↔ n.edge = .symbol) ∧ m.number < n.number

/-- The first path ends earlier in a depth first search than the second. A path that ends where
the other goes on is later than a silent way on and earlier than a way on with input. -/
inductive Before : List Move → List Move → Prop where
  | endLater {m : Move} (ms : List Move) : m.edge ≠ .symbol → Before (m :: ms) []
  | endEarlier {m : Move} (ms : List Move) : m.edge = .symbol → Before [] (m :: ms)
  | part {m n : Move} (ms ns : List Move) : m.Earlier n → Before (m :: ms) (n :: ns)
  | together {ms ns : List Move} (m : Move) : Before ms ns → Before (m :: ms) (m :: ns)

theorem Move.Earlier.ne {m n : Move} (h : m.Earlier n) : m ≠ n := by
  rintro rfl
  rcases h with ⟨h1, h2⟩ | ⟨-, h⟩
  · exact h1 h2
  · exact Nat.lt_irrefl _ h

theorem Before.irrefl (ms : List Move) : ¬ Before ms ms := by
  induction ms with
  | nil => intro h; cases h
  | cons m ms ih =>
    intro h
    cases h with
    | part _ _ h => exact h.ne rfl
    | together _ h => exact ih h

theorem Move.Earlier.asymm {m n : Move} (h : m.Earlier n) : ¬ n.Earlier m := by
  rintro (⟨hn, hm⟩ | ⟨hedge, hlt⟩)
  · rcases h with ⟨hm', -⟩ | ⟨hedge, -⟩
    · exact hm' hm
    · exact hn (hedge.1 hm)
  · rcases h with ⟨hm', hn'⟩ | ⟨-, hlt'⟩
    · exact hm' (hedge.1 hn')
    · omega

theorem Before.asymm {ms ns : List Move} (h : Before ms ns) : ¬ Before ns ms := by
  induction h with
  | endLater ms hm => intro h'; cases h' with | endEarlier _ hm' => exact hm hm'
  | endEarlier ms hm => intro h'; cases h' with | endLater _ hm' => exact hm' hm
  | part ms ns hmn =>
    intro h'
    cases h' with
    | part _ _ hnm => exact hmn.asymm hnm
    | together _ _ => exact hmn.ne rfl
  | together m _ ih =>
    intro h'
    cases h' with
    | part _ _ hm => exact hm.ne rfl
    | together _ h' => exact ih h'

/-- The paths of which `accepts` tells the analyses, in order. -/
structure Enumerates (accepts : List Move → Analysis → Prop)
    (paths : List (List Move × Analysis)) : Prop where
  mem_iff : ∀ ms a, (ms, a) ∈ paths ↔ accepts ms a
  pairwise : paths.Pairwise fun x y => Before x.1 y.1

theorem Enumerates.nodup {accepts : List Move → Analysis → Prop}
    {paths : List (List Move × Analysis)} (h : Enumerates accepts paths) :
    (paths.map (·.1)).Nodup := by
  refine List.pairwise_map.2 (h.pairwise.imp fun {x y} hxy heq => ?_)
  rw [heq] at hxy
  exact Before.irrefl _ hxy

theorem Enumerates.unique {accepts : List Move → Analysis → Prop}
    {paths paths' : List (List Move × Analysis)} (h : Enumerates accepts paths)
    (h' : Enumerates accepts paths') : paths = paths' := by
  have hperm : paths.Perm paths' :=
    (List.perm_ext_iff_of_nodup (List.Nodup.of_map _ h.nodup)
      (List.Nodup.of_map _ h'.nodup)).2 fun (ms, a) =>
      (h.mem_iff ms a).trans (h'.mem_iff ms a).symm
  exact hperm.eq_of_pairwise (fun x y _ _ hxy hyx => absurd hyx hxy.asymm) h.pairwise h'.pairwise

/-! ## Paths -/

/-- The moves that lead from one place to another. -/
inductive Path {π : Type} (step : π → Move → π → Prop) : π → List Move → π → Prop where
  | nil (p : π) : Path step p [] p
  | cons {p q r : π} {m : Move} {ms : List Move} :
      step p m q → Path step q ms r → Path step p (m :: ms) r

theorem path_nil_iff {π : Type} {step : π → Move → π → Prop} {p q : π} :
    Path step p [] q ↔ q = p :=
  ⟨fun h => by cases h; rfl, fun h => h ▸ .nil q⟩

theorem path_cons_iff {π : Type} {step : π → Move → π → Prop} {p r : π} {m : Move}
    {ms : List Move} : Path step p (m :: ms) r ↔ ∃ q, step p m q ∧ Path step q ms r :=
  ⟨fun h => by cases h with | cons h1 h2 => exact ⟨_, h1, h2⟩, fun ⟨_, h1, h2⟩ => .cons h1 h2⟩

theorem path_congr {π : Type} {step step' : π → Move → π → Prop}
    (h : ∀ p m q, step p m q ↔ step' p m q) {p q : π} {ms : List Move} :
    Path step p ms q ↔ Path step' p ms q := by
  induction ms generalizing p with
  | nil => simp only [path_nil_iff]
  | cons m ms ih => simp only [path_cons_iff, h, ih]

/-- Where a path stands: its state, and what the moves up to there amount to. -/
structure Place (σ : Type) where
  state : σ
  row : Flag.Row
  /-- How many tokens have been read. -/
  cursor : Nat
  /-- How many silent moves were made since the last token was read. -/
  depth : Nat
  /-- Output symbols and weights, last first. -/
  output : List (SymbolId × Weight)
  deriving DecidableEq, Repr

/-- The analysis of a path with this output, which ends with this weight. -/
def Analysis.ofOutput (alphabet : Alphabet) (weighted : Bool) (output : List (SymbolId × Weight))
    (final : Weight) : Analysis where
  symbols := (output.reverse.filterMap fun (id, _) => alphabet.text? id).filter (· ≠ "")
  weight := if weighted then Weight.sum (output.reverse.map (·.2)) + final else .one

/-- Weights that are not counted do not show. -/
theorem Analysis.ofOutput_congr {alphabet : Alphabet} {weighted : Bool}
    {o o' : List (SymbolId × Weight)} {w w' : Weight} (hid : o.map (·.1) = o'.map (·.1))
    (hw : weighted = true → o = o' ∧ w = w') :
    ofOutput alphabet weighted o w = ofOutput alphabet weighted o' w' := by
  have htext (l : List (SymbolId × Weight)) :
      (l.reverse.filterMap fun (id, _) => alphabet.text? id) =
        (l.map (·.1)).reverse.filterMap alphabet.text? := by
    rw [← List.map_reverse, List.filterMap_map]; rfl
  unfold ofOutput
  rw [htext, htext, hid]
  cases weighted with
  | false => simp only [Bool.false_eq_true, if_false]
  | true => rw [(hw rfl).1, (hw rfl).2]

/-! ## Graphs -/

/-- A transition: what it reads and writes, what it costs, and where it leads. -/
structure Arc (σ : Type) where
  input : SymbolId
  output : SymbolId
  weight : Weight
  target : σ

structure Graph (σ : Type) where
  alphabet : Alphabet
  weighted : Bool
  start : σ
  final? : σ → Option Weight
  /-- The transitions without input, with their numbers. -/
  silent : σ → List (Nat × Arc σ)
  /-- The transitions on a symbol, with their numbers. -/
  reading : σ → SymbolId → List (Nat × Arc σ)

namespace Place

variable {σ : Type}

def pass (p : Place σ) (arc : Arc σ) (row : Flag.Row) : Place σ :=
  ⟨arc.target, row, p.cursor, p.depth + 1, (arc.output, arc.weight) :: p.output⟩

/-- The place after a transition on a symbol. -/
def read (p : Place σ) (arc : Arc σ) : Place σ :=
  ⟨arc.target, p.row, p.cursor + 1, 0, (arc.output, arc.weight) :: p.output⟩

end Place

namespace Graph

variable {σ : Type} (g : Graph σ) (maxDepth : Nat) (tokens : List SymbolId)

def root : Place σ := ⟨g.start, .neutral g.alphabet.featureCount, 0, 0, []⟩

/-- One move of a path over the tokens, with at most `maxDepth` silent moves in a row. -/
inductive Step : Place σ → Move → Place σ → Prop where
  | epsilon {p : Place σ} {k : Nat} {arc : Arc σ} : (k, arc) ∈ g.silent p.state →
      arc.input = epsilonId → p.depth < maxDepth → Step p ⟨.epsilon, k⟩ (p.pass arc p.row)
  | flag {p : Place σ} {k : Nat} {arc : Arc σ} {o : Flag.Operation} {row : Flag.Row} :
      (k, arc) ∈ g.silent p.state → arc.input ≠ epsilonId →
      g.alphabet.operation? arc.input = some o → p.row.after? o = some row →
      p.depth < maxDepth → Step p ⟨.flag, k⟩ (p.pass arc row)
  | symbol {p : Place σ} {k : Nat} {arc : Arc σ} {s : SymbolId} : tokens[p.cursor]? = some s →
      (k, arc) ∈ g.reading p.state s → Step p ⟨.symbol, k⟩ (p.read arc)

/-- These moves make a path through all tokens to a final state, with this analysis. -/
def Accepts (ms : List Move) (a : Analysis) : Prop :=
  ∃ q w, Path (g.Step maxDepth tokens) g.root ms q ∧ q.cursor = tokens.length ∧
    g.final? q.state = some w ∧ a = .ofOutput g.alphabet g.weighted q.output w

/-- Numbers go up in the order of the transitions. -/
structure Numbered : Prop where
  silent : ∀ q, (g.silent q).Pairwise (·.1 < ·.1)
  reading : ∀ q s, (g.reading q s).Pairwise (·.1 < ·.1)

end Graph

end TransducerLookup
