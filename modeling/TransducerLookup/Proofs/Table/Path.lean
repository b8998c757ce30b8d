import TransducerLookup.Proofs.Graph.Exploration
import TransducerLookup.Proofs.Loading.WellFormed

/-!
# Paths through the tables

`Transducer.Step` is one move of a path over the raw cells of the two tables:
where the row of a state begins, and that every cell from there to the one
taken must fit. `Transducer.graph` has the same rows as lists, and `step_iff`
says that both have the same moves, for tables of any contents.
-/

namespace TransducerLookup.Transducer

/-- The cell is for epsilon or a flag. -/
def ReadsNothing (t : Transducer) (pos : Nat) : Prop :=
  t.transitions.input pos = epsilonId ∨ (t.operation? (t.transitions.input pos)).isSome

instance (t : Transducer) : DecidablePred t.ReadsNothing := fun pos => by
  unfold ReadsNothing; infer_instance

/-- Where the silent transitions of a state begin. -/
inductive SilentRow (t : Transducer) : Address → Nat → Prop where
  | transition (i : Nat) : SilentRow t (.transition i) (i + 1)
  | index (i : Nat) : t.index.input (i + 1) = epsilonId →
      SilentRow t (.index i) (Address.ofTarget (t.index.target (i + 1))).offset

/-- Where the transitions of a state on `s` begin. -/
inductive SymbolRow (t : Transducer) (s : SymbolId) : Address → Nat → Prop where
  | transition (i : Nat) : SymbolRow t s (.transition i) (i + 1)
  | index (i : Nat) : t.index.input (i + 1 + s.toNat) = s →
      SymbolRow t s (.index i) (Address.ofTarget (t.index.target (i + 1 + s.toNat))).offset

/-- The state is final with this weight. -/
inductive Final (t : Transducer) : Address → Weight → Prop where
  | transition {i : Nat} : t.transitions.input i = noSymbol → t.transitions.output i = noSymbol →
      t.transitions.target i = 1 → Final t (.transition i) (t.transitions.weight i)
  | weighted {i : Nat} : t.index.input i = noSymbol → t.index.target i ≠ noTarget →
      t.header.weighted = true → Final t (.index i) ⟨t.index.target i⟩
  | unweighted {i : Nat} : t.index.input i = noSymbol → t.index.target i ≠ noTarget →
      t.header.weighted = false → Final t (.index i) .zero

def arc (t : Transducer) (pos : Nat) : Arc Address where
  input := t.transitions.input pos
  output := t.transitions.output pos
  weight := t.transitions.weight pos
  target := .ofTarget (t.transitions.target pos)

def root (t : Transducer) : Place Address :=
  ⟨.index 0, .neutral t.alphabet.featureCount, 0, 0, []⟩

inductive Step (t : Transducer) (tokens : List SymbolId) :
    Place Address → Move → Place Address → Prop where
  | epsilon {p : Place Address} {start pos : Nat} : SilentRow t p.state start → start ≤ pos →
      (∀ i, start ≤ i → i ≤ pos → t.ReadsNothing i) → t.transitions.input pos = epsilonId →
      p.depth < t.limits.maxEpsilonDepth → Step t tokens p ⟨.epsilon, pos⟩ (p.pass (t.arc pos) p.row)
  | flag {p : Place Address} {start pos : Nat} {o : Flag.Operation} {row : Flag.Row} :
      SilentRow t p.state start → start ≤ pos → (∀ i, start ≤ i → i ≤ pos → t.ReadsNothing i) →
      t.operation? (t.transitions.input pos) = some o → p.row.after? o = some row →
      p.depth < t.limits.maxEpsilonDepth → Step t tokens p ⟨.flag, pos⟩ (p.pass (t.arc pos) row)
  | symbol {p : Place Address} {start pos : Nat} {s : SymbolId} : tokens[p.cursor]? = some s →
      SymbolRow t s p.state start → start ≤ pos →
      (∀ i, start ≤ i → i ≤ pos → t.transitions.input i = s) →
      Step t tokens p ⟨.symbol, pos⟩ (p.read (t.arc pos))

/-- These moves make a path through all tokens to a final state, with this analysis. -/
def Accepts (t : Transducer) (tokens : List SymbolId) (ms : List Move) (a : Analysis) : Prop :=
  ∃ q w, Path (t.Step tokens) t.root ms q ∧ q.cursor = tokens.length ∧ t.Final q.state w ∧
    a = .ofOutput t.alphabet t.header.weighted q.output w

/-! ## Rows as lists -/

/-- The cells from `start` up to the first that does not fit. -/
def row (t : Transducer) (fits : Nat → Bool) (start : Nat) : List Nat :=
  (List.range' start (t.transitions.size - start)).takeWhile fits

def graph (t : Transducer) : Graph Address where
  alphabet := t.alphabet
  weighted := t.header.weighted
  start := .index 0
  final? := t.finalWeight?
  silent a := ((t.epsilonStart? a).toList.flatMap (t.row t.ReadsNothing)).map
    fun pos => (pos, t.arc pos)
  reading a s := ((t.consumeStart? s a).toList.flatMap (t.row (t.transitions.input · = s))).map
    fun pos => (pos, t.arc pos)

section Row

variable {t : Transducer} {fits : Nat → Bool}

/-- No cell behind the table fits, so that the row ends inside it. -/
def EndsInside (t : Transducer) (fits : Nat → Bool) : Prop :=
  ∀ pos, t.transitions.size ≤ pos → fits pos = false

theorem row_of_fits (hend : t.EndsInside fits) {pos : Nat} (h : fits pos = true) :
    t.row fits pos = pos :: t.row fits (pos + 1) := by
  have hlt : pos < t.transitions.size := by
    rcases Nat.lt_or_ge pos t.transitions.size with hlt | hge
    · exact hlt
    · rw [hend pos hge] at h; cases h
  unfold row
  rw [show t.transitions.size - pos = t.transitions.size - (pos + 1) + 1 by omega,
    List.range'_succ, List.takeWhile_cons_of_pos h]

theorem row_of_not_fits {pos : Nat} (h : fits pos = false) : t.row fits pos = [] := by
  unfold row
  cases t.transitions.size - pos with
  | zero => rfl
  | succ n => rw [List.range'_succ, List.takeWhile_cons_of_neg (by simp [h])]

theorem mem_row_iff (hend : t.EndsInside fits) {start pos : Nat} :
    pos ∈ t.row fits start ↔ start ≤ pos ∧ ∀ i, start ≤ i → i ≤ pos → fits i = true := by
  induction hn : pos + 1 - start generalizing start with
  | zero =>
    constructor
    · intro h
      have := List.mem_range'_1.1 (List.takeWhile_subset _ h)
      omega
    · intro h; omega
  | succ n ih =>
    cases hfits : fits start with
    | false =>
      rw [row_of_not_fits hfits]
      refine ⟨fun h => absurd h List.not_mem_nil, fun ⟨hle, hall⟩ => ?_⟩
      rw [hall start (Nat.le_refl _) hle] at hfits
      cases hfits
    | true =>
      rw [row_of_fits hend hfits, List.mem_cons, ih (by omega)]
      constructor
      · rintro (rfl | ⟨hle, hall⟩)
        · exact ⟨Nat.le_refl _, fun i h1 h2 => by rwa [show i = pos by omega]⟩
        · refine ⟨by omega, fun i h1 h2 => ?_⟩
          rcases Nat.eq_or_lt_of_le h1 with rfl | h1
          · exact hfits
          · exact hall i h1 h2
      · rintro ⟨hle, hall⟩
        rcases Nat.eq_or_lt_of_le hle with rfl | hlt
        · exact .inl rfl
        · exact .inr ⟨hlt, fun i h1 h2 => hall i (by omega) h2⟩

theorem pairwise_row (start : Nat) : (t.row fits start).Pairwise (· < ·) :=
  List.Pairwise.sublist (List.takeWhile_sublist _) (List.pairwise_lt_range' 1 Nat.one_pos)

end Row

/-! ## The two sides have the same moves -/

theorem input_of_size_le {t : Transducer} {pos : Nat} (h : t.transitions.size ≤ pos) :
    t.transitions.input pos = noSymbol := by
  unfold TransitionTable.input TransitionTable.cell
  rw [Array.getElem?_eq_none h]; rfl

theorem epsilonStart?_eq_some_iff {t : Transducer} {a : Address} {start : Nat} :
    t.epsilonStart? a = some start ↔ t.SilentRow a start := by
  constructor
  · intro h
    cases a with
    | transition i => cases h; exact .transition i
    | index i =>
      rw [epsilonStart?] at h
      split at h
      · next hin => cases h; exact .index i hin
      · cases h
  · rintro (i | ⟨i, hin⟩)
    · rfl
    · exact if_pos hin

theorem consumeStart?_eq_some_iff {t : Transducer} {s : SymbolId} {a : Address} {start : Nat} :
    t.consumeStart? s a = some start ↔ t.SymbolRow s a start := by
  constructor
  · intro h
    cases a with
    | transition i => cases h; exact .transition i
    | index i =>
      rw [consumeStart?] at h
      split at h
      · next hin => cases h; exact .index i hin
      · cases h
  · rintro (i | ⟨i, hin⟩)
    · rfl
    · exact if_pos hin

theorem finalWeight?_eq_some_iff {t : Transducer} {a : Address} {w : Weight} :
    t.finalWeight? a = some w ↔ t.Final a w := by
  constructor
  · intro h
    cases a with
    | transition i =>
      rw [finalWeight?] at h
      split at h
      · next hfinal =>
        simp only [TransitionTable.isFinal, Bool.and_eq_true, decide_eq_true_eq] at hfinal
        cases h
        exact .transition hfinal.1.1 hfinal.1.2 hfinal.2
      · cases h
    | index i =>
      rw [finalWeight?] at h
      split at h
      · next hfinal =>
        simp only [IndexTable.isFinal, Bool.and_eq_true, decide_eq_true_eq] at hfinal
        cases hw : t.header.weighted with
        | true => rw [hw] at h; cases h; exact .weighted hfinal.1 hfinal.2 hw
        | false => rw [hw] at h; cases h; exact .unweighted hfinal.1 hfinal.2 hw
      · cases h
  · rintro (⟨h1, h2, h3⟩ | ⟨h1, h2, hw⟩ | ⟨h1, h2, hw⟩)
    · exact if_pos (by simp [TransitionTable.isFinal, TransitionTable.finalTarget, h1, h2, h3])
    · simp [finalWeight?, IndexTable.isFinal, IndexTable.finalWeight, h1, h2, hw]
    · simp [finalWeight?, IndexTable.isFinal, h1, h2, hw]

variable {t : Transducer} (ht : t.WellFormed)
include ht

theorem WellFormed.silent_endsInside : t.EndsInside t.ReadsNothing := fun pos h => by
  rw [decide_eq_false_iff_not, ReadsNothing, input_of_size_le h, ht.operation?_noSymbol]
  exact not_or.2 ⟨by decide, by simp⟩

omit ht in
theorem reading_endsInside {s : SymbolId} (hs : s ≠ noSymbol) :
    t.EndsInside (t.transitions.input · = s) := fun pos h => by
  rw [decide_eq_false_iff_not, input_of_size_le h]
  exact Ne.symm hs

theorem WellFormed.mem_silent_iff {a : Address} {pos : Nat} {x : Arc Address} :
    (pos, x) ∈ t.graph.silent a ↔ x = t.arc pos ∧ ∃ start, t.SilentRow a start ∧ start ≤ pos ∧
      ∀ i, start ≤ i → i ≤ pos → t.ReadsNothing i := by
  simp only [graph, List.mem_map, List.mem_flatMap, Option.mem_toList, Prod.mk.injEq,
    epsilonStart?_eq_some_iff, mem_row_iff ht.silent_endsInside, decide_eq_true_eq]
  constructor
  · rintro ⟨pos, h, rfl, rfl⟩; exact ⟨rfl, h⟩
  · rintro ⟨rfl, h⟩; exact ⟨pos, h, rfl, rfl⟩

omit ht in
theorem mem_reading_iff {s : SymbolId} (hs : s ≠ noSymbol) {a : Address} {pos : Nat}
    {x : Arc Address} :
    (pos, x) ∈ t.graph.reading a s ↔ x = t.arc pos ∧ ∃ start, t.SymbolRow s a start ∧ start ≤ pos ∧
      ∀ i, start ≤ i → i ≤ pos → t.transitions.input i = s := by
  simp only [graph, List.mem_map, List.mem_flatMap, Option.mem_toList, Prod.mk.injEq,
    consumeStart?_eq_some_iff, mem_row_iff (reading_endsInside hs), decide_eq_true_eq]
  constructor
  · rintro ⟨pos, h, rfl, rfl⟩; exact ⟨rfl, h⟩
  · rintro ⟨rfl, h⟩; exact ⟨pos, h, rfl, rfl⟩

omit ht in
theorem numbered_graph : t.graph.Numbered := by
  have hrow (fits : Nat → Bool) (start : Option Nat) :
      ((start.toList.flatMap (t.row fits)).map fun pos => (pos, t.arc pos)).Pairwise
        (·.1 < ·.1) := by
    refine List.pairwise_map.2 ?_
    cases start with
    | none => exact .nil
    | some start => simpa using pairwise_row start
  exact ⟨fun a => hrow _ _, fun a s => hrow _ _⟩

theorem WellFormed.step_iff {tokens : List SymbolId} (htokens : noSymbol ∉ tokens)
    {p q : Place Address} {m : Move} :
    t.Step tokens p m q ↔ t.graph.Step t.limits.maxEpsilonDepth tokens p m q := by
  have hne {s : SymbolId} (hs : tokens[p.cursor]? = some s) : s ≠ noSymbol := fun h =>
    htokens (h ▸ List.mem_of_getElem? hs)
  constructor
  · rintro (⟨hrow, hle, hall, hin, hd⟩ | ⟨hrow, hle, hall, ho, hr, hd⟩ | ⟨hs, hrow, hle, hall⟩)
    · exact .epsilon (ht.mem_silent_iff.2 ⟨rfl, _, hrow, hle, hall⟩) hin hd
    · refine .flag (ht.mem_silent_iff.2 ⟨rfl, _, hrow, hle, hall⟩) (fun hin => ?_) ho hr hd
      rw [show t.transitions.input _ = epsilonId from hin, ht.operation?_epsilonId] at ho
      cases ho
    · exact .symbol hs ((mem_reading_iff (hne hs)).2 ⟨rfl, _, hrow, hle, hall⟩)
  · rintro (⟨hmem, hin, hd⟩ | ⟨hmem, hin, ho, hr, hd⟩ | ⟨hs, hmem⟩)
    · obtain ⟨rfl, start, hrow, hle, hall⟩ := ht.mem_silent_iff.1 hmem
      exact .epsilon hrow hle hall hin hd
    · obtain ⟨rfl, start, hrow, hle, hall⟩ := ht.mem_silent_iff.1 hmem
      exact .flag hrow hle hall ho hr hd
    · obtain ⟨rfl, start, hrow, hle, hall⟩ := (mem_reading_iff (hne hs)).1 hmem
      exact .symbol hs hrow hle hall

/-- The paths over the cells are the paths of the graph. -/
theorem WellFormed.mem_explore_root_iff {tokens : List SymbolId} (htokens : noSymbol ∉ tokens)
    {ms : List Move} {a : Analysis} :
    (ms, a) ∈ t.graph.explore t.limits.maxEpsilonDepth tokens t.root ↔ t.Accepts tokens ms a := by
  rw [Graph.mem_explore_iff (Nat.zero_le _)]
  unfold Accepts
  simp only [path_congr fun p m q => ht.step_iff htokens (p := p) (m := m) (q := q),
    ← finalWeight?_eq_some_iff]
  rfl

end TransducerLookup.Transducer
