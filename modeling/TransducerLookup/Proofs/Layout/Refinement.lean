import Mathlib.Data.List.TakeWhile
import TransducerLookup.Proofs.Layout.Basic
import TransducerLookup.Proofs.Search.PathEnumeration

/-!
# Tables refine their machine

Under a layout the rows of a state in the tables are its transitions, whichever
encoding it has. So the graph of the tables has matching moves at matching
places, and lookups return what the machine's own paths analyse to.
-/

namespace TransducerLookup.Machine

open Search (run begin)

variable {t : Transducer} {σ : Type} {address : σ → Address} {arcs : List (Arc σ)}

/-! ## Rows -/

/-- The same transition on both sides. Weights are compared if they count. -/
structure Matches (t : Transducer) (address : σ → Address) (x : Arc σ) (y : Arc Address) :
    Prop where
  input : x.input = y.input
  output : x.output = y.output
  weight : t.header.weighted = true → x.weight = y.weight
  target : address x.target = y.target

theorem Holds.matches {pos : Nat} {x : Arc σ} (h : Holds t address pos x) :
    Matches t address x (t.arc pos) :=
  ⟨h.input.symm, h.output.symm, fun hw => (h.weight hw).symm, h.target.symm⟩

/-- Scanning stored transitions finds them up to the first that does not fit. -/
theorem forall₂_row (fits : SymbolId → Bool)
    (hend : t.EndsInside fun pos => fits (t.transitions.input pos)) {start : Nat}
    (hstored : Stored t address start arcs)
    (hstop : fits (t.transitions.input (start + arcs.length)) = false) :
    List.Forall₂ (Matches t address) (arcs.takeWhile fun x => fits x.input)
      ((t.row (fun pos => fits (t.transitions.input pos)) start).map t.arc) := by
  induction arcs generalizing start with
  | nil =>
    rw [Transducer.row_of_not_fits (by simpa using hstop)]
    exact .nil
  | cons x arcs ih =>
    have hinput := hstored.1.input
    cases hx : fits x.input with
    | false =>
      rw [List.takeWhile_cons_of_neg (p := fun y : Arc σ => fits y.input) (by simp [hx]),
        Transducer.row_of_not_fits (by rw [hinput]; exact hx)]
      exact .nil
    | true =>
      rw [List.takeWhile_cons_of_pos (p := fun y : Arc σ => fits y.input) hx,
        Transducer.row_of_fits hend (by rw [hinput]; exact hx), List.map_cons]
      refine .cons hstored.1.matches (ih hstored.2 ?_)
      rw [show start + 1 + arcs.length = start + (arcs.length + 1) by omega]
      exact hstop

theorem Indexed.forall₂ {cell : Nat} {symbol : SymbolId} (fits : SymbolId → Bool)
    (h : Indexed t address cell symbol (fits · = true) arcs)
    (hend : t.EndsInside fun pos => fits (t.transitions.input pos))
    (hfits : ∀ x ∈ arcs, fits x.input = true) :
    List.Forall₂ (Matches t address) arcs
      (((if t.index.input cell = symbol then
          some (Address.ofTarget (t.index.target cell)).offset else none).toList.flatMap
        (t.row fun pos => fits (t.transitions.input pos))).map t.arc) := by
  rcases h with ⟨hcell, rfl⟩ | ⟨hcell, hstored, hstop⟩
  · rw [if_neg hcell]
    exact .nil
  · rw [if_pos hcell, Option.toList_some, List.flatMap_cons, List.flatMap_nil, List.append_nil]
    have hrow := forall₂_row fits hend hstored (by simpa using hstop)
    rwa [List.takeWhile_eq_self_iff.2 hfits] at hrow

/-- Whether a cell with this input belongs to a row of silent transitions. -/
def isSilent (t : Transducer) (input : SymbolId) : Bool :=
  input = epsilonId ∨ (t.operation? input).isSome

theorem isSilent_eq_true_iff {input : SymbolId} :
    isSilent t input = true ↔ input = epsilonId ∨ (t.operation? input).isSome := by
  simp [isSilent]

theorem readsNothing_eq (t : Transducer) : (fun pos => decide (t.ReadsNothing pos)) =
    fun pos => isSilent t (t.transitions.input pos) :=
  funext fun _ => decide_eq_decide.2 Iff.rfl

theorem isSilent_of_tokenizable (ht : t.WellFormed) {s : SymbolId} (hs : t.Tokenizable s) :
    isSilent t s = false := by
  obtain ⟨text, tokens, htokens, hmem⟩ := hs
  rw [isSilent, decide_eq_false_iff_not, Transducer.operation?_of_mem_tokenize htokens hmem]
  rintro (rfl | h)
  · exact ht.ne_epsilonId_of_mem_tokenize htokens hmem
  · cases h

theorem ne_noSymbol_of_tokenizable {s : SymbolId} (hs : t.Tokenizable s) : s ≠ noSymbol := by
  obtain ⟨text, tokens, htokens, hmem⟩ := hs
  rintro rfl
  exact Transducer.noSymbol_notMem_tokenize htokens hmem

/-! ## Transitions -/

theorem map_numbered (arcs : List (Arc σ)) : (numbered arcs).map (·.2) = arcs := by
  unfold numbered
  rw [List.map_map]
  exact List.zipIdx_map_fst 0 arcs

theorem forall₂_numbered {xs : List (Nat × Arc σ)} {cells : List Nat}
    (h : List.Forall₂ (Matches t address) (xs.map (·.2)) (cells.map t.arc)) :
    List.Forall₂ (fun x y => Matches t address x.2 y.2) xs
      (cells.map fun pos => (pos, t.arc pos)) := by
  rw [List.forall₂_map_left_iff, List.forall₂_map_right_iff] at h
  rw [List.forall₂_map_right_iff]
  exact h

/-- Transitions that all read one symbol are taken together or not at all. -/
theorem takeWhile_eq_filter {s : SymbolId} (h : ∀ x ∈ arcs, ∀ y ∈ arcs, x.input = y.input) :
    (arcs.takeWhile fun x => decide (x.input = s)) = arcs.filter fun x => decide (x.input = s) := by
  cases arcs with
  | nil => rfl
  | cons x xs =>
    by_cases hx : x.input = s
    · have hall : ∀ y ∈ x :: xs, decide (y.input = s) = true := fun y hy =>
        decide_eq_true ((h y hy x List.mem_cons_self).trans hx)
      rw [List.takeWhile_eq_self_iff.2 hall, List.filter_eq_self.2 hall]
    · rw [List.takeWhile_cons_of_neg (by simpa using hx), List.filter_eq_nil_iff.2]
      intro y hy
      rw [h y hy x List.mem_cons_self]
      simpa using hx

section Rows

variable {m : Machine t σ} (l : m.Layout) (ht : t.WellFormed)
include ht

theorem Layout.silent (q : σ) : List.Forall₂ (fun x y => Matches t l.address x.2 y.2)
    (m.graph.silent q) (t.graph.silent (l.address q)) := by
  have hend : t.EndsInside fun pos => isSilent t (t.transitions.input pos) :=
    readsNothing_eq t ▸ ht.silent_endsInside
  have hsilent : ∀ x ∈ m.silent q, isSilent t x.input = true := fun x hx =>
    isSilent_eq_true_iff.2 (m.silent_input q x hx)
  refine forall₂_numbered ?_
  show List.Forall₂ _ ((numbered (m.silent q)).map _) _
  rw [map_numbered, readsNothing_eq]
  have hencoded := l.encoded q
  generalize l.address q = a at hencoded
  cases hencoded with
  | @transition i _ _ hstored hstop =>
    have htake : ((m.silent q ++ m.reading q).takeWhile fun x => isSilent t x.input) =
        m.silent q := by
      rw [List.takeWhile_append_of_pos hsilent]
      cases hreading : m.reading q with
      | nil => exact List.append_nil _
      | cons x xs =>
        have hx := isSilent_of_tokenizable ht
          (m.reading_input q x (hreading ▸ List.mem_cons_self))
        rw [List.takeWhile_cons_of_neg (by simp [hx]), List.append_nil]
    have hrow := forall₂_row (isSilent t) hend hstored (by
      rw [hstop, isSilent, decide_eq_false_iff_not, ht.operation?_noSymbol]
      decide)
    rw [htake] at hrow
    show List.Forall₂ _ _ (List.map _ (List.flatMap _ [i + 1]))
    rwa [List.flatMap_singleton]
  | index hindexed _ =>
    refine Indexed.forall₂ (isSilent t) ?_ hend hsilent
    simpa only [isSilent_eq_true_iff] using hindexed

theorem Layout.reading (q : σ) {s : SymbolId} (hs : t.Tokenizable s) :
    List.Forall₂ (fun x y => Matches t l.address x.2 y.2)
      (m.graph.reading q s) (t.graph.reading (l.address q) s) := by
  have hne := ne_noSymbol_of_tokenizable hs
  have hend : t.EndsInside fun pos => decide (t.transitions.input pos = s) :=
    Transducer.reading_endsInside hne
  refine forall₂_numbered ?_
  show List.Forall₂ _ (((numbered (m.reading q)).filter
    ((fun x : Arc σ => decide (x.input = s)) ∘ (·.2))).map (·.2)) _
  rw [← List.filter_map, map_numbered]
  have hencoded := l.encoded q
  generalize l.address q = a at hencoded
  cases hencoded with
  | @transition i hone hsame hstored hstop =>
    have htake : ((m.silent q ++ m.reading q).takeWhile fun x => decide (x.input = s)) =
        (m.reading q).filter fun x => decide (x.input = s) := by
      rcases hone with hsilent | hreading
      · rw [hsilent, List.nil_append, takeWhile_eq_filter hsame]
      · rw [hreading, List.append_nil, List.filter_nil]
        cases hsilent : m.silent q with
        | nil => rfl
        | cons x xs =>
          have hx := isSilent_eq_true_iff.2 (m.silent_input q x (hsilent ▸ List.mem_cons_self))
          refine List.takeWhile_cons_of_neg fun heq => ?_
          rw [of_decide_eq_true heq, isSilent_of_tokenizable ht hs] at hx
          cases hx
    have hrow := forall₂_row (fun input => decide (input = s)) hend hstored (by
      rw [hstop, decide_eq_false_iff_not]; exact hne.symm)
    rw [htake] at hrow
    show List.Forall₂ _ _ (List.map _ (List.flatMap _ [i + 1]))
    rwa [List.flatMap_singleton]
  | index _ hindexed =>
    refine Indexed.forall₂ (fun input => decide (input = s)) ?_ hend ?_
    · simpa only [decide_eq_true_eq] using hindexed s hs
    · intro x hx
      exact (List.mem_filter.1 hx).2

end Rows

/-! ## Places -/

variable {m : Machine t σ}

/-- The same place on both sides. -/
structure Alike (l : m.Layout) (p : Place σ) (q : Place Address) : Prop where
  state : l.address p.state = q.state
  row : p.row = q.row
  cursor : p.cursor = q.cursor
  depth : p.depth = q.depth
  output : p.output.map (·.1) = q.output.map (·.1)
  weight : t.header.weighted = true → p.output = q.output

variable {l : m.Layout} {p : Place σ} {q : Place Address}

theorem Alike.cons_output {x : Arc σ} {y : Arc Address} (h : Alike l p q)
    (hxy : Matches t l.address x y) :
    ((x.output, x.weight) :: p.output).map (·.1) = ((y.output, y.weight) :: q.output).map (·.1) ∧
      (t.header.weighted = true →
        (x.output, x.weight) :: p.output = (y.output, y.weight) :: q.output) :=
  ⟨by rw [List.map_cons, List.map_cons, h.output, hxy.output],
    fun hw => by rw [h.weight hw, hxy.output, hxy.weight hw]⟩

theorem Alike.pass {x : Arc σ} {y : Arc Address} (h : Alike l p q)
    (hxy : Matches t l.address x y) (row : Flag.Row) : Alike l (p.pass x row) (q.pass y row) :=
  ⟨hxy.target, rfl, h.cursor, congrArg (· + 1) h.depth, (h.cons_output hxy).1,
    (h.cons_output hxy).2⟩

theorem Alike.read {x : Arc σ} {y : Arc Address} (h : Alike l p q)
    (hxy : Matches t l.address x y) : Alike l (p.read x) (q.read y) :=
  ⟨hxy.target, h.row, congrArg (· + 1) h.cursor, rfl, (h.cons_output hxy).1,
    (h.cons_output hxy).2⟩

variable {tokens : List SymbolId}

theorem Alike.stop (h : Alike l p q) : m.graph.stop? tokens p = t.graph.stop? tokens q := by
  unfold Graph.stop?
  rw [h.cursor]
  cases tokens[q.cursor]? with
  | some _ => rfl
  | none =>
    show (m.final? p.state).map _ = (t.finalWeight? q.state).map _
    have hfinal := l.final p.state
    rw [h.state] at hfinal
    cases hq : t.finalWeight? q.state with
    | none =>
      cases hp : m.final? p.state with
      | none => rfl
      | some w =>
        obtain ⟨w', hw'⟩ := hfinal.1 (by rw [hp]; rfl)
        rw [Transducer.finalWeight?_eq_some_iff.2 hw'] at hq
        cases hq
    | some w =>
      have hw := Transducer.finalWeight?_eq_some_iff.1 hq
      obtain ⟨w', hw'⟩ := Option.isSome_iff_exists.1 (hfinal.2 ⟨w, hw⟩)
      rw [hw']
      refine congrArg some (Analysis.ofOutput_congr h.output fun hweighted => ?_)
      have hsame := l.final_weight hweighted p.state w (h.state ▸ hw)
      exact ⟨h.weight hweighted, Option.some.inj (hw'.symm.trans hsame)⟩

theorem Alike.silentMove (h : Alike l p q) (maxDepth : Nat) {x : Nat × Arc σ}
    {y : Nat × Arc Address} (hxy : Matches t l.address x.2 y.2) :
    Option.Rel (fun x y => Alike l x.2 y.2) (m.graph.silentMove? maxDepth p x)
      (t.graph.silentMove? maxDepth q y) := by
  have hpass : m.graph.pass? p.row x.2.input = t.graph.pass? q.row y.2.input := by
    rw [h.row, hxy.input]; rfl
  unfold Graph.silentMove?
  rw [hpass, h.depth]
  split
  · cases t.graph.pass? q.row y.2.input with
    | none => exact .none
    | some er => exact .some (h.pass hxy er.2)
  · exact .none

theorem Alike.silentMoves (ht : t.WellFormed) (h : Alike l p q) (maxDepth : Nat) :
    List.Forall₂ (fun x y => Alike l x.2 y.2) (m.graph.silentMoves maxDepth p)
      (t.graph.silentMoves maxDepth q) := by
  have hrow := l.silent ht p.state
  rw [h.state] at hrow
  exact List.rel_filterMap (fun _ _ hxy => h.silentMove maxDepth hxy) hrow

theorem Alike.readingMoves (ht : t.WellFormed) (htokens : ∀ s ∈ tokens, t.Tokenizable s)
    (h : Alike l p q) : List.Forall₂ (fun x y => Alike l x.2 y.2) (m.graph.readingMoves tokens p)
      (t.graph.readingMoves tokens q) := by
  unfold Graph.readingMoves
  rw [h.cursor]
  cases hs : tokens[q.cursor]? with
  | none => exact .nil
  | some s =>
    have hrow := l.reading ht p.state (htokens s (List.mem_of_getElem? hs))
    rw [h.state] at hrow
    show List.Forall₂ _ (List.map _ _) (List.map _ _)
    rw [List.forall₂_map_left_iff, List.forall₂_map_right_iff]
    exact hrow.imp fun _ _ hxy => h.read hxy

theorem alike_root (l : m.Layout) : Alike l m.graph.root t.root :=
  ⟨l.start, rfl, rfl, rfl, rfl, fun _ => rfl⟩

/-- The machine and its tables list the same analyses. -/
theorem Layout.map_explore (l : m.Layout) (ht : t.WellFormed) (maxDepth : Nat)
    (htokens : ∀ s ∈ tokens, t.Tokenizable s) :
    (m.graph.explore maxDepth tokens m.graph.root).map (·.2) =
      (t.graph.explore maxDepth tokens t.root).map (·.2) :=
  Graph.map_explore_congr (R := Alike l) (fun _ _ h => h.stop)
    (fun _ _ h => h.silentMoves ht maxDepth) (fun _ _ h => h.readingMoves ht htokens)
    (alike_root l)

theorem numbered_graph (m : Machine t σ) : m.graph.Numbered := by
  have hnumbered (arcs : List (Arc σ)) : (numbered arcs).Pairwise (·.1 < ·.1) := by
    have hplaces : (arcs.zipIdx.map (·.2)).Pairwise (· < ·) := by
      rw [List.zipIdx_map_snd]
      exact List.pairwise_lt_range' 1 Nat.one_pos
    exact List.pairwise_map.2 (List.pairwise_map.1 hplaces)
  exact ⟨fun q => hnumbered _, fun q s => (hnumbered _).filter _⟩

/-- For any layout of a machine in its tables, a transducer returns the analyses of exactly the
machine's accepting paths, each path once and in order. -/
theorem analyze_eq_of_layout {file : Stream} {t : Transducer} (hload : Transducer.load file = .ok t)
    {m : Machine t σ} (l : m.Layout) (limits : Limits) {text : String} {tokens : List SymbolId}
    (htokens : (t.withLimits limits).tokenize text = some tokens)
    (hframes : (run (t.withLimits limits) limits.maxSteps
      (begin (t.withLimits limits) tokens)).frames = []) :
    ∃! paths, Enumerates (m.graph.Accepts limits.maxEpsilonDepth tokens) paths ∧
      (paths.map (·.1)).Nodup ∧ (t.withLimits limits).analyze text = paths.map (·.2) := by
  have ht := Transducer.wellFormed_of_load hload
  have hpaths : Enumerates (m.graph.Accepts limits.maxEpsilonDepth tokens)
      (m.graph.explore limits.maxEpsilonDepth tokens m.graph.root) :=
    ⟨fun _ _ => Graph.mem_explore_iff (Nat.zero_le _), Graph.pairwise_explore m.numbered_graph _⟩
  refine ⟨_, ⟨hpaths, hpaths.nodup, ?_⟩, fun paths h => h.1.unique hpaths⟩
  rw [Transducer.analyze_of_tokenize htokens,
    l.map_explore ht limits.maxEpsilonDepth fun s hs => ⟨text, tokens, htokens, hs⟩]
  exact Search.found_run (ht.withLimits limits) (Transducer.noSymbol_notMem_tokenize htokens)
    hframes

/-! ## A small machine -/

/-- The machine that the small file holds. -/
def small : Machine Transducer.small (Fin 3) where
  start := 0
  final?
    | 2 => some .zero
    | _ => none
  silent
    | 0 => [⟨3, 0, .zero, 1⟩]
    | _ => []
  reading
    | 0 => [⟨1, 2, .zero, 2⟩]
    | 1 => [⟨1, 1, .zero, 2⟩]
    | 2 => []
  silent_input := by decide +kernel
  reading_input q x hx := by
    have ha : Transducer.small.Tokenizable 1 :=
      ⟨"a", [1], by decide +kernel, List.mem_singleton.2 rfl⟩
    match q with
    | 0 => cases List.mem_singleton.1 hx; exact ha
    | 1 => cases List.mem_singleton.1 hx; exact ha
    | 2 => cases hx

theorem eq_one_of_tokenizable_small {s : SymbolId} (hs : Transducer.small.Tokenizable s) :
    s = 1 := by
  obtain ⟨text, tokens, htokens, hmem⟩ := hs
  obtain ⟨hlt, word, hne, hword⟩ := Transducer.mem_tokenize htokens hmem
  have hcount : Transducer.small.header.inputSymbolCount.toNat = 2 := by decide +kernel
  have hzero : s.toNat ≠ 0 := fun h => by
    have hepsilon : Transducer.small.alphabet.text? 0 = some "" := by decide +kernel
    rw [UInt16.toNat_inj.1 (show s.toNat = (0 : UInt16).toNat from h), hepsilon] at hword
    exact hne (Option.some.inj hword).symm
  exact UInt16.toNat_inj.1 (show s.toNat = 1 by omega)

def smallAddress : Fin 3 → Address
  | 0 => .index 0
  | 1 => .transition 2
  | 2 => .transition 4

def smallLayout : small.Layout where
  address := smallAddress
  start := rfl
  encoded
    | 0 => by
      have hsilent : Holds Transducer.small smallAddress 0 (⟨3, 0, .zero, 1⟩ : Arc (Fin 3)) :=
        ⟨by decide +kernel, by decide +kernel, by decide +kernel, by decide +kernel⟩
      have hreading : Holds Transducer.small smallAddress 1 (⟨1, 2, .zero, 2⟩ : Arc (Fin 3)) :=
        ⟨by decide +kernel, by decide +kernel, by decide +kernel, by decide +kernel⟩
      have h1 : (Address.ofTarget (Transducer.small.index.target 1)).offset = 0 := by
        decide +kernel
      have h2 : (Address.ofTarget (Transducer.small.index.target 2)).offset = 1 := by
        decide +kernel
      refine .index (.inr ⟨by decide +kernel, ?_, by decide +kernel⟩) fun s hs => ?_
      · rw [h1]; exact ⟨hsilent, trivial⟩
      · cases eq_one_of_tokenizable_small hs
        refine .inr ⟨by decide +kernel, ?_, by decide +kernel⟩
        show Stored _ _ (Address.ofTarget (Transducer.small.index.target 2)).offset _
        rw [h2]; exact ⟨hreading, trivial⟩
    | 1 => by
      have hreading : Holds Transducer.small smallAddress 3 (⟨1, 1, .zero, 2⟩ : Arc (Fin 3)) :=
        ⟨by decide +kernel, by decide +kernel, by decide +kernel, by decide +kernel⟩
      exact .transition (.inl rfl) (by decide +kernel) ⟨hreading, trivial⟩ (by decide +kernel)
    | 2 => .transition (.inl rfl) (by decide +kernel) trivial (by decide +kernel)
  final q := by
    simp only [← Transducer.finalWeight?_eq_some_iff, ← Option.isSome_iff_exists]
    revert q
    decide +kernel
  final_weight h := absurd h (by decide +kernel)

/-- The small file and its machine, with a limit of one silent move in a row. -/
theorem analyze_eq_of_layout_small :
    Transducer.load (.ofBytes Transducer.smallFile) = .ok Transducer.small ∧
      (Transducer.small.withLimits ⟨1, 100⟩).tokenize "a" = some [1] ∧
      (run (Transducer.small.withLimits ⟨1, 100⟩) 100
        (begin (Transducer.small.withLimits ⟨1, 100⟩) [1])).frames = [] ∧
      ∃! paths, Enumerates (small.graph.Accepts 1 [1]) paths ∧ (paths.map (·.1)).Nodup ∧
        (Transducer.small.withLimits ⟨1, 100⟩).analyze "a" = paths.map (·.2) :=
  ⟨Transducer.ofBytes_smallFile, Transducer.tokenize_small, Transducer.frames_run_small,
    analyze_eq_of_layout Transducer.ofBytes_smallFile smallLayout ⟨1, 100⟩
      Transducer.tokenize_small Transducer.frames_run_small⟩

end TransducerLookup.Machine
