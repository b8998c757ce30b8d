import TransducerLookup.Proofs.Search.TurnLimit

/-!
# Lookups without weights

No turn looks at a weight. Taking the weights out of a transducer and out of a
search state commutes with the turns (`unweighted_turn`), and so with runs: the
transducer without weights finds the same analyses, each with weight one
(`analyze_unweighted`). Transducers that differ in nothing but weights have the
same turns without them.
-/

namespace TransducerLookup

/-! ## Taking the weights out -/

namespace TransitionCell

/-- All that a cell says but its weight. -/
def labels (c : TransitionCell) : SymbolId × SymbolId × Target := (c.input, c.output, c.target)

def unweighted (c : TransitionCell) : TransitionCell := { c with weight := .zero }

end TransitionCell

namespace TransitionTable

variable {t u : TransitionTable} {pos : Nat}

def unweighted (t : TransitionTable) : TransitionTable where
  cells := t.cells.map .unweighted
  weighted := false

theorem cell_unweighted (t : TransitionTable) (pos : Nat) :
    t.unweighted.cell pos = (t.cell pos).unweighted := by
  unfold cell unweighted
  rw [Array.getElem?_map]
  cases t.cells[pos]? <;> rfl

@[simp] theorem input_unweighted : t.unweighted.input pos = t.input pos := by
  rw [input, cell_unweighted]
  rfl

@[simp] theorem output_unweighted : t.unweighted.output pos = t.output pos := by
  rw [output, cell_unweighted]
  rfl

@[simp] theorem target_unweighted : t.unweighted.target pos = t.target pos := by
  rw [target, cell_unweighted]
  rfl

@[simp] theorem weight_unweighted : t.unweighted.weight pos = .zero := by
  rw [weight, cell_unweighted]
  rfl

@[simp] theorem isFinal_unweighted : t.unweighted.isFinal pos = t.isFinal pos := by
  simp only [isFinal, input_unweighted, output_unweighted, target_unweighted]

@[simp] theorem fits_unweighted {symbol : SymbolId} :
    t.unweighted.fits pos symbol = t.fits pos symbol := by
  simp only [fits, input_unweighted]

theorem unweighted_eq (h : t.cells.map TransitionCell.labels = u.cells.map TransitionCell.labels) :
    t.unweighted = u.unweighted := by
  have hfactor (cells : Array TransitionCell) : cells.map TransitionCell.unweighted =
      (cells.map TransitionCell.labels).map fun (input, output, target) =>
        { input, output, target } := by
    rw [Array.map_map]
    rfl
  rw [unweighted, unweighted, hfactor, hfactor, h]

end TransitionTable

def Analysis.unweighted (a : Analysis) : Analysis := { a with weight := .one }

namespace Transducer

variable {t u : Transducer}

def unweighted (t : Transducer) : Transducer :=
  { t with
    header := { t.header with weighted := false }
    transitions := t.transitions.unweighted
    trie_eq := t.trie_eq }

/-- A state stays final or not; only its weight is lost. -/
theorem finalWeight?_unweighted (address : Address) :
    t.unweighted.finalWeight? address = (t.finalWeight? address).map fun _ => .zero := by
  cases address with
  | transition i =>
    show (if t.transitions.unweighted.isFinal i then some (t.transitions.unweighted.weight i)
      else none) = (if t.transitions.isFinal i then _ else _ : Option Weight).map _
    rw [TransitionTable.isFinal_unweighted, TransitionTable.weight_unweighted]
    split <;> rfl
  | index i =>
    show (if t.index.isFinal i then some Weight.zero else none) =
      (if t.index.isFinal i then _ else _ : Option Weight).map _
    split <;> rfl

/-- They differ at most in whether they are weighted, in the weights of transitions, and in what a
header says that no lookup reads. -/
structure SameButWeights (t u : Transducer) : Prop where
  alphabet : t.alphabet = u.alphabet
  inputSymbolCount : t.header.inputSymbolCount = u.header.inputSymbolCount
  index : t.index = u.index
  labels : t.transitions.cells.map TransitionCell.labels =
    u.transitions.cells.map TransitionCell.labels

end Transducer

/-! ## Turns -/

namespace Search

variable {t u : Transducer} {s : State}

namespace State

def unweighted (s : State) : State :=
  { s with
    output := s.output.map fun x => (x.1, .zero)
    found := s.found.map .unweighted }

theorem unweighted_analysis (final final' : Weight) :
    (s.analysis t final).unweighted = s.unweighted.analysis t.unweighted final' := by
  unfold analysis unweighted Analysis.unweighted
  dsimp only [Transducer.unweighted]
  rw [← List.map_reverse, List.filterMap_map]
  rfl

theorem unweighted_follow (pos : Nat) (edge : Edge) (depth : Nat) :
    (s.follow t pos edge depth).unweighted = s.unweighted.follow t.unweighted pos edge depth := by
  unfold follow
  dsimp only [Transducer.unweighted]
  rw [TransitionTable.output_unweighted, TransitionTable.target_unweighted,
    TransitionTable.weight_unweighted]
  rfl

variable {f : Frame} {below : List Frame}

theorem unweighted_leave : (s.leave f below).unweighted = s.unweighted.leave f below := by
  unfold leave
  split
  · rfl
  · simp only [unweighted, List.map_tail]

theorem unweighted_tryEpsilon (pos : Nat) :
    (s.tryEpsilon t f below pos).unweighted =
      s.unweighted.tryEpsilon t.unweighted f below pos := by
  have hinput : t.unweighted.transitions.input pos = t.transitions.input pos :=
    TransitionTable.input_unweighted
  have hoperation : t.unweighted.operation? (t.transitions.input pos) =
    t.operation? (t.transitions.input pos) := rfl
  have hlimits : t.unweighted.limits = t.limits := rfl
  unfold tryEpsilon
  dsimp only
  rw [hinput, hoperation, hlimits]
  split
  · split
    · exact unweighted_follow pos .epsilon _
    · rfl
  · cases t.operation? (t.transitions.input pos) with
    | none => rfl
    | some o =>
      unfold pushFlag?
      dsimp only [unweighted]
      split
      · cases s.flags.push? o with
        | none => rfl
        | some flags => exact unweighted_follow pos .flag _
      · rfl

theorem unweighted_arrive :
    (s.arrive t f below).unweighted = s.unweighted.arrive t.unweighted f below := by
  have hsymbol : s.unweighted.currentSymbol = s.currentSymbol := rfl
  unfold arrive
  dsimp only
  rw [hsymbol, Transducer.finalWeight?_unweighted]
  split
  · cases t.finalWeight? f.address with
    | none => rfl
    | some final =>
      dsimp only [Option.map_some]
      rw [← unweighted_analysis final]
      rfl
  · rfl

theorem unweighted_tryConsume (pos : Nat) :
    (s.tryConsume t f below pos).unweighted =
      s.unweighted.tryConsume t.unweighted f below pos := by
  have hfits : t.unweighted.transitions.fits pos s.unweighted.currentSymbol =
      t.transitions.fits pos s.currentSymbol := TransitionTable.fits_unweighted
  unfold tryConsume
  rw [hfits]
  split
  · exact unweighted_follow pos .symbol 0
  · rfl

end State

theorem unweighted_turn (t : Transducer) (s : State) :
    (s.turn t).map State.unweighted = s.unweighted.turn t.unweighted := by
  have hframes : s.unweighted.frames = s.frames := rfl
  unfold State.turn
  rw [hframes]
  cases s.frames with
  | nil => rfl
  | cons f below =>
    dsimp only
    cases f.phase with
    | epsilon pos => exact congrArg some (State.unweighted_tryEpsilon pos)
    | arrive => exact congrArg some State.unweighted_arrive
    | consume pos => exact congrArg some (State.unweighted_tryConsume pos)
    | done => exact congrArg some State.unweighted_leave

/-! ## Runs -/

theorem unweighted_run (t : Transducer) (turns : Nat) (s : State) :
    (run t turns s).unweighted = run t.unweighted turns s.unweighted := by
  induction turns generalizing s with
  | zero => rfl
  | succ turns ih =>
    rw [run, run, ← unweighted_turn]
    cases s.turn t with
    | none => rfl
    | some next => exact ih next

end Search

namespace Transducer

open Search (run begin)

variable {t u : Transducer} {text : String}

/-- Without weights a lookup finds the same analyses, each with weight one. -/
theorem analyze_unweighted (t : Transducer) (text : String) :
    t.unweighted.analyze text = (t.analyze text).map Analysis.unweighted := by
  have htokenize : t.unweighted.tokenize text = t.tokenize text := rfl
  cases htokens : t.tokenize text with
  | none =>
    rw [analyze_of_tokenize_eq_none htokens]
    exact analyze_of_tokenize_eq_none (htokenize.trans htokens)
  | some tokens =>
    have hrun := Search.unweighted_run t t.limits.maxSteps (begin t tokens)
    rw [analyze_of_tokenize htokens, analyze_of_tokenize (htokenize.trans htokens),
      List.map_reverse]
    exact congrArg (·.found.reverse) hrun.symm

/-- Without weights, only what no lookup reads is left to tell them apart. -/
theorem SameButWeights.unweighted_eq (h : t.SameButWeights u) (hlimits : t.limits = u.limits) :
    ∃ htrie, u.unweighted =
      { t.unweighted with header := u.unweighted.header, trie_eq := htrie } := by
  obtain ⟨header, alphabet, index, transitions, limits, trie, htrie⟩ := t
  obtain ⟨header', alphabet', index', transitions', limits', trie', htrie'⟩ := u
  obtain ⟨halphabet, hcount, hindex, hlabels⟩ := h
  have htransitions := TransitionTable.unweighted_eq hlabels
  dsimp only at *
  subst halphabet hindex hlimits htrie htrie'
  refine ⟨congrArg alphabet.inputTrie hcount, ?_⟩
  simp only [unweighted, htransitions, hcount]

theorem SameButWeights.analyze_unweighted (h : t.SameButWeights u) (hlimits : t.limits = u.limits)
    (text : String) : t.unweighted.analyze text = u.unweighted.analyze text := by
  obtain ⟨htrie, hu⟩ := h.unweighted_eq hlimits
  rw [hu]
  exact Search.analyze_congr rfl rfl (fun _ => rfl) rfl

theorem weight_of_mem_analyze (hweighted : t.header.weighted = false) {a : Analysis}
    (ha : a ∈ t.analyze text) : a.weight = .one := by
  cases htokens : t.tokenize text with
  | none =>
    rw [analyze_of_tokenize_eq_none htokens] at ha
    cases ha
  | some tokens =>
    rw [Search.analyze_eq_finds htokens] at ha
    obtain ⟨i, -, hi⟩ := List.mem_filterMap.1 ha
    obtain ⟨w, rfl⟩ := Search.finds?_eq_some hi
    rw [Search.State.analysis, hweighted]
    rfl

/-- Weights never decide which analyses are found. Transducers that differ in nothing but weights
find analyses with the same symbols, also when their lookups are cut off; and the analyses of an
unweighted one all have weight one. -/
theorem symbols_analyze_eq (h : t.SameButWeights u) (limits : Limits) (text : String) :
    ((t.withLimits limits).analyze text).map (·.symbols) =
      ((u.withLimits limits).analyze text).map (·.symbols) ∧
    (t.header.weighted = false →
      ∀ a ∈ (t.withLimits limits).analyze text, a.weight = .one) := by
  refine ⟨?_, fun hweighted a ha =>
    weight_of_mem_analyze (show (t.withLimits limits).header.weighted = false from hweighted) ha⟩
  have hlimits : (t.withLimits limits).SameButWeights (u.withLimits limits) :=
    ⟨h.alphabet, h.inputSymbolCount, h.index, h.labels⟩
  have hsymbols (analyses : List Analysis) :
      analyses.map (·.symbols) = (analyses.map Analysis.unweighted).map (·.symbols) := by
    rw [List.map_map]
    rfl
  rw [hsymbols, hsymbols ((u.withLimits limits).analyze text), ← analyze_unweighted,
    ← analyze_unweighted, hlimits.analyze_unweighted rfl text]

/-- The small file, with a weight in each cell of the transition table. -/
def weightedFile : List UInt8 :=
  [2, 0, 4, 0, 3, 0, 0, 0, 6, 0, 0, 0] ++ List.replicate 8 0 ++ [1, 0, 0, 0] ++ List.replicate 32 0
  ++ [0, 97, 0, 98, 0, 64, 80, 46, 70, 46, 86, 64, 0]
  ++ [255, 255, 255, 255, 255, 255, 0, 0, 0, 0, 0, 128, 1, 0, 1, 0, 0, 128]
  ++ [3, 0, 0, 0, 2, 0, 0, 128, 0, 0, 0, 63, 1, 0, 2, 0, 4, 0, 0, 128, 0, 0, 128, 191]
  ++ [255, 255, 255, 255, 255, 255, 255, 255, 0, 0, 0, 0]
  ++ [1, 0, 1, 0, 4, 0, 0, 128, 0, 0, 192, 127]
  ++ [255, 255, 255, 255, 1, 0, 0, 0, 0, 0, 128, 63]
  ++ [255, 255, 255, 255, 255, 255, 255, 255, 0, 0, 0, 0]

theorem isSome_ofBytes_weightedFile : (ofBytes weightedFile).toOption.isSome = true := by
  decide +kernel

/-- A lookup that is cut off after its first analysis. The weights are a half, minus one, not a
number and one. -/
theorem symbols_analyze_eq_small :
    ∃ u, load (.ofBytes weightedFile) = .ok u ∧ u.header.weighted = true ∧
      u.transitions.cells.toList.map (·.weight.bits) =
        [0x3F000000, 0xBF800000, 0, 0x7FC00000, 0x3F800000, 0] ∧
      small.SameButWeights u ∧
      ((u.withLimits ⟨1, 6⟩).analyze "a").map (·.symbols) = [["a"]] ∧
      ∀ a ∈ (small.withLimits ⟨1, 6⟩).analyze "a", a.weight = .one := by
  refine ⟨_, eq_ok_get isSome_ofBytes_weightedFile, by decide +kernel, by decide +kernel, ?_⟩
  generalize hu : (ofBytes weightedFile).toOption.get isSome_ofBytes_weightedFile = u
  have hsame : small.SameButWeights u := by
    subst hu
    exact ⟨by decide +kernel, by decide +kernel, by decide +kernel, by decide +kernel⟩
  obtain ⟨hsymbols, hweights⟩ := symbols_analyze_eq hsame ⟨1, 6⟩ "a"
  refine ⟨hsame, hsymbols.symm.trans (by decide +kernel), hweights (by decide +kernel)⟩

end Transducer

end TransducerLookup
