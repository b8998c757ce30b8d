import TransducerLookup.Proofs.Search.Exploration

/-!
# Lookups enumerate paths

What a lookup returns is described without the search: the analyses of the
accepting paths over the raw tables, in the order of a depth first search, each
path once. The tables may hold anything.
-/

namespace TransducerLookup.Transducer

open Search (run begin)

theorem WellFormed.enumerates_explore {t : Transducer} (ht : t.WellFormed)
    {tokens : List SymbolId} (htokens : noSymbol ∉ tokens) :
    Enumerates (t.Accepts tokens) (t.graph.explore t.limits.maxEpsilonDepth tokens t.root) :=
  ⟨fun _ _ => ht.mem_explore_root_iff htokens, Graph.pairwise_explore numbered_graph _⟩

theorem analyze_of_tokenize {t : Transducer} {text : String} {tokens : List SymbolId}
    (h : t.tokenize text = some tokens) :
    t.analyze text = (run t t.limits.maxSteps (begin t tokens)).found.reverse := by
  unfold analyze analyzeWith
  rw [h]

theorem analyze_of_tokenize_eq_none {t : Transducer} {text : String} (h : t.tokenize text = none) :
    t.analyze text = [] := by
  unfold analyze analyzeWith
  rw [h]

theorem tokenize_small : (small.withLimits ⟨1, 100⟩).tokenize "a" = some [1] := by
  decide +kernel

theorem frames_run_small :
    (run (small.withLimits ⟨1, 100⟩) 100 (begin (small.withLimits ⟨1, 100⟩) [1])).frames = [] := by
  decide +kernel

/-- A lookup that ends within its limits returns the analyses of exactly the accepting paths,
each path once and in order. -/
theorem analyze_eq_of_load {file : Stream} {t : Transducer} (hload : load file = .ok t)
    (limits : Limits) {text : String} {tokens : List SymbolId}
    (htokens : (t.withLimits limits).tokenize text = some tokens)
    (hframes : (run (t.withLimits limits) limits.maxSteps
      (begin (t.withLimits limits) tokens)).frames = []) :
    ∃! paths, Enumerates ((t.withLimits limits).Accepts tokens) paths ∧ (paths.map (·.1)).Nodup ∧
      (t.withLimits limits).analyze text = paths.map (·.2) := by
  have ht := (wellFormed_of_load hload).withLimits limits
  have hno := noSymbol_notMem_tokenize htokens
  have hpaths := ht.enumerates_explore hno
  refine ⟨_, ⟨hpaths, hpaths.nodup, ?_⟩, fun paths h => h.1.unique hpaths⟩
  rw [analyze_of_tokenize htokens]
  exact Search.found_run ht hno hframes

/-- The small file, with a limit of one silent move in a row. -/
theorem analyze_eq_of_load_small :
    load (.ofBytes smallFile) = .ok small ∧
      (small.withLimits ⟨1, 100⟩).tokenize "a" = some [1] ∧
      (run (small.withLimits ⟨1, 100⟩) 100 (begin (small.withLimits ⟨1, 100⟩) [1])).frames = [] ∧
      ∃! paths, Enumerates ((small.withLimits ⟨1, 100⟩).Accepts [1]) paths ∧
        (paths.map (·.1)).Nodup ∧ (small.withLimits ⟨1, 100⟩).analyze "a" = paths.map (·.2) :=
  ⟨ofBytes_smallFile, tokenize_small, frames_run_small,
    analyze_eq_of_load ofBytes_smallFile ⟨1, 100⟩ tokenize_small frames_run_small⟩

example : small.analyze "a" = [⟨["a"], .one⟩, ⟨["b"], .one⟩] := by decide +kernel

end TransducerLookup.Transducer
