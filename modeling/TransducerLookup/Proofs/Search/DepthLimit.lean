import TransducerLookup.Proofs.Graph.DepthLimit
import TransducerLookup.Proofs.Search.PathEnumeration

/-!
# The limit on silent moves

Under a lower limit on silent moves in a row, a lookup finds the analyses of
some of the paths that it finds under a higher one. A path that is left out
takes nothing with it: the others come in the same order and with the same
analyses (`analyze_eq_filter`).
-/

namespace TransducerLookup.Transducer

open Search (run begin)

variable {t : Transducer} {text : String}

/-- The lookup ends before its turns are used up. -/
def Completes (t : Transducer) (text : String) : Prop :=
  ∀ tokens, t.tokenize text = some tokens → (run t t.limits.maxSteps (begin t tokens)).frames = []

theorem completes_of_tokenize {tokens : List SymbolId} (htokens : t.tokenize text = some tokens)
    (hframes : (run t t.limits.maxSteps (begin t tokens)).frames = []) : t.Completes text := by
  intro tokens' htokens'
  rw [htokens] at htokens'
  obtain rfl := Option.some.inj htokens'
  exact hframes

theorem analyze_of_completes (ht : t.WellFormed) (h : t.Completes text) {tokens : List SymbolId}
    (htokens : t.tokenize text = some tokens) : t.analyze text =
      (t.graph.explore t.limits.maxEpsilonDepth tokens t.root).map (·.2) := by
  rw [analyze_of_tokenize htokens]
  exact Search.found_run ht (noSymbol_notMem_tokenize htokens) (h tokens htokens)

variable {low high : Limits} {tokens : List SymbolId}

theorem analyze_eq_filter (ht : t.WellFormed) (hle : low.maxEpsilonDepth ≤ high.maxEpsilonDepth)
    (h : (t.withLimits low).Completes text) (htokens : t.tokenize text = some tokens) :
    (t.withLimits low).analyze text =
      ((t.graph.explore high.maxEpsilonDepth tokens t.root).filter
        fun x => spaced low.maxEpsilonDepth 0 x.1).map (·.2) := by
  have hanalyze := analyze_of_completes (ht.withLimits low) h htokens
  exact hanalyze.trans (congrArg (List.map (·.2)) (Graph.explore_eq_filter numbered_graph hle))

theorem filter_eq_self_iff (ht : t.WellFormed) (htokens : t.tokenize text = some tokens)
    (limits : Limits) (depth : Nat) :
    (t.graph.explore limits.maxEpsilonDepth tokens t.root).filter (fun x => spaced depth 0 x.1) =
        t.graph.explore limits.maxEpsilonDepth tokens t.root ↔
      ∀ ms a, (t.withLimits limits).Accepts tokens ms a →
        ∀ row, row <:+: ms → (∀ m ∈ row, m.edge ≠ .symbol) → row.length ≤ depth := by
  have haccepts (ms : List Move) (a : Analysis) :
      (ms, a) ∈ t.graph.explore limits.maxEpsilonDepth tokens t.root ↔ _ :=
    (ht.withLimits limits).mem_explore_root_iff (noSymbol_notMem_tokenize htokens)
  simp only [List.filter_eq_self, Prod.forall, haccepts, spaced_zero_iff]

/-- Raising the limit on silent moves in a row only adds analyses. Under the lower limit there are
fewer analyses or as many, in the same order; and there are as many if and only if no accepting
path under the higher limit makes more silent moves in a row than the lower one allows. -/
theorem sublist_of_load {file : Stream} {t : Transducer} (hload : load file = .ok t)
    {low high : Limits} (hle : low.maxEpsilonDepth ≤ high.maxEpsilonDepth) {text : String}
    (hlow : (t.withLimits low).Completes text) (hhigh : (t.withLimits high).Completes text) :
    ((t.withLimits low).analyze text).Sublist ((t.withLimits high).analyze text) ∧
    ((t.withLimits low).analyze text = (t.withLimits high).analyze text ↔
      ∀ tokens, t.tokenize text = some tokens → ∀ ms a,
        (t.withLimits high).Accepts tokens ms a →
          ∀ row, row <:+: ms → (∀ m ∈ row, m.edge ≠ .symbol) →
            row.length ≤ low.maxEpsilonDepth) := by
  have ht := wellFormed_of_load hload
  cases htokens : t.tokenize text with
  | none =>
    have hnone (limits : Limits) : (t.withLimits limits).analyze text = [] :=
      analyze_of_tokenize_eq_none htokens
    rw [hnone, hnone]
    exact ⟨.slnil, iff_of_true rfl nofun⟩
  | some tokens =>
    have hanalyze : (t.withLimits high).analyze text =
        (t.graph.explore high.maxEpsilonDepth tokens t.root).map (·.2) :=
      analyze_of_completes (ht.withLimits high) hhigh htokens
    have hsublist : ((t.graph.explore high.maxEpsilonDepth tokens t.root).filter
        fun x => spaced low.maxEpsilonDepth 0 x.1).Sublist _ := List.filter_sublist
    rw [analyze_eq_filter ht hle hlow htokens, hanalyze]
    refine ⟨hsublist.map _, ?_⟩
    simp only [Option.some.injEq, forall_eq']
    rw [← filter_eq_self_iff ht htokens]
    -- A list with something left out is shorter.
    refine ⟨fun h => hsublist.eq_of_length ?_, fun h => congrArg (List.map (·.2)) h⟩
    simpa using congrArg List.length h

/-- The small file under limits of one and of two silent moves in a row: no path makes two. -/
theorem sublist_of_load_small :
    load (.ofBytes smallFile) = .ok small ∧
    (small.withLimits ⟨1, 100⟩).Completes "a" ∧ (small.withLimits ⟨2, 100⟩).Completes "a" ∧
    ((small.withLimits ⟨1, 100⟩).analyze "a").Sublist ((small.withLimits ⟨2, 100⟩).analyze "a") ∧
    ∀ ms a, (small.withLimits ⟨2, 100⟩).Accepts [1] ms a →
      ∀ row, row <:+: ms → (∀ m ∈ row, m.edge ≠ .symbol) → row.length ≤ 1 := by
  have hlow : (small.withLimits ⟨1, 100⟩).Completes "a" :=
    completes_of_tokenize tokenize_small frames_run_small
  have htokens : (small.withLimits ⟨2, 100⟩).tokenize "a" = some [1] := by decide +kernel
  have hhigh : (small.withLimits ⟨2, 100⟩).Completes "a" :=
    completes_of_tokenize htokens (by decide +kernel)
  have hle : (⟨1, 100⟩ : Limits).maxEpsilonDepth ≤ (⟨2, 100⟩ : Limits).maxEpsilonDepth := by decide
  obtain ⟨hsublist, hiff⟩ := sublist_of_load ofBytes_smallFile hle hlow hhigh
  have hequal : (small.withLimits ⟨1, 100⟩).analyze "a" =
      (small.withLimits ⟨2, 100⟩).analyze "a" := by decide +kernel
  have hplain : small.tokenize "a" = some [1] := by decide +kernel
  exact ⟨ofBytes_smallFile, hlow, hhigh, hsublist, hiff.1 hequal [1] hplain⟩

end TransducerLookup.Transducer
