import TransducerLookup.Proofs.Graph.Exploration

/-!
# Paths under a lower limit

A limit on silent moves in a row takes paths away and leaves the others as they
are: the paths under a lower limit are those under a higher one that keep to
the lower one (`path_iff_of_le`). In a list of paths under the higher limit the
paths under the lower one stand in the same order (`explore_eq_filter`).
-/

namespace TransducerLookup

open Search (Edge)

/-! ## Moves in a row -/

/-- With `depth` silent moves before them, these moves never make more than `maxDepth` of them in
a row. -/
def spaced (maxDepth : Nat) : Nat → List Move → Bool
  | _, [] => true
  | depth, m :: ms =>
    if m.edge = .symbol then spaced maxDepth 0 ms
    else depth < maxDepth && spaced maxDepth (depth + 1) ms

variable {maxDepth depth : Nat} {m : Move} {ms : List Move}

theorem spaced_cons_of_symbol (h : m.edge = .symbol) :
    spaced maxDepth depth (m :: ms) = spaced maxDepth 0 ms := if_pos h

theorem spaced_cons_of_silent (h : m.edge ≠ .symbol) : spaced maxDepth depth (m :: ms) = true ↔
    depth < maxDepth ∧ spaced maxDepth (depth + 1) ms = true := by
  rw [spaced, if_neg h, Bool.and_eq_true, decide_eq_true_eq]

/-- The first run of silent moves continues the ones before, all others start anew. -/
theorem spaced_iff_runs (hdepth : depth ≤ maxDepth) : spaced maxDepth depth ms = true ↔
    (∀ run, run <+: ms → (∀ m ∈ run, m.edge ≠ .symbol) → depth + run.length ≤ maxDepth) ∧
    ∀ run, run <:+: ms → (∀ m ∈ run, m.edge ≠ .symbol) → run.length ≤ maxDepth := by
  induction ms generalizing depth with
  | nil =>
    simp only [List.prefix_nil, List.infix_nil, forall_eq, List.length_nil]
    exact iff_of_true rfl ⟨fun _ => hdepth, fun _ => Nat.zero_le _⟩
  | cons m ms ih =>
    simp only [List.prefix_cons_iff, List.infix_cons_iff]
    by_cases hm : m.edge = .symbol
    · -- No run goes through the move, so the rest begins with none before it.
      have hthrough {run rest : List Move} (hrun : ∀ n ∈ run, n.edge ≠ .symbol) :
          run ≠ m :: rest := by
        rintro rfl
        exact hrun m List.mem_cons_self hm
      rw [spaced_cons_of_symbol hm, ih (Nat.zero_le _)]
      constructor
      · rintro ⟨-, hinner⟩
        refine ⟨fun run h hrun => ?_, fun run h hrun => ?_⟩
        · rcases h with rfl | ⟨rest, hcons, -⟩
          · exact hdepth
          · exact (hthrough hrun hcons).elim
        · rcases h with (rfl | ⟨rest, hcons, -⟩) | h
          · exact Nat.zero_le _
          · exact (hthrough hrun hcons).elim
          · exact hinner run h hrun
      · rintro ⟨-, hinner⟩
        refine ⟨fun run h hrun => ?_, fun run h hrun => hinner run (.inr h) hrun⟩
        rw [Nat.zero_add]
        exact hinner run (.inr h.isInfix) hrun
    · rw [spaced_cons_of_silent hm]
      constructor
      · rintro ⟨hlt, hrest⟩
        obtain ⟨hfirst, hinner⟩ := (ih hlt).1 hrest
        have hcons (run : List Move) (h : run = [] ∨ ∃ rest, run = m :: rest ∧ rest <+: ms)
            (hrun : ∀ n ∈ run, n.edge ≠ .symbol) : depth + run.length ≤ maxDepth := by
          rcases h with rfl | ⟨rest, rfl, hrest⟩
          · exact hdepth
          · have hle := hfirst rest hrest fun n hn => hrun n (List.mem_cons_of_mem _ hn)
            rw [List.length_cons]
            omega
        refine ⟨hcons, fun run h hrun => ?_⟩
        rcases h with h | h
        · have hle := hcons run h hrun
          omega
        · exact hinner run h hrun
      · rintro ⟨hfirst, hinner⟩
        have hcons (rest : List Move) (h : rest <+: ms) (hrun : ∀ n ∈ rest, n.edge ≠ .symbol) :
            depth + 1 + rest.length ≤ maxDepth := by
          have hle := hfirst (m :: rest) (.inr ⟨rest, rfl, h⟩) (List.forall_mem_cons.2 ⟨hm, hrun⟩)
          rw [List.length_cons] at hle
          omega
        have hlt : depth < maxDepth := hcons [] List.nil_prefix (List.forall_mem_nil _)
        exact ⟨hlt, (ih hlt).2 ⟨hcons, fun run h hrun => hinner run (.inr h) hrun⟩⟩

theorem spaced_zero_iff : spaced maxDepth 0 ms = true ↔
    ∀ run, run <:+: ms → (∀ m ∈ run, m.edge ≠ .symbol) → run.length ≤ maxDepth := by
  rw [spaced_iff_runs (Nat.zero_le _)]
  refine ⟨fun h => h.2, fun h => ⟨fun run hfirst hrun => ?_, h⟩⟩
  rw [Nat.zero_add]
  exact h run hfirst.isInfix hrun

/-! ## Paths -/

namespace Graph

variable {σ : Type} {g : Graph σ} {tokens : List SymbolId} {p q : Place σ} {low high : Nat}

theorem step_depth (h : g.Step maxDepth tokens p m q) :
    q.depth = if m.edge = .symbol then 0 else p.depth + 1 := by
  cases h <;> rfl

/-- A limit stops silent moves, and only where the limit is reached. -/
theorem step_iff_of_le (hle : low ≤ high) : g.Step low tokens p m q ↔
    g.Step high tokens p m q ∧ (m.edge ≠ .symbol → p.depth < low) := by
  constructor
  · intro h
    cases h with
    | epsilon hmem hin hd => exact ⟨.epsilon hmem hin (Nat.lt_of_lt_of_le hd hle), fun _ => hd⟩
    | flag hmem hin ho hr hd => exact ⟨.flag hmem hin ho hr (Nat.lt_of_lt_of_le hd hle), fun _ => hd⟩
    | symbol hs hmem => exact ⟨.symbol hs hmem, fun h => absurd rfl h⟩
  · rintro ⟨h, hd⟩
    cases h with
    | epsilon hmem hin _ => exact .epsilon hmem hin (hd Edge.noConfusion)
    | flag hmem hin ho hr _ => exact .flag hmem hin ho hr (hd Edge.noConfusion)
    | symbol hs hmem => exact .symbol hs hmem

theorem spaced_cons_iff_of_step (h : g.Step high tokens p m q) :
    spaced low p.depth (m :: ms) = true ↔
      (m.edge ≠ .symbol → p.depth < low) ∧ spaced low q.depth ms = true := by
  rw [step_depth h]
  by_cases hm : m.edge = .symbol
  · rw [spaced_cons_of_symbol hm, if_pos hm]
    exact (and_iff_right fun hne => absurd hm hne).symm
  · rw [spaced_cons_of_silent hm, if_neg hm]
    exact and_congr_left' (imp_iff_right hm).symm

theorem path_iff_of_le (hle : low ≤ high) : Path (g.Step low tokens) p ms q ↔
    Path (g.Step high tokens) p ms q ∧ spaced low p.depth ms = true := by
  induction ms generalizing p with
  | nil =>
    rw [path_nil_iff, path_nil_iff]
    exact (and_iff_left rfl).symm
  | cons m ms ih =>
    rw [path_cons_iff, path_cons_iff]
    constructor
    · rintro ⟨r, hstep, hpath⟩
      obtain ⟨hstep, hd⟩ := (step_iff_of_le hle).1 hstep
      obtain ⟨hpath, hspaced⟩ := ih.1 hpath
      exact ⟨⟨r, hstep, hpath⟩, (spaced_cons_iff_of_step hstep).2 ⟨hd, hspaced⟩⟩
    · rintro ⟨⟨r, hstep, hpath⟩, hspaced⟩
      obtain ⟨hd, hspaced⟩ := (spaced_cons_iff_of_step hstep).1 hspaced
      exact ⟨r, (step_iff_of_le hle).2 ⟨hstep, hd⟩, ih.2 ⟨hpath, hspaced⟩⟩

theorem accepts_iff_of_le (hle : low ≤ high) {a : Analysis} : g.Accepts low tokens ms a ↔
    g.Accepts high tokens ms a ∧ spaced low 0 ms = true := by
  have hroot : (g.root).depth = 0 := rfl
  constructor
  · rintro ⟨q, w, hpath, hend⟩
    rw [path_iff_of_le hle, hroot] at hpath
    exact ⟨⟨q, w, hpath.1, hend⟩, hpath.2⟩
  · rintro ⟨⟨q, w, hpath, hend⟩, hspaced⟩
    exact ⟨q, w, (path_iff_of_le hle).2 ⟨hpath, hspaced⟩, hend⟩

/-! ## All paths -/

theorem enumerates_explore_root (hg : g.Numbered) :
    Enumerates (g.Accepts maxDepth tokens) (g.explore maxDepth tokens g.root) :=
  ⟨fun _ _ => mem_explore_iff (Nat.zero_le _), pairwise_explore hg _⟩

/-- Under a lower limit there are the paths that keep to it, in the same order. -/
theorem explore_eq_filter (hg : g.Numbered) (hle : low ≤ high) : g.explore low tokens g.root =
    (g.explore high tokens g.root).filter fun x => spaced low 0 x.1 := by
  have hhigh : Enumerates (g.Accepts high tokens) _ := enumerates_explore_root hg
  refine (enumerates_explore_root hg).unique ⟨fun ms a => ?_, hhigh.pairwise.filter _⟩
  rw [List.mem_filter, hhigh.mem_iff, accepts_iff_of_le hle]

end Graph

end TransducerLookup
