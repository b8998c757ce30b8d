import TransducerLookup.Proofs.Checked.History
import TransducerLookup.Proofs.Search.Resources

/-!
# The limit on turns

A turn finds at most one analysis (`State.finds?`), and what has been found is
never given up. So a run has found what its turns found, one after the other
(`found_run_eq`), and a lookup with a lower limit on turns has a beginning of
the analyses that it has with a higher one.
-/

namespace TransducerLookup.Search

variable {t : Transducer} {s : State}

/-! ## Turns -/

/-- The analysis that the next turn finds: that of the current path, if it ends here. -/
def State.finds? (t : Transducer) (s : State) : Option Analysis :=
  match s.frames with
  | [] => none
  | frame :: _ =>
    if frame.phase = .arrive ∧ s.currentSymbol = noSymbol then
      (t.finalWeight? frame.address).map (s.analysis t)
    else none

theorem finds?_eq_some {a : Analysis} (h : s.finds? t = some a) : ∃ w, a = s.analysis t w := by
  unfold State.finds? at h
  split at h
  · cases h
  · split at h
    · obtain ⟨w, -, rfl⟩ := Option.map_eq_some_iff.1 h
      exact ⟨w, rfl⟩
    · cases h

section Turn

variable {f : Frame} {below : List Frame}

theorem finds?_of_phase_ne (hframes : s.frames = f :: below) (h : f.phase ≠ .arrive) :
    s.finds? t = none := by
  rw [State.finds?, hframes]
  exact if_neg fun h' => h h'.1

theorem found_tryEpsilon (pos : Nat) : (s.tryEpsilon t f below pos).found = s.found := by
  unfold State.tryEpsilon
  dsimp only
  split
  · split <;> rfl
  · split
    · rfl
    · split
      · split
        · rfl
        · next pushed hpushed =>
          obtain ⟨flags, -, rfl⟩ := Option.map_eq_some_iff.1 hpushed
          rfl
      · rfl

theorem found_arrive (hframes : s.frames = f :: below) (hphase : f.phase = .arrive) :
    (s.arrive t f below).found = (s.finds? t).toList ++ s.found := by
  rw [State.finds?, hframes]
  unfold State.arrive
  by_cases hsymbol : s.currentSymbol = noSymbol
  · simp only [hphase, hsymbol, and_self, if_true]
    cases t.finalWeight? f.address <;> rfl
  · simp only [hsymbol, and_false, if_false]
    rfl

theorem found_tryConsume (pos : Nat) : (s.tryConsume t f below pos).found = s.found := by
  unfold State.tryConsume
  split <;> rfl

theorem found_leave : (s.leave f below).found = s.found := by
  unfold State.leave
  split <;> rfl

end Turn

theorem found_of_turn {next : State} (h : s.turn t = some next) :
    next.found = (s.finds? t).toList ++ s.found := by
  unfold State.turn at h
  split at h
  · cases h
  · next f below hframes =>
    -- Only a frame that arrives finds anything.
    split at h <;> obtain rfl := Option.some.inj h
    · next hphase =>
      rw [found_tryEpsilon, finds?_of_phase_ne hframes (by simp [hphase])]
      rfl
    · next hphase => exact found_arrive hframes hphase
    · next hphase =>
      rw [found_tryConsume, finds?_of_phase_ne hframes (by simp [hphase])]
      rfl
    · next hphase =>
      rw [found_leave, finds?_of_phase_ne hframes (by simp [hphase])]
      rfl

/-! ## Runs -/

/-- What is found from this state on, in order, in so many turns. -/
def finds (t : Transducer) (s : State) (turns : Nat) : List Analysis :=
  (List.range turns).filterMap fun i => (run t i s).finds? t

theorem finds_succ (t : Transducer) (s : State) (turns : Nat) :
    finds t s (turns + 1) = finds t s turns ++ ((run t turns s).finds? t).toList := by
  unfold finds
  rw [List.range_succ, List.filterMap_append]
  cases h : (run t turns s).finds? t <;> simp [h]

theorem found_run_eq (t : Transducer) (s : State) (turns : Nat) :
    (run t turns s).found = (finds t s turns).reverse ++ s.found := by
  induction turns with
  | zero => rfl
  | succ turns ih =>
    rw [run_add, finds_succ, List.reverse_append, List.append_assoc, ← ih]
    cases hturn : (run t turns s).turn t with
    | none =>
      have hnone : (run t turns s).finds? t = none := by
        rw [State.finds?, turn_eq_none_iff.1 hturn]
      rw [run_of_turn_eq_none hturn, hnone]
      rfl
    | some next =>
      rw [run_succ_of_turn_eq_some hturn, run, found_of_turn hturn]
      cases (run t turns s).finds? t <;> rfl

theorem reverse_found_run_begin (t : Transducer) (tokens : List SymbolId) (turns : Nat) :
    (run t turns (begin t tokens)).found.reverse = finds t (begin t tokens) turns := by
  rw [found_run_eq, show (begin t tokens).found = [] from rfl, List.append_nil,
    List.reverse_reverse]

/-- A lookup finds what the turns find that it is allowed. -/
theorem analyze_eq_finds {text : String} {tokens : List SymbolId}
    (htokens : t.tokenize text = some tokens) :
    t.analyze text = finds t (begin t tokens) t.limits.maxSteps := by
  rw [Transducer.analyze_of_tokenize htokens, reverse_found_run_begin]

theorem finds_prefix (t : Transducer) (s : State) {m n : Nat} (h : m ≤ n) :
    finds t s m <+: finds t s n := by
  have hrange : List.range m <+: List.range n := by
    have htake := List.take_prefix m (List.range n)
    rwa [List.take_range, Nat.min_eq_left h] at htake
  exact hrange.filterMap _

/-! ## Runs of two transducers -/

/-- Transducers with the same turns have the same runs. -/
theorem run_congr {u : Transducer} (h : ∀ s : State, s.turn t = s.turn u) (turns : Nat)
    (s : State) : run t turns s = run u turns s := by
  induction turns generalizing s with
  | zero => rfl
  | succ turns ih =>
    rw [run, run, h]
    cases s.turn u with
    | none => rfl
    | some next => exact ih next

/-- Transducers that start alike and go on alike find the same analyses. -/
theorem analyze_congr {u : Transducer} {text : String} (htokens : t.tokenize text = u.tokenize text)
    (hbegin : begin t = begin u) (hturn : ∀ s : State, s.turn t = s.turn u)
    (hlimit : t.limits.maxSteps = u.limits.maxSteps) : t.analyze text = u.analyze text := by
  unfold Transducer.analyze Transducer.analyzeWith
  rw [htokens, hbegin, hlimit]
  cases u.tokenize text with
  | none => rfl
  | some tokens => exact congrArg (·.found.reverse) (run_congr hturn _ _)

/-! ## Limits -/

theorem run_withLimits (t : Transducer) (limits : Limits) (m turns : Nat) (s : State) :
    run (t.withLimits { limits with maxSteps := m }) turns s =
      run (t.withLimits limits) turns s := by
  have hturn (s : State) : s.turn (t.withLimits { limits with maxSteps := m }) =
      s.turn (t.withLimits limits) := rfl
  exact run_congr hturn turns s

theorem analyze_withLimits_eq_finds {limits : Limits} {text : String} {tokens : List SymbolId}
    (htokens : t.tokenize text = some tokens) (m : Nat) :
    (t.withLimits { limits with maxSteps := m }).analyze text =
      finds (t.withLimits limits) (begin t tokens) m := by
  have htokens' : (t.withLimits { limits with maxSteps := m }).tokenize text = some tokens :=
    htokens
  rw [analyze_eq_finds htokens']
  simp only [finds, run_withLimits]
  rfl

theorem analyze_prefix (t : Transducer) (limits : Limits) (text : String) {m n : Nat} (h : m ≤ n) :
    (t.withLimits { limits with maxSteps := m }).analyze text <+:
      (t.withLimits { limits with maxSteps := n }).analyze text := by
  cases htokens : t.tokenize text with
  | none =>
    have hnone : (t.withLimits { limits with maxSteps := m }).tokenize text = none := htokens
    rw [Transducer.analyze_of_tokenize_eq_none hnone]
    exact List.nil_prefix
  | some tokens =>
    rw [analyze_withLimits_eq_finds htokens, analyze_withLimits_eq_finds htokens]
    exact finds_prefix _ _ h

/-- On a fresh state, the search with its counter in a word returns the same analyses. -/
theorem exists_lookup_fresh (ht : Checked.Loaded t) (text : String) :
    ∃ s, Checked.State.fresh.lookup t text = .ok (t.analyze text, s) := by
  obtain ⟨flags, hok, -⟩ := ht.lookup_follows Checked.represents_fresh text
  exact ⟨_, hok⟩

/-- The limit on turns only truncates. A lower limit leaves a beginning of the analyses. From the
number of turns of the whole search on, there are those of all accepting paths, and under any
limit those that so many turns find. The loop that counts its turns in a word of 64 bits does the
same. -/
theorem truncates_of_load {file : Stream} {t : Transducer} (hload : Transducer.load file = .ok t)
    (limits : Limits) (text : String) :
    (∀ m n, m ≤ n → (t.withLimits { limits with maxSteps := m }).analyze text <+:
      (t.withLimits { limits with maxSteps := n }).analyze text) ∧
    (∀ tokens, t.tokenize text = some tokens → ∃ total paths,
      (∀ turns, (run (t.withLimits limits) turns (begin t tokens)).frames = [] ↔ total ≤ turns) ∧
      Enumerates ((t.withLimits limits).Accepts tokens) paths ∧
      (∀ m, total ≤ m →
        (t.withLimits { limits with maxSteps := m }).analyze text = paths.map (·.2)) ∧
      ∀ m, (t.withLimits { limits with maxSteps := m }).analyze text =
        finds (t.withLimits limits) (begin t tokens) m) ∧
    ∀ m, limits.maxEpsilonDepth < 2 ^ 64 → m < 2 ^ 64 - 1 → ∃ s,
      Checked.State.fresh.lookup (t.withLimits { limits with maxSteps := m }) text =
        .ok ((t.withLimits { limits with maxSteps := m }).analyze text, s) := by
  have ht := Transducer.wellFormed_of_load hload
  refine ⟨fun m n h => analyze_prefix t limits text h, fun tokens htokens => ?_,
    fun m hdepth hlimit => exists_lookup_fresh
      (@Checked.Loaded.withLimits file t { limits with maxSteps := m } hload hdepth hlimit) text⟩
  have hno := Transducer.noSymbol_notMem_tokenize htokens
  obtain ⟨total, htotal⟩ := exists_turns (ht.withLimits limits) hno
  refine ⟨total, _, htotal, (ht.withLimits limits).enumerates_explore hno, fun m hm => ?_,
    analyze_withLimits_eq_finds htokens⟩
  rw [analyze_withLimits_eq_finds htokens m]
  exact (reverse_found_run_begin (t.withLimits limits) tokens m).symm.trans
    (found_run (ht.withLimits limits) hno ((htotal m).2 hm))

/-- The small file, with a limit of one silent move in a row. Its search on one token takes 17
turns, of which the sixth finds the first analysis. -/
theorem truncates_of_load_small :
    Transducer.load (.ofBytes Transducer.smallFile) = .ok Transducer.small ∧
    (Transducer.small.withLimits ⟨1, 6⟩).analyze "a" = [⟨["a"], .one⟩] ∧
    (Transducer.small.withLimits ⟨1, 6⟩).analyze "a" <+:
      (Transducer.small.withLimits ⟨1, 17⟩).analyze "a" ∧
    ∃ paths, Enumerates ((Transducer.small.withLimits ⟨1, 100⟩).Accepts [1]) paths ∧
      (Transducer.small.withLimits ⟨1, 17⟩).analyze "a" = paths.map (·.2) := by
  obtain ⟨hcut, hturns, -⟩ := truncates_of_load Transducer.ofBytes_smallFile ⟨1, 100⟩ "a"
  have htokens : Transducer.small.tokenize "a" = some [1] := by decide +kernel
  obtain ⟨total, paths, htotal, hpaths, hcomplete, -⟩ := hturns [1] htokens
  have hend : (run (Transducer.small.withLimits ⟨1, 100⟩) 17
      (begin Transducer.small [1])).frames = [] := by decide +kernel
  exact ⟨Transducer.ofBytes_smallFile, by decide +kernel, hcut 6 17 (by decide), paths, hpaths,
    hcomplete 17 ((htotal 17).1 hend)⟩

end TransducerLookup.Search
