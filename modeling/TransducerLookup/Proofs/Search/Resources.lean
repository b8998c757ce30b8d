import Mathlib.Data.Nat.Find
import TransducerLookup.Proofs.Checked.Simulation
import TransducerLookup.Proofs.Search.PathEnumeration

/-!
# What a lookup takes

The limit on silent transitions in a row is enough to bound a search over any
tables. Between two tokens a path makes no more silent moves than the limit
allows (`Trail.silentCount_le`), which bounds the frames, the output and the
flag rows at every turn, and the search ends after some number of turns
(`exists_turns`). The limit on turns only cuts it earlier.
-/

namespace TransducerLookup.Search

variable {t : Transducer} {tokens : List SymbolId}

/-! ## Space -/

/-- The transition into this frame read no input. -/
def Frame.isSilent (f : Frame) : Bool := f.edge.any (· ≠ .symbol)

def silentCount (frames : List Frame) : Nat := frames.countP Frame.isSilent

theorem silentCount_cons {f : Frame} {edge : Edge} (h : f.edge = some edge) (below : List Frame) :
    silentCount (f :: below) = silentCount below + if edge = .symbol then 0 else 1 := by
  rw [silentCount, List.countP_cons, Frame.isSilent, h]
  cases edge <;> rfl

namespace Trail

variable {frames : List Frame} {output : List (SymbolId × Weight)} {cursor : Nat}
  {rows : List Flag.Row} {f : Frame}

theorem length_frames (h : Trail t tokens frames output cursor rows) :
    frames.length = 1 + cursor + silentCount frames := by
  induction h with
  | root _ he _ => simp [silentCount, Frame.isSilent, he]
  | epsilon _ _ he _ _ ih =>
    rw [List.length_cons, ih, silentCount_cons he, if_neg Edge.noConfusion, Nat.add_assoc]
  | flag _ _ he _ _ _ _ ih =>
    rw [List.length_cons, ih, silentCount_cons he, if_neg Edge.noConfusion, Nat.add_assoc]
  | symbol _ _ he _ ih =>
    rw [List.length_cons, ih, silentCount_cons he, if_pos rfl]
    omega

/-- Each token read makes room for as many silent transitions as may follow each other; those
since the last one are counted by the last frame. -/
theorem silentCount_le (h : Trail t tokens frames output cursor rows)
    (hf : frames.head? = some f) :
    silentCount frames ≤ cursor * t.limits.maxEpsilonDepth + f.epsilonDepth := by
  induction h generalizing f with
  | root _ he _ => simp [silentCount, Frame.isSilent, he]
  | epsilon _ _ he hd _ ih =>
    obtain rfl := Option.some.inj hf
    rw [silentCount_cons he, if_neg Edge.noConfusion, hd]
    exact Nat.succ_le_succ (ih rfl)
  | flag _ _ he _ _ hd _ ih =>
    obtain rfl := Option.some.inj hf
    rw [silentCount_cons he, if_neg Edge.noConfusion, hd]
    exact Nat.succ_le_succ (ih rfl)
  | symbol h _ he _ ih =>
    obtain rfl := Option.some.inj hf
    have hparent := ih rfl
    have hdepth := (h.depth 0 rfl).2
    rw [silentCount_cons he, if_pos rfl, Nat.succ_mul]
    omega

end Trail

/-- Bounds on a state by the number of tokens and the limit on silent transitions in a row. -/
structure State.Within (s : State) (tokens maxEpsilonDepth : Nat) : Prop where
  frames : s.frames.length ≤ 1 + tokens + (tokens + 1) * maxEpsilonDepth
  output : s.output.length ≤ tokens + (tokens + 1) * maxEpsilonDepth
  flags : s.flags.depth ≤ 1 + (tokens + 1) * maxEpsilonDepth

theorem OnTrail.within {s : State} (h : OnTrail t tokens s) :
    s.Within tokens.length t.limits.maxEpsilonDepth := by
  cases hframes : s.frames with
  | nil =>
    obtain ⟨-, houtput, hflags⟩ := h.ended hframes
    constructor
    · rw [hframes]; exact Nat.zero_le _
    · rw [houtput]; exact Nat.zero_le _
    · rw [hflags]; exact Nat.le_add_right 1 _
  | cons f below =>
    have htrail := h.trail f below hframes
    have hlength := htrail.length_frames
    have houtput := htrail.length_output
    have hrows : s.flags.depth = _ := htrail.length_rows
    have hsilent := htrail.silentCount_le rfl
    have hcursor := Nat.mul_le_mul_right t.limits.maxEpsilonDepth htrail.cursor_le
    have hle := htrail.cursor_le
    have hdepth := (htrail.depth 0 rfl).2
    have hflag : (f :: below).countP (·.edge = some .flag) ≤
        silentCount (f :: below) := by
      refine List.countP_mono_left fun f' _ hedge => ?_
      simp [Frame.isSilent, of_decide_eq_true hedge]
    rw [← hframes] at hlength houtput hsilent hrows hflag
    constructor <;> rw [Nat.succ_mul] <;> omega

/-! ## Time -/

/-- The number of turns after which no frame is left. -/
theorem exists_turns (ht : t.WellFormed) (htokens : noSymbol ∉ tokens) :
    ∃ total, ∀ turns, (run t turns (begin t tokens)).frames = [] ↔ total ≤ turns := by
  have hends : ∃ turns, (run t turns (begin t tokens)).frames = [] := by
    obtain ⟨turns, hturns⟩ := reaches_end ht htokens
    exact ⟨turns, by rw [hturns]; rfl⟩
  refine ⟨Nat.find hends, fun turns => ⟨fun h => Nat.find_min' hends h, fun h => ?_⟩⟩
  obtain ⟨more, rfl⟩ := Nat.exists_eq_add_of_le h
  rw [run_add, run_of_turn_eq_none (turn_eq_none_iff.2 (Nat.find_spec hends))]
  exact Nat.find_spec hends

theorem run_eq_run_min {total : Nat}
    (htotal : ∀ turns, (run t turns (begin t tokens)).frames = [] ↔ total ≤ turns) (turns : Nat) :
    run t turns (begin t tokens) = run t (min total turns) (begin t tokens) := by
  rcases Nat.le_total total turns with h | h
  · rw [Nat.min_eq_left h]
    exact run_eq_of_frames_eq_nil ((htotal turns).2 h) ((htotal total).2 (Nat.le_refl _))
  · rw [Nat.min_eq_right h]

/-- The limit on silent transitions alone makes every search end, and bounds its state at every
turn. A lookup takes the turns of the whole search, or as many as its limit on turns says, and so
does the loop that counts them in a word of 64 bits. -/
theorem bounds_of_load {file : Stream} {t : Transducer} (hload : Transducer.load file = .ok t)
    (limits : Limits) {text : String} {tokens : List SymbolId}
    (htokens : (t.withLimits limits).tokenize text = some tokens) :
    (∀ turns, (run (t.withLimits limits) turns (begin (t.withLimits limits) tokens)).Within
      tokens.length limits.maxEpsilonDepth) ∧
    ∃ total, (∀ turns, (run (t.withLimits limits) turns
        (begin (t.withLimits limits) tokens)).frames = [] ↔ total ≤ turns) ∧
      (t.withLimits limits).analyze text = (run (t.withLimits limits) (min total limits.maxSteps)
        (begin (t.withLimits limits) tokens)).found.reverse ∧
      (limits.maxEpsilonDepth < 2 ^ 64 → limits.maxSteps < 2 ^ 64 - 1 →
        Checked.Follows (Checked.State.loop (t.withLimits limits) 0 (.ofSearch
            (begin (t.withLimits limits) tokens) (.start t.alphabet.featureCount)))
          (run (t.withLimits limits) (min total limits.maxSteps)
            (begin (t.withLimits limits) tokens))) := by
  have ht := (Transducer.wellFormed_of_load hload).withLimits limits
  have htrail := OnTrail.begin (t.withLimits limits) tokens
  obtain ⟨total, htotal⟩ := exists_turns ht (Transducer.noSymbol_notMem_tokenize htokens)
  have hrun : run (t.withLimits limits) limits.maxSteps (begin (t.withLimits limits) tokens) = _ :=
    run_eq_run_min htotal limits.maxSteps
  refine ⟨fun turns => (htrail.run turns).within, total, htotal, ?_, fun hdepth hlimit => ?_⟩
  · rw [Transducer.analyze_of_tokenize htokens, ← hrun]
    rfl
  · rw [← hrun]
    exact Checked.loop_follows ht hdepth hlimit htrail (inBounds_begin _ tokens)
      (Checked.FlatStack.represents_start _) (Nat.zero_add limits.maxSteps)

/-- The small file on one token, with a limit of one silent move in a row: never more than four
frames, three outputs and three flag rows. -/
theorem bounds_of_load_small :
    Transducer.load (.ofBytes Transducer.smallFile) = .ok Transducer.small ∧
    (Transducer.small.withLimits ⟨1, 100⟩).tokenize "a" = some [1] ∧
    (∀ turns, (run (Transducer.small.withLimits ⟨1, 100⟩) turns
      (begin (Transducer.small.withLimits ⟨1, 100⟩) [1])).Within 1 1) ∧
    ∃ total, (∀ turns, (run (Transducer.small.withLimits ⟨1, 100⟩) turns
        (begin (Transducer.small.withLimits ⟨1, 100⟩) [1])).frames = [] ↔ total ≤ turns) ∧
      Checked.Follows (Checked.State.loop (Transducer.small.withLimits ⟨1, 100⟩) 0 (.ofSearch
          (begin (Transducer.small.withLimits ⟨1, 100⟩) [1]) (.start 1)))
        (run (Transducer.small.withLimits ⟨1, 100⟩) (min total 100)
          (begin (Transducer.small.withLimits ⟨1, 100⟩) [1])) := by
  obtain ⟨hwithin, total, htotal, -, hloop⟩ :=
    bounds_of_load Transducer.ofBytes_smallFile ⟨1, 100⟩ Transducer.tokenize_small
  have hfeatures : Transducer.small.alphabet.featureCount = 1 := by decide +kernel
  rw [hfeatures] at hloop
  exact ⟨Transducer.ofBytes_smallFile, Transducer.tokenize_small, hwithin, total, htotal,
    hloop (by decide) (by decide)⟩

end TransducerLookup.Search
