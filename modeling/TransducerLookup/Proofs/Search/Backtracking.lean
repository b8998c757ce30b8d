import TransducerLookup.Proofs.Table.Path
import TransducerLookup.Search.Run

/-!
# Backtracking

At every turn of a search the cursor, the output and the flags describe the
path that the frames spell (`Backtracks`), so that going back from the last
frame restores what the frame below it had. `Trail` says it by recursion on
the frames, and every turn preserves it.
-/

namespace TransducerLookup.Search

variable {t : Transducer} {tokens : List SymbolId}

/-! ## How frames follow each other -/

/-- The transition in this cell, just before the scan position of the first frame, led to the
second one. The cursor is that of the first frame. -/
inductive Entered (t : Transducer) (tokens : List SymbolId) (cursor : Nat) (parent child : Frame)
    (pos : Nat) : Prop where
  | epsilon : parent.phase = .epsilon (pos + 1) → child.edge = some .epsilon →
      t.transitions.input pos = epsilonId →
      child.address = .ofTarget (t.transitions.target pos) → Entered t tokens cursor parent child pos
  | flag {o : Flag.Operation} : parent.phase = .epsilon (pos + 1) → child.edge = some .flag →
      t.transitions.input pos ≠ epsilonId → t.operation? (t.transitions.input pos) = some o →
      child.address = .ofTarget (t.transitions.target pos) → Entered t tokens cursor parent child pos
  | symbol : parent.phase = .consume (pos + 1) → child.edge = some .symbol →
      tokens[cursor]? = some (t.transitions.input pos) → t.transitions.input pos ≠ noSymbol →
      child.address = .ofTarget (t.transitions.target pos) → Entered t tokens cursor parent child pos

/-- The cell just before the scan position. -/
def Frame.cell? (f : Frame) : Option Nat :=
  match f.phase with
  | .epsilon (pos + 1) => some pos
  | .consume (pos + 1) => some pos
  | _ => none

/-- The flags on the path that the frames spell, first first. -/
def operations (t : Transducer) : List Frame → List Flag.Operation
  | child :: parent :: below =>
    operations t (parent :: below) ++
      if child.edge = some .flag then
        (parent.cell?.bind fun pos => t.operation? (t.transitions.input pos)).toList
      else []
  | _ => []

/-- How many transitions without input led to the last frame since the last with input. -/
def silentDepth (frames : List Frame) : Nat :=
  ((frames.filterMap (·.edge)).takeWhile (· ≠ .symbol)).length

/-- Cursor, output and flags are those of the path that the frames spell. -/
structure Backtracks (t : Transducer) (tokens : List SymbolId) (s : State) : Prop where
  bottom : ∃ root, s.frames.getLast? = some root ∧ root.address = .index 0 ∧ root.edge = none
  edge : ∀ f ∈ s.frames.dropLast, f.edge.isSome
  output : s.output.length + 1 = s.frames.length
  cursor : s.cursor = s.frames.countP (·.edge = some .symbol)
  cursor_lt : s.cursor < s.input.size
  flag_depth : s.flags.depth = 1 + s.frames.countP (·.edge = some .flag)
  neutral : s.flags.rows.getLast? = some (.neutral t.alphabet.featureCount)
  entered : ∀ i child parent, s.frames[i]? = some child → s.frames[i + 1]? = some parent →
    ∃ pos, Entered t tokens ((s.frames.drop (i + 1)).countP (·.edge = some .symbol)) parent child pos ∧
      s.output[i]? = some (t.transitions.output pos, t.transitions.weight pos)
  flags : (operations t s.frames).foldlM Flag.Row.after? (.neutral t.alphabet.featureCount) =
    some s.flags.top
  depth : ∀ i f, s.frames[i]? = some f →
    f.epsilonDepth = silentDepth (s.frames.drop i) ∧ f.epsilonDepth ≤ t.limits.maxEpsilonDepth

/-! ## Trails -/

/-- Frames, last first, with the output, the cursor and the flag rows of the path they spell. -/
inductive Trail (t : Transducer) (tokens : List SymbolId) :
    List Frame → List (SymbolId × Weight) → Nat → List Flag.Row → Prop where
  | root {f : Frame} : f.address = .index 0 → f.edge = none → f.epsilonDepth = 0 →
      Trail t tokens [f] [] 0 [.neutral t.alphabet.featureCount]
  | epsilon {child parent : Frame} {below : List Frame} {output : List (SymbolId × Weight)}
      {cursor pos : Nat} {rows : List Flag.Row} : Trail t tokens (parent :: below) output cursor rows →
      Entered t tokens cursor parent child pos → child.edge = some .epsilon →
      child.epsilonDepth = parent.epsilonDepth + 1 →
      child.epsilonDepth ≤ t.limits.maxEpsilonDepth →
      Trail t tokens (child :: parent :: below)
        ((t.transitions.output pos, t.transitions.weight pos) :: output) cursor rows
  | flag {child parent : Frame} {below : List Frame} {output : List (SymbolId × Weight)}
      {cursor pos : Nat} {row row' : Flag.Row} {rows : List Flag.Row} {o : Flag.Operation} :
      Trail t tokens (parent :: below) output cursor (row :: rows) →
      Entered t tokens cursor parent child pos → child.edge = some .flag →
      t.operation? (t.transitions.input pos) = some o → row.after? o = some row' →
      child.epsilonDepth = parent.epsilonDepth + 1 →
      child.epsilonDepth ≤ t.limits.maxEpsilonDepth →
      Trail t tokens (child :: parent :: below)
        ((t.transitions.output pos, t.transitions.weight pos) :: output) cursor (row' :: row :: rows)
  | symbol {child parent : Frame} {below : List Frame} {output : List (SymbolId × Weight)}
      {cursor pos : Nat} {rows : List Flag.Row} : Trail t tokens (parent :: below) output cursor rows →
      Entered t tokens cursor parent child pos → child.edge = some .symbol →
      child.epsilonDepth = 0 →
      Trail t tokens (child :: parent :: below)
        ((t.transitions.output pos, t.transitions.weight pos) :: output) (cursor + 1) rows

namespace Trail

variable {frames : List Frame} {output : List (SymbolId × Weight)} {cursor : Nat}
  {rows : List Flag.Row}

theorem setPhase {f : Frame} {below : List Frame} (h : Trail t tokens (f :: below) output cursor rows)
    (phase : Phase) : Trail t tokens ({ f with phase } :: below) output cursor rows := by
  have henter {parent : Frame} {cursor pos : Nat} (h : Entered t tokens cursor parent f pos) :
      Entered t tokens cursor parent { f with phase } pos := by
    cases h with
    | epsilon hp he hin ha => exact .epsilon hp he hin ha
    | flag hp he hin ho ha => exact .flag hp he hin ho ha
    | symbol hp he hs hin ha => exact .symbol hp he hs hin ha
  cases h with
  | root ha he hd => exact .root ha he hd
  | epsilon h hin he hd hle => exact .epsilon h (henter hin) he hd hle
  | flag h hin he ho hr hd hle => exact .flag h (henter hin) he ho hr hd hle
  | symbol h hin he hd => exact .symbol h (henter hin) he hd

theorem bottom (h : Trail t tokens frames output cursor rows) :
    ∃ root, frames.getLast? = some root ∧ root.address = .index 0 ∧ root.edge = none := by
  induction h with
  | root ha he _ => exact ⟨_, rfl, ha, he⟩
  | epsilon _ _ _ _ _ ih => simpa using ih
  | flag _ _ _ _ _ _ _ ih => simpa using ih
  | symbol _ _ _ _ ih => simpa using ih

theorem edge (h : Trail t tokens frames output cursor rows) :
    ∀ f ∈ frames.dropLast, f.edge.isSome := by
  induction h with
  | root => simp
  | epsilon _ _ he _ _ ih => simpa [he] using ih
  | flag _ _ he _ _ _ _ ih => simpa [he] using ih
  | symbol _ _ he _ ih => simpa [he] using ih

theorem length_output (h : Trail t tokens frames output cursor rows) :
    output.length + 1 = frames.length := by
  induction h with
  | root => rfl
  | epsilon _ _ _ _ _ ih => simpa using ih
  | flag _ _ _ _ _ _ _ ih => simpa using ih
  | symbol _ _ _ _ ih => simpa using ih

theorem cursor_eq (h : Trail t tokens frames output cursor rows) :
    cursor = frames.countP (·.edge = some .symbol) := by
  induction h with
  | root _ he _ => simp [he]
  | epsilon _ _ he _ _ ih => rw [ih]; simp [List.countP_cons, he]
  | flag _ _ he _ _ _ _ ih => rw [ih]; simp [List.countP_cons, he]
  | symbol _ _ he _ ih => rw [ih]; simp [List.countP_cons, he]

theorem cursor_le (h : Trail t tokens frames output cursor rows) : cursor ≤ tokens.length := by
  induction h with
  | root => exact Nat.zero_le _
  | epsilon _ _ _ _ _ ih => exact ih
  | flag _ _ _ _ _ _ _ ih => exact ih
  | symbol _ hin he _ _ =>
    cases hin with
    | epsilon _ he' => rw [he] at he'; cases he'
    | flag _ he' => rw [he] at he'; cases he'
    | symbol _ _ hs => exact (List.getElem?_eq_some_iff.1 hs).1

theorem length_rows (h : Trail t tokens frames output cursor rows) :
    rows.length = 1 + frames.countP (·.edge = some .flag) := by
  induction h with
  | root _ he _ => simp [he]
  | epsilon _ _ he _ _ ih => simp [List.countP_cons, he, ih]
  | flag _ _ he _ _ _ _ ih => simp [List.countP_cons, he] at ih ⊢; omega
  | symbol _ _ he _ ih => simp [List.countP_cons, he, ih]

theorem neutral (h : Trail t tokens frames output cursor rows) :
    rows.getLast? = some (.neutral t.alphabet.featureCount) := by
  induction h with
  | root => rfl
  | epsilon _ _ _ _ _ ih => exact ih
  | flag _ _ _ _ _ _ _ ih => simpa using ih
  | symbol _ _ _ _ ih => exact ih

theorem flags (h : Trail t tokens frames output cursor rows) :
    (operations t frames).foldlM Flag.Row.after? (.neutral t.alphabet.featureCount) =
      rows.head? := by
  induction h with
  | root => rfl
  | epsilon _ _ he _ _ ih => simpa [operations, he] using ih
  | flag _ hin he ho hr _ _ ih =>
    cases hin with
    | epsilon _ he' => rw [he] at he'; cases he'
    | symbol _ he' => rw [he] at he'; cases he'
    | flag hp =>
      simp [operations, he, Frame.cell?, hp, ho, List.foldlM_append, ih, hr]
  | symbol _ _ he _ ih => simpa [operations, he] using ih

theorem entered (h : Trail t tokens frames output cursor rows) (i : Nat) {child parent : Frame}
    (hchild : frames[i]? = some child) (hparent : frames[i + 1]? = some parent) :
    ∃ pos, Entered t tokens ((frames.drop (i + 1)).countP (·.edge = some .symbol)) parent child pos ∧
      output[i]? = some (t.transitions.output pos, t.transitions.weight pos) := by
  induction h generalizing i with
  | root => simp at hparent
  | epsilon h hin _ _ _ ih =>
    cases i with
    | zero =>
      cases hchild; cases hparent
      exact ⟨_, h.cursor_eq ▸ hin, rfl⟩
    | succ i => exact ih i hchild hparent
  | flag h hin _ _ _ _ _ ih =>
    cases i with
    | zero =>
      cases hchild; cases hparent
      exact ⟨_, h.cursor_eq ▸ hin, rfl⟩
    | succ i => exact ih i hchild hparent
  | symbol h hin _ _ ih =>
    cases i with
    | zero =>
      cases hchild; cases hparent
      exact ⟨_, h.cursor_eq ▸ hin, rfl⟩
    | succ i => exact ih i hchild hparent

theorem depth (h : Trail t tokens frames output cursor rows) (i : Nat) {f : Frame}
    (hf : frames[i]? = some f) : f.epsilonDepth = silentDepth (frames.drop i) ∧
      f.epsilonDepth ≤ t.limits.maxEpsilonDepth := by
  induction h generalizing i f with
  | root _ he hd =>
    cases i with
    | zero => cases hf; rw [hd]; exact ⟨by simp [silentDepth, he], Nat.zero_le _⟩
    | succ i => simp at hf
  | epsilon _ _ he hd hle ih =>
    cases i with
    | zero =>
      cases hf
      refine ⟨?_, hle⟩
      rw [hd, (ih 0 rfl).1]
      simp [silentDepth, he]
    | succ i => exact ih i hf
  | flag _ _ he _ _ hd hle ih =>
    cases i with
    | zero =>
      cases hf
      refine ⟨?_, hle⟩
      rw [hd, (ih 0 rfl).1]
      simp [silentDepth, he]
    | succ i => exact ih i hf
  | symbol _ _ he hd ih =>
    cases i with
    | zero =>
      cases hf
      rw [hd]
      exact ⟨by simp [silentDepth, he], Nat.zero_le _⟩
    | succ i => exact ih i hf

end Trail

/-! ## Turns -/

/-- A state on a trail, or at the end of its search with everything undone. -/
structure OnTrail (t : Transducer) (tokens : List SymbolId) (s : State) : Prop where
  input : s.input = tokens.toArray.push noSymbol
  trail : ∀ f below, s.frames = f :: below →
    Trail t tokens (f :: below) s.output s.cursor s.flags.rows
  /-- Only a frame with a token left looks for transitions on it. -/
  consume : ∀ f below pos, s.frames = f :: below → f.phase = .consume pos →
    ∃ symbol, tokens[s.cursor]? = some symbol ∧ symbol ≠ noSymbol
  ended : s.frames = [] → s.cursor = 0 ∧ s.output = [] ∧ s.flags = .start t.alphabet.featureCount

namespace OnTrail

variable {s : State} {f : Frame} {below : List Frame}

theorem of_cons (hinput : s.input = tokens.toArray.push noSymbol) (hframes : s.frames = f :: below)
    (htrail : Trail t tokens (f :: below) s.output s.cursor s.flags.rows)
    (hconsume : ∀ pos, f.phase = .consume pos →
      ∃ symbol, tokens[s.cursor]? = some symbol ∧ symbol ≠ noSymbol) : OnTrail t tokens s where
  input := hinput
  trail f' below' h := by rw [hframes] at h; cases h; exact htrail
  consume f' below' pos h hphase := by rw [hframes] at h; cases h; exact hconsume pos hphase
  ended h := by rw [hframes] at h; cases h

theorem begin (t : Transducer) (tokens : List SymbolId) : OnTrail t tokens (begin t tokens) := by
  refine of_cons rfl rfl (.root rfl rfl rfl) fun pos hphase => ?_
  unfold enter at hphase
  dsimp only at hphase
  split at hphase <;> cases hphase

theorem currentSymbol (h : OnTrail t tokens s) (hframes : s.frames = f :: below) :
    s.currentSymbol = tokens[s.cursor]?.getD noSymbol := by
  have hle := (h.trail f below hframes).cursor_le
  unfold State.currentSymbol
  rw [h.input, Array.getD_eq_getD_getElem?, Array.getElem?_push]
  split
  · next heq => rw [List.size_toArray] at heq; rw [heq]; simp
  · simp

theorem setPhase (h : OnTrail t tokens s) (hframes : s.frames = f :: below) {phase : Phase}
    (hconsume : ∀ pos, phase = .consume pos →
      ∃ symbol, tokens[s.cursor]? = some symbol ∧ symbol ≠ noSymbol) (found : List Analysis) :
    OnTrail t tokens { s with frames := { f with phase } :: below, found } :=
  of_cons h.input rfl ((h.trail f below hframes).setPhase phase) hconsume

theorem enter_phase_ne (address : Address) (edge : Option Edge) (depth pos : Nat) :
    (enter t address edge depth).phase ≠ .consume pos := by
  unfold enter
  dsimp only
  split <;> simp

theorem follow_epsilon (h : OnTrail t tokens s) (hframes : s.frames = f :: below) {pos : Nat}
    (hin : t.transitions.input pos = epsilonId)
    (hdepth : f.epsilonDepth < t.limits.maxEpsilonDepth) :
    OnTrail t tokens (State.follow t
      { s with frames := { f with phase := .epsilon (pos + 1) } :: below } pos .epsilon
      (f.epsilonDepth + 1)) :=
  of_cons h.input rfl
    (.epsilon ((h.trail f below hframes).setPhase _) (.epsilon rfl rfl hin rfl) rfl rfl hdepth)
    fun pos' hphase => absurd hphase (enter_phase_ne _ _ _ pos')

theorem follow_flag (h : OnTrail t tokens s) (hframes : s.frames = f :: below) {pos : Nat}
    {o : Flag.Operation} {row : Flag.Row} (hin : t.transitions.input pos ≠ epsilonId)
    (ho : t.operation? (t.transitions.input pos) = some o) (hrow : s.flags.top.after? o = some row)
    (hdepth : f.epsilonDepth < t.limits.maxEpsilonDepth) :
    OnTrail t tokens (State.follow t
      { s with frames := { f with phase := .epsilon (pos + 1) } :: below
               flags := ⟨row, s.flags.rows⟩ } pos .flag (f.epsilonDepth + 1)) :=
  of_cons h.input rfl
    (.flag ((h.trail f below hframes).setPhase _) (.flag rfl rfl hin ho rfl) rfl ho hrow rfl hdepth)
    fun pos' hphase => absurd hphase (enter_phase_ne _ _ _ pos')

theorem follow_symbol (h : OnTrail t tokens s) (hframes : s.frames = f :: below) {pos : Nat}
    (hsymbol : tokens[s.cursor]? = some (t.transitions.input pos))
    (hin : t.transitions.input pos ≠ noSymbol) :
    OnTrail t tokens (State.follow t
      { s with frames := { f with phase := .consume (pos + 1) } :: below } pos .symbol 0) :=
  of_cons h.input rfl
    (.symbol ((h.trail f below hframes).setPhase _) (.symbol rfl rfl hsymbol hin rfl) rfl rfl)
    fun pos' hphase => absurd hphase (enter_phase_ne _ _ _ pos')

/-- A frame below the last one scans on: its last transition was on a token that is still there
to be read again. -/
theorem consume_of_entered {cursor pos : Nat} {child : Frame}
    (h : Entered t tokens cursor f child pos) (pos' : Nat) (hphase : f.phase = .consume pos') :
    ∃ symbol, tokens[cursor]? = some symbol ∧ symbol ≠ noSymbol := by
  cases h with
  | epsilon hp => rw [hp] at hphase; cases hphase
  | flag hp => rw [hp] at hphase; cases hphase
  | symbol _ _ hsymbol hin => exact ⟨_, hsymbol, hin⟩

/-- Going back from a frame undoes what led to it. -/
theorem leave (h : OnTrail t tokens s) (hframes : s.frames = f :: below) :
    OnTrail t tokens (s.leave f below) := by
  obtain ⟨input, cursor, ⟨top, rows⟩, output, frames, found⟩ := s
  have htrail : Trail t tokens (f :: below) output cursor (top :: rows) := h.trail f below hframes
  unfold State.leave
  cases htrail with
  | root _ he _ =>
    rw [he]
    exact ⟨h.input, nofun, nofun, fun _ => ⟨rfl, rfl, rfl⟩⟩
  | epsilon htrail hin he _ _ =>
    rw [he]
    exact of_cons h.input rfl htrail (consume_of_entered hin)
  | flag htrail hin he _ _ _ _ =>
    rw [he]
    exact of_cons h.input rfl htrail (consume_of_entered hin)
  | symbol htrail hin he _ =>
    rw [he]
    exact of_cons h.input rfl htrail (consume_of_entered hin)

theorem tryEpsilon (h : OnTrail t tokens s) (hframes : s.frames = f :: below) (pos : Nat) :
    OnTrail t tokens (s.tryEpsilon t f below pos) := by
  have hnext : OnTrail t tokens { s with frames := { f with phase := .epsilon (pos + 1) } :: below } :=
    h.setPhase hframes (fun _ hphase => by cases hphase) s.found
  unfold State.tryEpsilon
  dsimp only
  split
  · next hin =>
    split
    · next hdepth => exact h.follow_epsilon hframes hin hdepth
    · exact hnext
  · next hin =>
    split
    · exact h.setPhase hframes (fun _ hphase => by cases hphase) s.found
    · next o ho =>
      split
      · next hdepth =>
        split
        · exact hnext
        · next pushed hpushed =>
          obtain ⟨flags, hflags, rfl⟩ := Option.map_eq_some_iff.1 hpushed
          obtain ⟨row, hrow, rfl⟩ := Option.map_eq_some_iff.1 hflags
          exact h.follow_flag hframes hin ho hrow hdepth
      · exact hnext

theorem arrive (h : OnTrail t tokens s) (hframes : s.frames = f :: below) :
    OnTrail t tokens (s.arrive t f below) := by
  unfold State.arrive
  dsimp only
  split
  · split
    · exact h.setPhase hframes (fun _ hphase => by cases hphase) s.found
    · exact h.setPhase hframes (fun _ hphase => by cases hphase) _
  · next hsymbol =>
    rw [h.currentSymbol hframes] at hsymbol
    refine h.setPhase hframes (fun pos _ => ?_) s.found
    cases htoken : tokens[s.cursor]? with
    | none => rw [htoken] at hsymbol; exact absurd rfl hsymbol
    | some symbol => rw [htoken] at hsymbol; exact ⟨symbol, rfl, hsymbol⟩

/-- A cell that fits where a frame looks for transitions on a token reads this token. -/
theorem reads_of_fits (h : OnTrail t tokens s) (hframes : s.frames = f :: below) {pos : Nat}
    (hphase : f.phase = .consume pos) (hfits : t.transitions.fits pos s.currentSymbol) :
    tokens[s.cursor]? = some (t.transitions.input pos) ∧ t.transitions.input pos ≠ noSymbol := by
  obtain ⟨symbol, htoken, hsymbol⟩ := h.consume f below pos hframes hphase
  rw [h.currentSymbol hframes, htoken] at hfits
  have hin : t.transitions.input pos = symbol := by
    simp only [TransitionTable.fits, hsymbol, decide_false, Bool.false_or, Option.getD_some,
      Bool.and_eq_true, decide_eq_true_eq] at hfits
    exact hfits.2
  exact ⟨hin ▸ htoken, hin ▸ hsymbol⟩

theorem tryConsume (h : OnTrail t tokens s) (hframes : s.frames = f :: below) {pos : Nat}
    (hphase : f.phase = .consume pos) : OnTrail t tokens (s.tryConsume t f below pos) := by
  unfold State.tryConsume
  split
  · next hfits =>
    obtain ⟨htoken, hsymbol⟩ := h.reads_of_fits hframes hphase hfits
    exact h.follow_symbol hframes htoken hsymbol
  · exact h.setPhase hframes (fun _ hphase => by cases hphase) s.found

theorem turn {s' : State} (h : OnTrail t tokens s) (hturn : s.turn t = some s') :
    OnTrail t tokens s' := by
  unfold State.turn at hturn
  split at hturn
  · cases hturn
  · next f below hframes =>
    split at hturn <;> obtain rfl := Option.some.inj hturn
    · exact h.tryEpsilon hframes _
    · exact h.arrive hframes
    · next hphase => exact h.tryConsume hframes hphase
    · exact h.leave hframes

theorem run (h : OnTrail t tokens s) (turns : Nat) : OnTrail t tokens (run t turns s) := by
  induction turns generalizing s with
  | zero => exact h
  | succ turns ih =>
    rw [Search.run]
    split
    · exact h
    · next hturn => exact ih (h.turn hturn)

theorem backtracks (h : OnTrail t tokens s) (hframes : s.frames ≠ []) :
    Backtracks t tokens s := by
  obtain ⟨f, below, hcons⟩ := List.exists_cons_of_ne_nil hframes
  have htrail := h.trail f below hcons
  rw [← hcons] at htrail
  have hle := htrail.cursor_le
  exact {
    bottom := htrail.bottom
    edge := htrail.edge
    output := htrail.length_output
    cursor := htrail.cursor_eq
    cursor_lt := by rw [h.input, Array.size_push, List.size_toArray]; omega
    flag_depth := htrail.length_rows
    neutral := htrail.neutral
    entered := fun i _ _ => htrail.entered i
    flags := htrail.flags
    depth := fun i _ => htrail.depth i }

end OnTrail

/-- At the start of every turn the state is that of the path that the frames spell, and after the
last frame is left everything is undone. -/
theorem backtracks_run (t : Transducer) (tokens : List SymbolId) (turns : Nat) :
    ((run t turns (begin t tokens)).frames ≠ [] →
      Backtracks t tokens (run t turns (begin t tokens))) ∧
    ((run t turns (begin t tokens)).frames = [] →
      (run t turns (begin t tokens)).cursor = 0 ∧ (run t turns (begin t tokens)).output = [] ∧
      (run t turns (begin t tokens)).flags = .start t.alphabet.featureCount) :=
  have h := (OnTrail.begin t tokens).run turns
  ⟨h.backtracks, h.ended⟩

end TransducerLookup.Search
