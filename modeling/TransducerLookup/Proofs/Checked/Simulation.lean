import TransducerLookup.Proofs.Checked.Search
import TransducerLookup.Proofs.Search.Backtracking
import TransducerLookup.Proofs.Search.Bounds
import TransducerLookup.Proofs.Search.Exploration

/-!
# The checked search does what the search does

On the trail of a search with its frames in bounds, each checked operation
succeeds with the result of the plain one. The flags stay represented, and so
the two searches take the same turns.
-/

namespace TransducerLookup.Checked

open Search (Edge Frame Phase OnTrail offset_ofTarget_lt lt_size_of_readsNothing lt_size_of_fits)
open FlatStack (Represents)

def State.ofSearch (s : Search.State) (flags : FlatStack) : State :=
  ⟨s.input, s.cursor, flags, s.output, s.frames, s.found⟩

variable {t : Transducer}

/-! ## Positions -/

theorem position_ofTarget (target : Target) :
    position (Address.ofTarget target).offset = .ok (Address.ofTarget target).offset :=
  position_of_le (by have := offset_ofTarget_lt target; omega)

theorem epsilonStart?_eq {address : Address} (h : address.offset < 2 ^ 31) :
    epsilonStart? t address = .ok (t.epsilonStart? address) := by
  cases address with
  | transition i =>
    have hpos : position (i + 1) = .ok (i + 1) :=
      position_of_le (by rw [Address.offset] at h; omega)
    rw [epsilonStart?, hpos]
    rfl
  | index i =>
    have hpos : position (i + 1) = .ok (i + 1) :=
      position_of_le (by rw [Address.offset] at h; omega)
    rw [epsilonStart?, Transducer.epsilonStart?]
    simp only [hpos, ok_bind, position_ofTarget]
    split <;> rfl

theorem consumeStart?_eq {address : Address} (h : address.offset < 2 ^ 31) (symbol : SymbolId) :
    consumeStart? t symbol address = .ok (t.consumeStart? symbol address) := by
  have hsymbol := symbol.toNat_lt
  cases address with
  | transition i =>
    have hpos : position (i + 1) = .ok (i + 1) :=
      position_of_le (by rw [Address.offset] at h; omega)
    rw [consumeStart?, hpos]
    rfl
  | index i =>
    have hpos : position (i + 1 + symbol.toNat) = .ok (i + 1 + symbol.toNat) :=
      position_of_le (by rw [Address.offset] at h; omega)
    rw [consumeStart?, Transducer.consumeStart?]
    simp only [hpos, ok_bind, position_ofTarget]
    split <;> rfl

theorem enter_eq {address : Address} (h : address.offset < 2 ^ 31) (edge : Option Edge)
    (depth : Nat) : enter t address edge depth = .ok (Search.enter t address edge depth) := by
  unfold enter Search.enter
  rw [epsilonStart?_eq h, ok_bind]
  cases t.epsilonStart? address <;> rfl

theorem follow_eq (s : Search.State) (flags : FlatStack) (pos : Nat) (edge : Edge) (depth : Nat) :
    (State.ofSearch s flags).follow t pos edge depth =
      .ok (.ofSearch (s.follow t pos edge depth) flags) := by
  unfold State.follow
  rw [enter_eq (offset_ofTarget_lt _)]
  rfl

/-! ## Turns -/

variable {tokens : List SymbolId} {s : Search.State} {f : Frame} {below : List Frame}
  {flags : FlatStack}

theorem currentSymbol_eq (h : OnTrail t tokens s) (hframes : s.frames = f :: below) :
    (State.ofSearch s flags).currentSymbol = .ok s.currentSymbol := by
  have hlt := (h.backtracks (by simp [hframes])).cursor_lt
  refine get_eq_ok ?_
  show s.input[s.cursor]? = some (s.input.getD s.cursor noSymbol)
  rw [Array.getD_eq_getD_getElem?, Array.getElem?_eq_getElem hlt, Option.getD_some]

theorem value_ne_minValue (ht : t.WellFormed) {input : SymbolId} {o : Flag.Operation}
    (ho : t.operation? input = some o) : o.value ≠ Int32.minValue := fun h => by
  have := (ht.operation_range ho).2
  rw [h] at this
  exact absurd this (by decide)

/-- The checked turn ends in a state that matches the one after the plain turn. -/
def Follows (checked : Checked State) (next : Search.State) : Prop :=
  ∃ flags', checked = .ok (.ofSearch next flags') ∧ Represents flags' next.flags

theorem follows_follow (next : Search.State) (hflags : Represents flags next.flags) (pos : Nat)
    (edge : Edge) (depth : Nat) :
    Follows ((State.ofSearch next flags).follow t pos edge depth) (next.follow t pos edge depth) :=
  ⟨flags, follow_eq next flags pos edge depth, hflags⟩

theorem follows_flag (next : Search.State) (hflags : Represents flags next.flags) {pos depth : Nat}
    {o : Flag.Operation} (ho : o.value ≠ Int32.minValue) (hdepth : depth + 1 < 2 ^ 64) :
    Follows (do
      match ← flags.push? o with
      | none => return State.ofSearch next flags
      | some flags' =>
        State.follow t { State.ofSearch next flags with flags := flags' } pos .flag
          (← increment depth))
      (match next.pushFlag? o with
      | none => next
      | some pushed => pushed.follow t pos .flag (depth + 1)) := by
  obtain ⟨r, hr, hrel⟩ := hflags.push?_eq fun _ => ho
  rw [hr, ok_bind, Search.State.pushFlag?]
  generalize next.flags.push? o = r' at hrel
  cases hrel with
  | none => exact ⟨flags, rfl, hflags⟩
  | @some flags' stack hstack =>
    dsimp only
    rw [show increment depth = .ok (depth + 1) from if_pos hdepth, ok_bind]
    exact follows_follow { next with flags := stack } hstack pos .flag (depth + 1)

theorem tryEpsilon_follows (ht : t.WellFormed) (hdepth : t.limits.maxEpsilonDepth < 2 ^ 64)
    (hflags : Represents flags s.flags) (pos : Nat) :
    Follows ((State.ofSearch s flags).tryEpsilon t f below pos) (s.tryEpsilon t f below pos) := by
  have hstep (hpos : t.ReadsNothing pos) : position (pos + 1) = .ok (pos + 1) :=
    position_of_le (lt_size_of_readsNothing ht hpos)
  unfold State.tryEpsilon Search.State.tryEpsilon
  dsimp only
  by_cases hin : t.transitions.input pos = epsilonId
  · simp only [if_pos hin, hstep (.inl hin), ok_bind]
    by_cases hlt : f.epsilonDepth < t.limits.maxEpsilonDepth
    · simp only [if_pos hlt]
      rw [show increment f.epsilonDepth = .ok (f.epsilonDepth + 1) from if_pos (by omega), ok_bind]
      exact follows_follow { s with frames := { f with phase := .epsilon (pos + 1) } :: below }
        hflags pos .epsilon (f.epsilonDepth + 1)
    · simp only [if_neg hlt]
      exact ⟨flags, rfl, hflags⟩
  · simp only [if_neg hin]
    cases ho : t.operation? (t.transitions.input pos) with
    | none => exact ⟨flags, rfl, hflags⟩
    | some o =>
      simp only [hstep (.inr (by rw [ho]; rfl)), ok_bind]
      by_cases hlt : f.epsilonDepth < t.limits.maxEpsilonDepth
      · simp only [if_pos hlt]
        exact follows_flag { s with frames := { f with phase := .epsilon (pos + 1) } :: below }
          hflags (value_ne_minValue ht ho) (by omega)
      · simp only [if_neg hlt]
        exact ⟨flags, rfl, hflags⟩

theorem arrive_follows (h : OnTrail t tokens s) (hframes : s.frames = f :: below)
    (hoffset : f.address.offset < 2 ^ 31) (hflags : Represents flags s.flags) :
    Follows ((State.ofSearch s flags).arrive t f below) (s.arrive t f below) := by
  unfold State.arrive Search.State.arrive
  rw [currentSymbol_eq h hframes, ok_bind]
  by_cases hsymbol : s.currentSymbol = noSymbol
  · simp only [if_pos hsymbol]
    cases t.finalWeight? f.address <;> exact ⟨flags, rfl, hflags⟩
  · simp only [if_neg hsymbol, consumeStart?_eq hoffset, ok_bind]
    cases t.consumeStart? s.currentSymbol f.address <;> exact ⟨flags, rfl, hflags⟩

theorem tryConsume_follows (ht : t.WellFormed) (h : OnTrail t tokens s)
    (hframes : s.frames = f :: below) (hflags : Represents flags s.flags) (pos : Nat) :
    Follows ((State.ofSearch s flags).tryConsume t f below pos) (s.tryConsume t f below pos) := by
  unfold State.tryConsume Search.State.tryConsume
  rw [currentSymbol_eq h hframes, ok_bind]
  by_cases hfits : t.transitions.fits pos s.currentSymbol = true
  · simp only [if_pos hfits]
    rw [position_of_le (lt_size_of_fits ht hfits), ok_bind]
    exact follows_follow { s with frames := { f with phase := .consume (pos + 1) } :: below }
      hflags pos .symbol 0
  · simp only [if_neg hfits]
    exact ⟨flags, rfl, hflags⟩

/-- The cursor has something to go back to: the frame that is left has read a token. -/
theorem cursor_pos (h : OnTrail t tokens s) (hframes : s.frames = f :: below)
    (hedge : f.edge = some .symbol) : 1 ≤ s.cursor := by
  rw [(h.backtracks (by simp [hframes])).cursor, hframes, List.countP_cons_of_pos (by simp [hedge])]
  omega

theorem leave_follows (h : OnTrail t tokens s) (hframes : s.frames = f :: below)
    (hflags : Represents flags s.flags) :
    Follows ((State.ofSearch s flags).leave f below) (s.leave f below) := by
  unfold State.leave Search.State.leave
  cases hedge : f.edge with
  | none => exact ⟨flags, rfl, hflags⟩
  | some edge =>
    cases edge with
    | epsilon => exact ⟨flags, rfl, hflags⟩
    | flag =>
      obtain ⟨flags', hpop, hrel⟩ := hflags.pop_eq
      refine ⟨flags', ?_, hrel⟩
      show (flags.pop >>= _) = _
      rw [hpop]
      rfl
    | symbol =>
      refine ⟨flags, ?_, hflags⟩
      show (minus s.cursor 1 >>= _) = _
      rw [show minus s.cursor 1 = .ok (s.cursor - 1) from if_pos (cursor_pos h hframes hedge)]
      rfl

theorem turn_follows (ht : t.WellFormed) (hdepth : t.limits.maxEpsilonDepth < 2 ^ 64)
    (h : OnTrail t tokens s) (hbounds : s.InBounds) (hflags : Represents flags s.flags)
    {next : Search.State} (hturn : s.turn t = some next) :
    Follows ((State.ofSearch s flags).turn t) next := by
  unfold Search.State.turn at hturn
  split at hturn
  · cases hturn
  · next f below hframes =>
    have hoffset := hbounds f (hframes ▸ List.mem_cons_self)
    unfold State.turn
    rw [show (State.ofSearch s flags).frames = f :: below from hframes]
    dsimp only
    cases hphase : f.phase with
    | epsilon pos =>
      rw [hphase] at hturn
      obtain rfl := Option.some.inj hturn
      exact tryEpsilon_follows ht hdepth hflags pos
    | arrive =>
      rw [hphase] at hturn
      obtain rfl := Option.some.inj hturn
      exact arrive_follows h hframes hoffset hflags
    | consume pos =>
      rw [hphase] at hturn
      obtain rfl := Option.some.inj hturn
      exact tryConsume_follows ht h hframes hflags pos
    | done =>
      rw [hphase] at hturn
      obtain rfl := Option.some.inj hturn
      exact leave_follows h hframes hflags

/-! ## Whole lookups -/

/-- The loop ends where a run of as many turns as the limit leaves does. -/
theorem loop_follows (ht : t.WellFormed) (hdepth : t.limits.maxEpsilonDepth < 2 ^ 64)
    (hlimit : t.limits.maxSteps < 2 ^ 64 - 1) (h : OnTrail t tokens s) (hbounds : s.InBounds)
    (hflags : Represents flags s.flags) {turns steps : Nat}
    (hturns : steps + turns = t.limits.maxSteps) :
    Follows (State.loop t steps (.ofSearch s flags)) (Search.run t turns s) := by
  induction turns generalizing s flags steps with
  | zero => exact ⟨flags, State.loop_of_le (by omega) (by omega), hflags⟩
  | succ turns ih =>
    cases hturn : s.turn t with
    | none =>
      rw [Search.run_of_turn_eq_none hturn]
      exact ⟨flags, State.loop_of_frames_eq_nil (Search.turn_eq_none_iff.1 hturn) steps, hflags⟩
    | some next =>
      have hframes : (State.ofSearch s flags).frames ≠ [] := fun hnil => by
        rw [Search.turn_eq_none_iff.2 hnil] at hturn
        cases hturn
      obtain ⟨flags', hok, hflags'⟩ := turn_follows ht hdepth h hbounds hflags hturn
      rw [Search.run_succ_of_turn_eq_some hturn,
        State.loop_of_lt hframes (by omega) (by omega), hok, ok_bind]
      exact ih (h.turn hturn) (hbounds.turn hturn) hflags' (by omega)

theorem begin_eq (t : Transducer) (tokens : List SymbolId) :
    State.start t.alphabet.featureCount tokens [Search.enter t (.index 0) none 0] =
      .ofSearch (Search.begin t tokens) (.start t.alphabet.featureCount) := rfl

/-- A lookup never fails, has the analyses of the plain lookup, and leaves a matching state. -/
theorem analyzeWith_eq (ht : t.WellFormed) (hdepth : t.limits.maxEpsilonDepth < 2 ^ 64)
    (hlimit : t.limits.maxSteps < 2 ^ 64 - 1) (hflags : Represents flags s.flags) (text : String) :
    ∃ flags', analyzeWith t (.ofSearch s flags) text =
        .ok ((t.analyzeWith s text).1, .ofSearch (t.analyzeWith s text).2 flags') ∧
      Represents flags' (t.analyzeWith s text).2.flags := by
  unfold analyzeWith Transducer.analyzeWith
  rw [tokenizeFrom_eq, ok_bind, List.drop_zero]
  rw [show t.trie.tokenize text.toList = t.tokenize text from rfl]
  cases htokens : t.tokenize text with
  | none => exact ⟨flags, rfl, hflags⟩
  | some tokens =>
    obtain ⟨flags', hok, hflags'⟩ := loop_follows ht hdepth hlimit (.begin t tokens)
      (Search.inBounds_begin t tokens) (FlatStack.represents_start t.alphabet.featureCount)
      (Nat.zero_add t.limits.maxSteps)
    refine ⟨flags', ?_, hflags'⟩
    dsimp only
    rw [enter_eq (by decide), ok_bind, begin_eq, hok]
    rfl

end TransducerLookup.Checked
