import TransducerLookup.Proofs.Checked.Loading
import TransducerLookup.Proofs.Checked.Reuse

/-!
# No operation fails

A lookup state may have any history: lookups with any loaded transducers, cut
off or not, and flags pushed and popped by hand. Whatever it is, no operation of
the next lookup fails, the reset of the used buffers included, and its analyses
are those that a fresh state gives (`lookup_of_history`). The one flag that a
history may not have is the one whose value cannot be negated.
-/

namespace TransducerLookup.Checked

open FlatStack (Represents)

/-- What can be done with a lookup state. -/
inductive Action where
  | lookup (t : Transducer) (text : String)
  | push (o : Flag.Operation)
  | pop

/-- A loaded transducer with limits that fit their words. -/
inductive Loaded : Transducer → Prop where
  | withLimits {file : Stream} {t : Transducer} {limits : Limits} :
      Transducer.load file = .ok t → limits.maxEpsilonDepth < 2 ^ 64 →
      limits.maxSteps < 2 ^ 64 - 1 → Loaded (t.withLimits limits)

/-- A lookup on used buffers never fails, has the analyses of the plain lookup, and leaves a
matching state. -/
theorem Loaded.lookup_follows {t : Transducer} (ht : Loaded t) {s : Search.State}
    {flags : FlatStack} (hflags : Represents flags s.flags) (text : String) :
    ∃ flags', (State.ofSearch s flags).lookup t text =
        .ok (t.analyze text, .ofSearch (t.analyzeWith s text).2 flags') ∧
      Represents flags' (t.analyzeWith s text).2.flags := by
  obtain ⟨hload, hdepth, hlimit⟩ := ht
  rw [State.lookup_eq, ← Transducer.fst_analyzeWith _ s]
  exact analyzeWith_eq ((Transducer.wellFormed_of_load hload).withLimits _) hdepth hlimit hflags text

namespace Action

def Allowed : Action → Prop
  | lookup t _ => Loaded t
  | push o => o.operator = .negativeSet → o.value ≠ Int32.minValue
  | pop => True

/-- The state after the action, with its buffers used again. A flag that is refused changes
nothing. -/
def apply (s : State) : Action → Checked State
  | lookup t text => do return (← s.lookup t text).2
  | push o => do
    match ← s.flags.push? o with
    | some flags => return { s with flags := flags }
    | none => return s
  | pop => do return { s with flags := ← s.flags.pop }

/-- The action on the rows of the flag stack. -/
def run (s : Search.State) : Action → Search.State
  | lookup t text => (t.analyzeWith s text).2
  | push o => (s.pushFlag? o).getD s
  | pop => s.popFlag

theorem apply_follows {s : Search.State} {flags : FlatStack} (hflags : Represents flags s.flags)
    {action : Action} (h : action.Allowed) :
    Follows (action.apply (.ofSearch s flags)) (action.run s) := by
  cases action with
  | lookup t text =>
    obtain ⟨flags', hok, hflags'⟩ := Loaded.lookup_follows h hflags text
    exact ⟨flags', by rw [apply, hok]; rfl, hflags'⟩
  | push o =>
    obtain ⟨r, hr, hrel⟩ := hflags.push?_eq h
    unfold Follows apply run Search.State.pushFlag?
    dsimp only
    rw [show (State.ofSearch s flags).flags.push? o = .ok r from hr, ok_bind]
    generalize s.flags.push? o = r' at hrel
    cases hrel with
    | none => exact ⟨flags, rfl, hflags⟩
    | @some flags' stack hstack => exact ⟨flags', rfl, hstack⟩
  | pop =>
    obtain ⟨flags', hpop, hflags'⟩ := hflags.pop_eq
    refine ⟨flags', ?_, hflags'⟩
    rw [apply, show (State.ofSearch s flags).flags.pop = .ok flags' from hpop]
    rfl

theorem foldlM_apply_follows {s : Search.State} {flags : FlatStack}
    (hflags : Represents flags s.flags) {history : List Action}
    (h : ∀ action ∈ history, action.Allowed) :
    Follows (history.foldlM apply (.ofSearch s flags)) (history.foldl run s) := by
  induction history generalizing s flags with
  | nil => exact ⟨flags, rfl, hflags⟩
  | cons action history ih =>
    obtain ⟨flags', hok, hflags'⟩ := apply_follows hflags (h action List.mem_cons_self)
    rw [List.foldlM_cons, hok, ok_bind]
    exact ih hflags' fun a ha => h a (List.mem_cons_of_mem _ ha)

end Action

theorem represents_fresh : Represents State.fresh.flags Search.State.fresh.flags :=
  FlatStack.represents_start 0

/-- No lookup after any history ends in a trap, though its buffers are the used ones, nor does
reading any header or alphabet. -/
theorem lookup_of_history {file : Stream} {t : Transducer}
    (hload : Transducer.load file = .ok t) (limits : Limits)
    (hdepth : limits.maxEpsilonDepth < 2 ^ 64) (hlimit : limits.maxSteps < 2 ^ 64 - 1)
    {history : List Action} (hhistory : ∀ action ∈ history, action.Allowed) (text : String) :
    (∃ s s' : State, history.foldlM Action.apply .fresh = .ok s ∧
      s.flags.current = .ok (history.foldl Action.run .fresh).flags.top ∧
      s.lookup (t.withLimits limits) text = .ok ((t.withLimits limits).analyze text, s')) ∧
    (∀ file' : Stream, Agrees decodeHeader Header.decode file') ∧
    ∀ (count : Nat) (file' : Stream),
      Agrees (decodeAlphabet count) (Alphabet.decode count) file' := by
  obtain ⟨flags, hok, hflags⟩ := Action.foldlM_apply_follows represents_fresh hhistory
  obtain ⟨flags', hlookup, -⟩ :=
    (Loaded.withLimits hload hdepth hlimit).lookup_follows hflags text
  exact ⟨⟨_, _, hok, hflags.current_eq, hlookup⟩, decodeHeader_agrees, decodeAlphabet_agrees⟩

/-- The small file after a lookup that was cut off and a flag that was pushed and popped. -/
theorem lookup_of_history_small :
    (∀ action ∈ [Action.lookup (Transducer.small.withLimits ⟨1, 3⟩) "a",
      .push ⟨.negativeSet, 0, 1⟩, .pop], action.Allowed) ∧
    (∃ s s' : State, [Action.lookup (Transducer.small.withLimits ⟨1, 3⟩) "a",
        .push ⟨.negativeSet, 0, 1⟩, .pop].foldlM Action.apply .fresh = .ok s ∧
      s.lookup (Transducer.small.withLimits ⟨2 ^ 64 - 1, 100⟩) "a" =
        .ok ([⟨["a"], .one⟩, ⟨["b"], .one⟩], s')) ∧
    Agrees decodeHeader Header.decode (.ofBytes Transducer.smallFile) ∧
    Agrees (decodeAlphabet 2) (Alphabet.decode 2) (.ofBytes Transducer.smallFile) := by
  have hhistory : ∀ action ∈ [Action.lookup (Transducer.small.withLimits ⟨1, 3⟩) "a",
      .push ⟨.negativeSet, 0, 1⟩, .pop], action.Allowed := by
    intro action haction
    simp only [List.mem_cons, List.not_mem_nil, or_false] at haction
    rcases haction with rfl | rfl | rfl
    · exact .withLimits Transducer.ofBytes_smallFile (by decide) (by decide)
    · exact fun _ => by decide
    · trivial
  obtain ⟨⟨s, s', hok, -, hlookup⟩, hheader, halphabet⟩ := lookup_of_history
    Transducer.ofBytes_smallFile ⟨2 ^ 64 - 1, 100⟩ (by decide) (by decide) hhistory "a"
  have hanalyses : (Transducer.small.withLimits ⟨2 ^ 64 - 1, 100⟩).analyze "a" =
      [⟨["a"], .one⟩, ⟨["b"], .one⟩] := by decide +kernel
  rw [hanalyses] at hlookup
  exact ⟨hhistory, ⟨s, s', hok, hlookup⟩, hheader _, halphabet 2 _⟩

end TransducerLookup.Checked
