import TransducerLookup.Search.Turn

/-!
# Lookups

A lookup cuts the text into tokens and searches from the first state until no
frame is left or the limit on turns is reached, in which case it has the
analyses found up to there. A search state can be used for any number of
lookups, on any transducers.
-/

namespace TransducerLookup

namespace Search

/-- The state after at most `turns` turns. -/
def run (t : Transducer) : Nat → State → State
  | 0, s => s
  | turns + 1, s =>
    match s.turn t with
    | none => s
    | some next => run t turns next

theorem run_of_turn_eq_none {t : Transducer} {s : State} (h : s.turn t = none) (turns : Nat) :
    run t turns s = s := by
  cases turns with
  | zero => rfl
  | succ turns => rw [run, h]

theorem run_succ_of_turn_eq_some {t : Transducer} {s next : State} (h : s.turn t = some next)
    (turns : Nat) : run t (turns + 1) s = run t turns next := by
  rw [run, h]

/-- A run of `m + n` turns is a run of `m` turns that goes on for `n` more. -/
theorem run_add (t : Transducer) (m n : Nat) (s : State) :
    run t (m + n) s = run t n (run t m s) := by
  induction m generalizing s with
  | zero => rw [Nat.zero_add, run]
  | succ m ih =>
    rw [Nat.succ_add, run]
    cases h : s.turn t with
    | none => rw [run_of_turn_eq_none h, run_of_turn_eq_none h]
    | some next => rw [run_succ_of_turn_eq_some h]; exact ih next

def begin (t : Transducer) (tokens : List SymbolId) : State :=
  .start t.alphabet.featureCount tokens [enter t (.index 0) none 0]

end Search

namespace Transducer

/-- The analyses of the text and the state that the lookup leaves behind. Text
that cannot be cut into tokens has no analyses and leaves the state alone. -/
def analyzeWith (t : Transducer) (s : Search.State) (text : String) :
    List Analysis × Search.State :=
  match t.tokenize text with
  | none => ([], s)
  | some tokens =>
    let final := Search.run t t.limits.maxSteps (Search.begin t tokens)
    (final.found.reverse, { final with frames := [], found := [] })

/-- The analyses of the text, in the order of the search. -/
def analyze (t : Transducer) (text : String) : List Analysis := (t.analyzeWith .fresh text).1

/-- What a lookup finds does not depend on the state it uses. -/
theorem fst_analyzeWith (t : Transducer) (s : Search.State) (text : String) :
    (t.analyzeWith s text).1 = t.analyze text := by
  unfold analyze analyzeWith
  cases t.tokenize text <;> rfl

end Transducer

end TransducerLookup
