import TransducerLookup.Proofs.Checked.Simulation

/-!
# Buffers in use again

A lookup on a used state does not start with new buffers. It empties the old
ones and fills them again, one after the other (`State.reset`), puts the first
frame on the frames that it finds, and in the end takes the analyses out. Of
earlier use nothing is left after the reset, whatever the length of the rows was
(`run_reset`), so the lookup is the one that starts with new buffers.
-/

namespace TransducerLookup.Checked

/-- The first `n` elements, filled up with `x`. -/
def resize {α : Type} (xs : Array α) (n : Nat) (x : α) : Array α :=
  xs.take n ++ .replicate (n - xs.size) x

theorem resize_take_zero {α : Type} (xs : Array α) (n : Nat) (x : α) :
    resize (xs.take 0) n x = .replicate n x := by
  simp [resize]

namespace State

/-- Changes the buffers for a lookup of these tokens. -/
def reset (featureCount : Nat) (tokens : List SymbolId) : StateM State Unit := do
  modify fun s => { s with flags.featureCount := featureCount }
  modify fun s => { s with flags.values := s.flags.values.take 0 }
  modify fun s => { s with flags.values := resize s.flags.values featureCount Flag.neutral }
  modify fun s => { s with input := s.input.take 0 }
  modify fun s => { s with input := s.input ++ tokens.toArray }
  modify fun s => { s with input := s.input.push noSymbol }
  modify fun s => { s with cursor := 0 }
  modify fun s => { s with output := s.output.take 0 }
  modify fun s => { s with frames := s.frames.take 0 }
  modify fun s => { s with found := s.found.take 0 }

theorem run_reset (featureCount : Nat) (tokens : List SymbolId) (s : State) :
    (reset featureCount tokens).run s = ((), start featureCount tokens []) := by
  have hvalues : resize (s.flags.values.take 0) featureCount Flag.neutral =
      .replicate featureCount Flag.neutral := resize_take_zero s.flags.values featureCount _
  have hinput : s.input.take 0 ++ tokens.toArray = tokens.toArray := by simp
  show ((), State.mk ((s.input.take 0 ++ tokens.toArray).push noSymbol) 0
    ⟨featureCount, resize (s.flags.values.take 0) featureCount Flag.neutral⟩ [] [] []) = _
  rw [hvalues, hinput]
  rfl

/-- Searches from the first state of the transducer. -/
def traverse (t : Transducer) (s : State) : Checked State := do
  let root ← enter t (.index 0) none 0
  let final ← loop t 0 { s with frames := root :: s.frames }
  return { final with frames := [] }

def lookup (t : Transducer) (s : State) (text : String) : Checked (List Analysis × State) := do
  match ← tokenizeFrom t.trie text.toList 0 with
  | none => return ([], s)
  | some tokens =>
    let final ← traverse t ((reset t.alphabet.featureCount tokens).run s).2
    return (final.found.reverse, { final with found := [] })

theorem lookup_eq (t : Transducer) (s : State) (text : String) :
    s.lookup t text = analyzeWith t s text := by
  unfold lookup analyzeWith
  refine congrArg (_ >>= ·) (funext fun tokens => ?_)
  cases tokens with
  | none => rfl
  | some tokens =>
    dsimp only
    rw [run_reset]
    simp only [traverse, bind_assoc, pure_bind]
    rfl

theorem lookup_of_tokenize_eq_none {t : Transducer} {text : String} (h : t.tokenize text = none)
    (s : State) : s.lookup t text = .ok ([], s) := by
  rw [lookup, tokenizeFrom_eq, ok_bind, List.drop_zero,
    show t.trie.tokenize text.toList = none from h]
  rfl

end State

end TransducerLookup.Checked
