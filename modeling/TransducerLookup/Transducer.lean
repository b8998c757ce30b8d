import TransducerLookup.Alphabet
import TransducerLookup.Header
import TransducerLookup.SymbolTrie
import TransducerLookup.Table.Index
import TransducerLookup.Table.Transition

/-!
# Transducers

A transducer file holds, in this order, a header, an alphabet, an index table
and a transition table; what follows them is not read. Input text is cut into
those symbols whose ids lie below the header's input symbol count.
-/

namespace TransducerLookup

/-- What keeps a lookup within bounds. -/
structure Limits where
  /-- How many transitions in a row may read no input. -/
  maxEpsilonDepth : Nat := 1024
  /-- How many turns a lookup may take. -/
  maxSteps : Nat := 1000000
  deriving DecidableEq, Repr

/-- The trie of the symbols that input text is cut into. -/
def Alphabet.inputTrie (a : Alphabet) (inputSymbolCount : UInt16) : SymbolTrie :=
  .ofTexts (a.texts.take inputSymbolCount.toNat)

structure Transducer where
  header : Header
  alphabet : Alphabet
  index : IndexTable
  transitions : TransitionTable
  limits : Limits := {}
  trie : SymbolTrie := alphabet.inputTrie header.inputSymbolCount
  trie_eq : trie = alphabet.inputTrie header.inputSymbolCount := by rfl

namespace Transducer

def decode : Decoder Transducer := do
  let header ← Header.decode
  let alphabet ← Alphabet.decode header.symbolCount.toNat
  let index ← IndexTable.decode header.indexTableSize.toNat
  let transitions ← TransitionTable.decode header.transitionTableSize.toNat header.weighted
  return { header, alphabet, index, transitions }

def load (s : Stream) : Except LoadError Transducer :=
  match decode.run s with
  | .ok t _ => .ok t
  | .error e _ => .error e

theorem load_of_decode_eq_ok {s s' : Stream} {t : Transducer} (h : decode s = .ok t s') :
    load s = .ok t := by
  rw [load, EStateM.run, h]

theorem load_of_decode_eq_error {s s' : Stream} {e : LoadError} (h : decode s = .error e s') :
    load s = .error e := by
  rw [load, EStateM.run, h]

theorem load_eq_ok_iff {s : Stream} {t : Transducer} :
    load s = .ok t ↔ ∃ s', decode s = .ok t s' := by
  constructor
  · intro h
    cases hdecode : decode s with
    | ok t' s' =>
      rw [load_of_decode_eq_ok hdecode] at h
      obtain rfl := Except.ok.inj h
      exact ⟨s', rfl⟩
    | error e s' =>
      rw [load_of_decode_eq_error hdecode] at h
      cases h
  · rintro ⟨s', h⟩
    exact load_of_decode_eq_ok h

def ofBytes (data : List UInt8) : Except LoadError Transducer := load (.ofBytes data)

def withLimits (t : Transducer) (limits : Limits) : Transducer := { t with limits }

def tokenize (t : Transducer) (text : String) : Option (List SymbolId) :=
  t.trie.tokenize text.toList

/-- The flag that a transition with this input symbol carries. -/
def operation? (t : Transducer) (input : SymbolId) : Option Flag.Operation :=
  t.alphabet.operation? input

/-- The cell where the transitions without input of a state begin, if it can
have any. Those of a state in the index table are found through the cell of
epsilon. -/
def epsilonStart? (t : Transducer) : Address → Option Nat
  | .transition i => some (i + 1)
  | .index i =>
    if t.index.input (i + 1) = epsilonId then
      some (Address.ofTarget (t.index.target (i + 1))).offset
    else none

/-- The cell where the transitions of a state on `symbol` begin, if it can have
any. -/
def consumeStart? (t : Transducer) (symbol : SymbolId) : Address → Option Nat
  | .transition i => some (i + 1)
  | .index i =>
    let cell := i + 1 + symbol.toNat
    if t.index.input cell = symbol then some (Address.ofTarget (t.index.target cell)).offset
    else none

/-- The final weight of a state, `none` if it is not final. -/
def finalWeight? (t : Transducer) : Address → Option Weight
  | .transition i => if t.transitions.isFinal i then some (t.transitions.weight i) else none
  | .index i =>
    if t.index.isFinal i then
      some (if t.header.weighted then t.index.finalWeight i else .zero)
    else none

def describe (t : Transducer) : String :=
  "Transducer \x7b symbol_count: " ++ toString t.alphabet.size
    ++ ", feature_count: " ++ toString t.alphabet.featureCount
    ++ ", index_table: " ++ t.index.describe
    ++ ", transition_table: " ++ t.transitions.describe
    ++ ", weighted: " ++ toString t.header.weighted ++ " \x7d"

end Transducer

end TransducerLookup
