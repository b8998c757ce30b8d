import TransducerLookup.Proofs.Table.Path

/-!
# Machines and their tables

A `Machine` gives its states directly, each with its silent transitions and
those that read a symbol, in order. A `Layout` says where its states are in the
tables of a transducer, in either of the two encodings: a state in the
transition table has its only row right behind its head, and one in the index
table has a cell for epsilon and each symbol that tells where the row is.
-/

namespace TransducerLookup

variable {t : Transducer} {σ : Type}

/-- Some text has this token in it. -/
def Transducer.Tokenizable (t : Transducer) (s : SymbolId) : Prop :=
  ∃ text tokens, t.tokenize text = some tokens ∧ s ∈ tokens

/-- A transducer by its states, over the symbols and flags of `t`. -/
structure Machine (t : Transducer) (σ : Type) where
  start : σ
  final? : σ → Option Weight
  silent : σ → List (Arc σ)
  reading : σ → List (Arc σ)
  silent_input : ∀ q, ∀ x ∈ silent q, x.input = epsilonId ∨ (t.operation? x.input).isSome
  reading_input : ∀ q, ∀ x ∈ reading q, t.Tokenizable x.input

def numbered (arcs : List (Arc σ)) : List (Nat × Arc σ) := arcs.zipIdx.map fun (x, k) => (k, x)

namespace Machine

def graph (m : Machine t σ) : Graph σ where
  alphabet := t.alphabet
  weighted := t.header.weighted
  start := m.start
  final? := m.final?
  silent q := numbered (m.silent q)
  reading q s := (numbered (m.reading q)).filter fun x => x.2.input = s

/-- The cell holds the transition. -/
structure Holds (t : Transducer) (address : σ → Address) (pos : Nat) (x : Arc σ) : Prop where
  input : t.transitions.input pos = x.input
  output : t.transitions.output pos = x.output
  weight : t.header.weighted = true → t.transitions.weight pos = x.weight
  target : .ofTarget (t.transitions.target pos) = address x.target

/-- The cells from `start` on hold these transitions in order. -/
def Stored (t : Transducer) (address : σ → Address) : Nat → List (Arc σ) → Prop
  | _, [] => True
  | start, x :: arcs => Holds t address start x ∧ Stored t address (start + 1) arcs

/-- The cell of a state in the index table leads to a row of exactly these transitions: those
behind them do not fit. Without transitions the cell may be that of another symbol. -/
def Indexed (t : Transducer) (address : σ → Address) (cell : Nat) (symbol : SymbolId)
    (fits : SymbolId → Prop) (arcs : List (Arc σ)) : Prop :=
  t.index.input cell ≠ symbol ∧ arcs = [] ∨
    t.index.input cell = symbol ∧
      Stored t address (Address.ofTarget (t.index.target cell)).offset arcs ∧
      ¬ fits (t.transitions.input
        ((Address.ofTarget (t.index.target cell)).offset + arcs.length))

/-- The transitions of a state are in the tables as its address demands. -/
inductive Encoded (m : Machine t σ) (address : σ → Address) (q : σ) : Address → Prop where
  | transition {i : Nat} : m.silent q = [] ∨ m.reading q = [] →
      (∀ x ∈ m.reading q, ∀ y ∈ m.reading q, x.input = y.input) →
      Stored t address (i + 1) (m.silent q ++ m.reading q) →
      t.transitions.input (i + 1 + (m.silent q ++ m.reading q).length) = noSymbol →
      Encoded m address q (.transition i)
  | index {i : Nat} :
      Indexed t address (i + 1) epsilonId
        (fun input => input = epsilonId ∨ (t.operation? input).isSome) (m.silent q) →
      (∀ s, t.Tokenizable s → Indexed t address (i + 1 + s.toNat) s (· = s)
        ((m.reading q).filter (·.input = s))) →
      Encoded m address q (.index i)

structure Layout (m : Machine t σ) where
  address : σ → Address
  start : address m.start = .index 0
  encoded : ∀ q, m.Encoded address q (address q)
  final : ∀ q, (m.final? q).isSome ↔ ∃ w, t.Final (address q) w
  final_weight : t.header.weighted = true → ∀ q w, t.Final (address q) w → m.final? q = some w

end Machine

end TransducerLookup
