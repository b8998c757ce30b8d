import Mathlib.Algebra.Group.Nat.Defs
import TransducerLookup.SymbolId

/-!
# Operations that can fail

Lookups and loading index arrays, slice texts, and add and subtract in machine
words. Here each of these has a version that tells when it would fail.
`Checked` programs are made of these versions; that one of them always ends in
`ok` says that the operations in it never fail.
-/

namespace TransducerLookup

/-- Why an operation fails. -/
inductive Trap where
  /-- An index or slice reaches beyond its array or text, or begins behind its end. -/
  | outOfBounds
  /-- A slice of a text cuts a character. -/
  | charBoundary
  | underflow
  | overflow
  /-- A table position is larger than any that the tables call for. -/
  | position
  deriving DecidableEq, Repr

abbrev Checked := Except Trap

namespace Checked

theorem ok_bind {α β : Type} (a : α) (f : α → Checked β) :
    ((Except.ok a : Checked α) >>= f) = f a := rfl

theorem bind_eq_ok {α β : Type} {x : Checked α} {f : α → Checked β} {b : β}
    (h : (x >>= f) = .ok b) : ∃ a, x = .ok a ∧ f a = .ok b := by
  cases x with
  | ok a => exact ⟨a, rfl, h⟩
  | error trap => cases h

theorem pure_eq_ok {α : Type} {a b : α} (h : (pure a : Checked α) = .ok b) : a = b :=
  Except.ok.inj h

def get {α : Type} (xs : Array α) (i : Nat) : Checked α :=
  match xs[i]? with
  | some x => .ok x
  | none => .error .outOfBounds

def set {α : Type} (xs : Array α) (i : Nat) (x : α) : Checked (Array α) :=
  if i < xs.size then .ok (xs.setIfInBounds i x) else .error .outOfBounds

def suffix {α : Type} (xs : Array α) (start : Nat) : Checked (Array α) :=
  if start ≤ xs.size then .ok (xs.extract start xs.size) else .error .outOfBounds

def increment (n : Nat) : Checked Nat := if n + 1 < 2 ^ 64 then .ok (n + 1) else .error .overflow

def minus (m n : Nat) : Checked Nat := if n ≤ m then .ok (m - n) else .error .underflow

/-- The negated value. The least 32-bit number has none. -/
def negate (value : Int32) : Checked Int32 :=
  if value = Int32.minValue then .error .overflow else .ok (-value)

def position (pos : Nat) : Checked Nat := if pos < 2 ^ 33 then .ok pos else .error .position

theorem get_eq_ok {α : Type} {xs : Array α} {i : Nat} {x : α} (h : xs[i]? = some x) :
    get xs i = .ok x := by
  unfold get; rw [h]

theorem minus_add (m n : Nat) : minus (m + n) n = .ok m := by
  unfold minus; rw [if_pos (by omega), Nat.add_sub_cancel]

theorem position_of_le {pos : Nat} (h : pos ≤ 2 ^ 32) : position pos = .ok pos :=
  if_pos (by omega)

end Checked

end TransducerLookup
