import TransducerLookup.Flag.Basic

/-!
# The flag values along a path

A row holds the value of every feature. The stack has one row for the start of
the path, which is all neutral, and one for each flag accepted since; the top
row is what the next flag is checked against.
-/

namespace TransducerLookup.Flag

/-- The value of each feature, by feature id. -/
abbrev Row := Array Int32

namespace Row

def neutral (featureCount : Nat) : Row := Array.replicate featureCount Flag.neutral

/-- The row after a flag, or `none` if the flag is refused: its feature is
unknown, or its check rejects the value in the row. -/
def after? (row : Row) (o : Operation) : Option Row :=
  match row[o.feature.toNat]? with
  | none => none
  | some current =>
    match o.check current with
    | .reject => none
    | .accept => some row
    | .update value => some (row.setIfInBounds o.feature.toNat value)

theorem size_of_after? {row row' : Row} {o : Operation} (h : after? row o = some row') :
    row'.size = row.size := by
  unfold after? at h
  split at h
  · simp at h
  · split at h
    · simp at h
    · rw [← Option.some.inj h]
    · rw [← Option.some.inj h, Array.size_setIfInBounds]

end Row

/-- A stack of rows, never empty. -/
structure Stack where
  top : Row
  below : List Row
  deriving DecidableEq, Repr

namespace Stack

/-- The stack at the start of a path. -/
def start (featureCount : Nat) : Stack := ⟨Row.neutral featureCount, []⟩

def rows (s : Stack) : List Row := s.top :: s.below

def depth (s : Stack) : Nat := s.rows.length

/-- The stack after a flag, or `none` if the flag is refused. Acceptance adds a
row even if no value changes. -/
def push? (s : Stack) (o : Operation) : Option Stack :=
  (Row.after? s.top o).map fun row => ⟨row, s.rows⟩

/-- Takes the top row off, unless it is the only one. -/
def pop (s : Stack) : Stack :=
  match s.below with
  | [] => s
  | row :: rows => ⟨row, rows⟩

theorem rows_of_push? {s s' : Stack} {o : Operation} (h : s.push? o = some s') :
    s'.rows = s'.top :: s.rows := by
  obtain ⟨row, -, rfl⟩ := Option.map_eq_some_iff.1 h
  rfl

theorem pop_of_push? {s s' : Stack} {o : Operation} (h : s.push? o = some s') : s'.pop = s := by
  obtain ⟨row, -, rfl⟩ := Option.map_eq_some_iff.1 h
  rfl

end Stack

end TransducerLookup.Flag
