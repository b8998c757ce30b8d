import TransducerLookup.LoadError
import TransducerLookup.Record

/-!
# Byte streams and the reads on them

A stream holds the bytes that it will still deliver and what a read past them
meets: the end of the data, or a fault. Every read either takes its bytes from
the front or fails and uses up all that was left.

There are two families of reads, which differ only in how they report a fault.
Fixed reads (`fixed`, the words, `untilNul`) count a fault of kind
`unexpectedEnd` as truncation; `block` reports every fault as such.
-/

namespace TransducerLookup

/-- All that reads tell apart about faults. -/
inductive FaultKind where
  | unexpectedEnd
  | other
  deriving DecidableEq, Repr

/-- A refused permission is a fault like any other. -/
abbrev FaultKind.permissionDenied : FaultKind := other

structure Fault where
  kind : FaultKind
  text : String
  deriving DecidableEq, Repr

/-- What a read past the last byte meets. -/
inductive Ending where
  | endOfData
  | fault (f : Fault)
  deriving DecidableEq, Repr

namespace Ending

/-- The error of a fixed read that met this ending. -/
def fixedError (part : Section) : Ending → LoadError
  | endOfData => .truncated part
  | fault f => if f.kind = .unexpectedEnd then .truncated part else .streamFault f.text

/-- The error of a block read that met this ending. -/
def blockError (part : Section) : Ending → LoadError
  | endOfData => .truncated part
  | fault f => .streamFault f.text

end Ending

structure Stream where
  /-- The bytes still to be delivered. -/
  pending : List UInt8
  ending : Ending
  deriving DecidableEq, Repr

namespace Stream

def ofBytes (data : List UInt8) : Stream := ⟨data, .endOfData⟩

/-- Delivers the first `after` bytes and then fails; data that ends before that
point just ends. -/
def failingAfter (data : List UInt8) (after : Nat) (f : Fault) : Stream :=
  if after ≤ data.length then ⟨data.take after, .fault f⟩ else ofBytes data

def advance (s : Stream) (n : Nat) : Stream := { s with pending := s.pending.drop n }

def exhausted (s : Stream) : Stream := { s with pending := [] }

end Stream

/-- A reader of one item of a file. -/
abbrev Decoder := EStateM LoadError Stream

namespace Decoder

/-- Exactly `n` bytes; `onShort` says how a stream that has fewer is reported. -/
def take (n : Nat) (onShort : Ending → LoadError) : Decoder (List UInt8) := fun s =>
  if n ≤ s.pending.length then .ok (s.pending.take n) (s.advance n)
  else .error (onShort s.ending) s.exhausted

/-- An item whose size the format fixes. -/
def fixed (n : Nat) (part : Section) : Decoder (List UInt8) := take n (·.fixedError part)

/-- An item whose size was itself read from the file. -/
def block (n : Nat) (part : Section) : Decoder (List UInt8) := take n (·.blockError part)

def byte (part : Section) : Decoder UInt8 := do
  return (littleEndian (← fixed 1 part)).toUInt8

def word16 (part : Section) : Decoder UInt16 := do
  return (littleEndian (← fixed 2 part)).toUInt16

def word32 (part : Section) : Decoder UInt32 := do
  return (littleEndian (← fixed 4 part)).toUInt32

/-- The bytes before the next NUL, which is taken too. -/
def untilNul (part : Section) : Decoder (List UInt8) := fun s =>
  match s.pending.dropWhile (· ≠ 0) with
  | _ :: rest => .ok (s.pending.takeWhile (· ≠ 0)) { s with pending := rest }
  | [] => .error (s.ending.fixedError part) s.exhausted

theorem take_of_le {n : Nat} {onShort : Ending → LoadError} {s : Stream}
    (h : n ≤ s.pending.length) :
    take n onShort s = .ok (s.pending.take n) (s.advance n) := if_pos h

theorem take_of_lt {n : Nat} {onShort : Ending → LoadError} {s : Stream}
    (h : s.pending.length < n) :
    take n onShort s = .error (onShort s.ending) s.exhausted := if_neg (Nat.not_le_of_lt h)

theorem untilNul_of_pending_eq {part : Section} {s : Stream} {bytes rest : List UInt8}
    (h : s.pending = bytes ++ 0 :: rest) (hbytes : 0 ∉ bytes) :
    untilNul part s = .ok bytes { s with pending := rest } := by
  have hall : ∀ b ∈ bytes, decide (b ≠ 0) = true := fun b hb =>
    decide_eq_true fun h0 => hbytes (h0 ▸ hb)
  rw [untilNul, h, List.takeWhile_append_of_pos hall, List.dropWhile_append_of_pos hall]
  simp

theorem untilNul_of_notMem {part : Section} {s : Stream} (h : 0 ∉ s.pending) :
    untilNul part s = .error (s.ending.fixedError part) s.exhausted := by
  have hall : ∀ b ∈ s.pending, decide (b ≠ 0) = true := fun b hb =>
    decide_eq_true fun h0 => h (h0 ▸ hb)
  have hdrop : (s.pending ++ []).dropWhile (· ≠ 0) = [] := List.dropWhile_append_of_pos hall
  rw [List.append_nil] at hdrop
  rw [untilNul, hdrop]

theorem bind_eq_ok {α β : Type} {x : Decoder α} {f : α → Decoder β} {s s' : Stream} {b : β}
    (h : (x >>= f) s = .ok b s') : ∃ a s₁, x s = .ok a s₁ ∧ f a s₁ = .ok b s' := by
  change EStateM.bind x f s = _ at h
  unfold EStateM.bind at h
  split at h
  · exact ⟨_, _, ‹_›, h⟩
  · cases h

theorem pure_eq_ok {α : Type} {a b : α} {s s' : Stream}
    (h : (pure a : Decoder α) s = .ok b s') : a = b := by
  cases h; rfl

end Decoder

end TransducerLookup
