/-!
# Addresses

A state lives in the index table or in the transition table, at the cell that
its address names. A target is the 32-bit form of an address: its upper half
addresses the transition table. The largest target is the one of absent cells.
-/

namespace TransducerLookup

abbrev Target := UInt32

def noTarget : Target := 0xFFFFFFFF

inductive Address where
  | index (offset : Nat)
  | transition (offset : Nat)
  deriving DecidableEq, Repr

namespace Address

/-- The least target that addresses the transition table. -/
def pivot : Nat := 0x80000000

def ofTarget (target : Target) : Address :=
  if target.toNat < pivot then index target.toNat else transition (target.toNat - pivot)

def offset : Address → Nat
  | index offset => offset
  | transition offset => offset

end Address

end TransducerLookup
