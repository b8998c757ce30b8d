/-!
# Weights

A weight is a single-precision number, kept as its 32 bits so that weights are
compared and written exactly.
-/

namespace TransducerLookup

structure Weight where
  bits : UInt32
  deriving DecidableEq, Repr

namespace Weight

def zero : Weight := ⟨0⟩

def negativeZero : Weight := ⟨0x80000000⟩

def one : Weight := ⟨0x3F800000⟩

/-- Every bit of the exponent is set, and some bit of the fraction. -/
def isNaN (w : Weight) : Bool := 0x7F800000 < w.bits &&& 0x7FFFFFFF

/-- The sum rounded to nearest, ties to even. -/
def add (v w : Weight) : Weight := ⟨(Float32.ofBits v.bits + Float32.ofBits w.bits).toBits⟩

instance : Add Weight := ⟨add⟩

/-- The sum from left to right. It starts from negative zero, so that no
weights at all and weights that are all negative zero sum to negative zero. -/
def sum (weights : List Weight) : Weight := weights.foldl add negativeZero

end Weight

end TransducerLookup
