import TransducerLookup.Header.Properties
import TransducerLookup.Stream

/-!
# The file header

A file may open with a versioned preamble: five magic bytes, a length `L` in
two bytes and `L + 1` bytes of body, of which the first is ignored and the rest
lists properties. The header proper always takes 56 bytes, little-endian: two
16-bit counts, five 32-bit counts (index cells, transition cells, states and
transitions) and nine truth values of four bytes each, where any nonzero word
is true.
-/

namespace TransducerLookup

structure Header where
  inputSymbolCount : UInt16
  symbolCount : UInt16
  indexTableSize : UInt32
  transitionTableSize : UInt32
  stateCount : UInt32
  transitionCount : UInt32
  weighted : Bool
  deterministic : Bool
  inputDeterministic : Bool
  minimized : Bool
  cyclic : Bool
  hasEpsilonEpsilonTransitions : Bool
  hasInputEpsilonTransitions : Bool
  hasInputEpsilonCycles : Bool
  hasUnweightedInputEpsilonCycles : Bool
  /-- The properties of the preamble, if the file has one. -/
  preamble : Option Properties := none
  deriving DecidableEq, Repr

namespace Header

def hasPreamble (h : Header) : Bool := h.preamble.isSome

def properties (h : Header) : Properties := h.preamble.getD []

def property? (h : Header) (key : String) : Option String := h.properties.find? key

/-- The five bytes that open a preamble. -/
def magic : List UInt8 := [0x48, 0x46, 0x53, 0x54, 0x00]

def size : Nat := 56

/-- The header that these bytes spell. -/
def ofBytes (bytes : List UInt8) : Header where
  inputSymbolCount := Record.field16 bytes 0
  symbolCount := Record.field16 bytes 2
  indexTableSize := Record.field32 bytes 4
  transitionTableSize := Record.field32 bytes 8
  stateCount := Record.field32 bytes 12
  transitionCount := Record.field32 bytes 16
  weighted := Record.flag bytes 20
  deterministic := Record.flag bytes 24
  inputDeterministic := Record.flag bytes 28
  minimized := Record.flag bytes 32
  cyclic := Record.flag bytes 36
  hasEpsilonEpsilonTransitions := Record.flag bytes 40
  hasInputEpsilonTransitions := Record.flag bytes 44
  hasInputEpsilonCycles := Record.flag bytes 48
  hasUnweightedInputEpsilonCycles := Record.flag bytes 52

/-! The sizes of what follows the header -/

theorem toNat_symbolCount (bytes : List UInt8) :
    (ofBytes bytes).symbolCount.toNat = Record.field bytes 2 2 :=
  Record.toNat_field16 bytes 2

theorem toNat_indexTableSize (bytes : List UInt8) :
    (ofBytes bytes).indexTableSize.toNat = Record.field bytes 4 4 :=
  Record.toNat_field32 bytes 4

theorem toNat_transitionTableSize (bytes : List UInt8) :
    (ofBytes bytes).transitionTableSize.toNat = Record.field bytes 8 4 :=
  Record.toNat_field32 bytes 8

theorem weighted_eq (bytes : List UInt8) :
    (ofBytes bytes).weighted = decide (Record.field bytes 20 4 ≠ 0) :=
  Record.flag_eq bytes 20

/-- The properties, read after the magic bytes. -/
def decodePreamble : Decoder Properties := do
  let length ← Decoder.word16 .preamble
  let body ← Decoder.block (length.toNat + 1) .preamble
  return Properties.ofBytes body.tail

/-- The header proper, of which the bytes `head` have been read. -/
def decodeRest (head : List UInt8) : Decoder Header := do
  let rest ← Decoder.fixed (size - head.length) .header
  return ofBytes (head ++ rest)

/-- Five bytes tell whether there is a preamble; without one they already
belong to the header proper. -/
def decode : Decoder Header := do
  let head ← Decoder.fixed 5 .header
  if head = magic then
    let properties ← decodePreamble
    let header ← decodeRest (← Decoder.fixed 5 .header)
    return { header with preamble := some properties }
  else
    decodeRest head

end Header

end TransducerLookup
