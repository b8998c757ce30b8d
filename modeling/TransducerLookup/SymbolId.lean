/-!
# Symbol ids

Tables and tokens refer to symbols by 16-bit ids. Id 0 is epsilon, which reads
and writes nothing; the largest id is no symbol at all and marks the end of the
input, empty cells and final states.
-/

namespace TransducerLookup

abbrev SymbolId := UInt16

def epsilonId : SymbolId := 0

def noSymbol : SymbolId := 0xFFFF

end TransducerLookup
