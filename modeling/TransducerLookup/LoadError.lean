/-!
# Why a transducer cannot be loaded

A transducer file is read section by section. Loading stops at the first item
that cannot be completed, and the error names the cause: the data ended, a
symbol is not text, or the stream itself failed.
-/

namespace TransducerLookup

/-- A part of a transducer file, known by the name that error messages give it. -/
structure Section where
  name : String
  deriving DecidableEq, Repr

namespace Section

def header : Section := ⟨"header"⟩

def preamble : Section := ⟨"preamble"⟩

def alphabet : Section := ⟨"alphabet"⟩

def indexTable : Section := ⟨"index table"⟩

def transitionTable : Section := ⟨"transition table"⟩

end Section

inductive LoadError where
  /-- The data ended inside a section. -/
  | truncated (part : Section)
  /-- The bytes of a symbol are not well-formed UTF-8. -/
  | invalidSymbol (id : Nat)
  /-- The stream failed; the text is the stream's own account of it. -/
  | streamFault (text : String)
  deriving DecidableEq, Repr

def LoadError.message : LoadError → String
  | truncated part => "unexpected end of data while reading " ++ part.name
  | invalidSymbol id => "symbol " ++ toString id ++ " is not valid UTF-8"
  | streamFault text => "I/O error: " ++ text

end TransducerLookup
