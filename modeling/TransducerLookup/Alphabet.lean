import TransducerLookup.Flag.Names
import TransducerLookup.Stream
import TransducerLookup.SymbolId
import TransducerLookup.Text.Utf8

/-!
# The alphabet of a transducer

The alphabet section holds one NUL-terminated UTF-8 text per symbol, in the
order of the ids. Symbol 0 is epsilon, whatever its text. A flag-shaped text is
either a flag diacritic or, if it spells none, a symbol without text. All other
symbols stand for their text.
-/

namespace TransducerLookup

inductive Symbol where
  | epsilon
  | plain (text : String)
  | flag (operation : Flag.Operation)
  /-- Flag-shaped, but no flag. -/
  | malformedFlag
  deriving DecidableEq, Repr

namespace Symbol

/-- What the symbol contributes to an output, and what it reads of an input. -/
def text : Symbol → String
  | plain text => text
  | _ => ""

def operation? : Symbol → Option Flag.Operation
  | flag operation => some operation
  | _ => none

/-- The symbol that a text in the file stands for, and the flag names seen so far. -/
def ofText (names : Flag.Names) (text : String) : Symbol × Flag.Names :=
  if Flag.isShaped text.toList then
    match names.read text.toList with
    | (some operation, names) => (flag operation, names)
    | (none, names) => (malformedFlag, names)
  else
    (plain text, names)

end Symbol

structure Alphabet where
  /-- The symbols by id. -/
  symbols : Array Symbol
  names : Flag.Names
  deriving DecidableEq, Repr

namespace Alphabet

def size (a : Alphabet) : Nat := a.symbols.size

def texts (a : Alphabet) : List String := a.symbols.toList.map Symbol.text

def text? (a : Alphabet) (id : SymbolId) : Option String := a.symbols[id.toNat]?.map Symbol.text

def operation? (a : Alphabet) (id : SymbolId) : Option Flag.Operation :=
  a.symbols[id.toNat]?.bind Symbol.operation?

def featureCount (a : Alphabet) : Nat := a.names.features.size

def featureName? (a : Alphabet) (feature : UInt16) : Option String :=
  a.names.features.name? feature.toNat

def valueName? (a : Alphabet) (value : Int32) : Option String :=
  if value < 0 then none else a.names.values.name? value.toInt.toNat

/-- Adds the symbol of one more text. -/
def addText (a : Alphabet) (text : String) : Alphabet :=
  let (symbol, names) := Symbol.ofText a.names text
  { symbols := a.symbols.push symbol, names }

/-- The alphabet with these texts in the file. The text of symbol 0 counts for
the flag names only. -/
def ofTexts (texts : Array String) : Alphabet :=
  let a := texts.foldl addText { symbols := #[], names := .initial }
  { a with symbols := a.symbols.setIfInBounds 0 .epsilon }

/-- Reads `count` more texts after those in `texts`. -/
def decodeTexts : Nat → Array String → Decoder (Array String)
  | 0, texts => return texts
  | count + 1, texts => do
    let bytes ← Decoder.untilNul .alphabet
    match Utf8.decode? bytes with
    | some text => decodeTexts count (texts.push text)
    | none => throw (.invalidSymbol texts.size)

theorem decodeTexts_succ (count : Nat) (texts : Array String) :
    decodeTexts (count + 1) texts = Decoder.untilNul .alphabet >>= fun bytes =>
      (Utf8.decode? bytes).elim (throw (.invalidSymbol texts.size))
        fun text => decodeTexts count (texts.push text) := by
  rw [decodeTexts]
  refine congrArg (Decoder.untilNul .alphabet >>= ·) (funext fun bytes => ?_)
  cases Utf8.decode? bytes <;> rfl

def decode (count : Nat) : Decoder Alphabet := do
  return ofTexts (← decodeTexts count #[])

end Alphabet

end TransducerLookup
