import TransducerLookup.Decimal.Style
import TransducerLookup.Text.Quoted
import TransducerLookup.Weight

/-!
# Analyses

An analysis is what one accepting path says about a text: the symbols that it
writes and its weight. It has a line of plain text, where a tab separates the
two, and a JSON form.
-/

namespace TransducerLookup

namespace Weight

def toBinary (w : Weight) : Decimal.Binary := .ofBits .single w.bits.toNat

/-- The same value as a double-precision number. -/
def toDouble (w : Weight) : Decimal.Binary :=
  .ofBits .double (Float32.ofBits w.bits).toFloat.toBits.toNat

def plainText (w : Weight) : String := Decimal.Style.plain.text w.toBinary

def jsonText (w : Weight) : String := (Decimal.Style.json (-6) 12).text w.toBinary

def wideJsonText (w : Weight) : String := (Decimal.Style.json (-5) 15).text w.toDouble

end Weight

structure Analysis where
  /-- The symbols in path order. -/
  symbols : List String
  weight : Weight
  deriving DecidableEq, Repr

namespace Analysis

/-- The symbols run together. -/
def output (a : Analysis) : String := String.join a.symbols

/-- The output, a tab and the weight. -/
def line (a : Analysis) : String := a.output ++ "\t" ++ a.weight.plainText

/-- The JSON object with this text for the weight. -/
def jsonWith (a : Analysis) (weight : String) : String :=
  "\x7b\"symbols\":[" ++ ",".intercalate (a.symbols.map Quoted.text) ++ "],\"weight\":"
    ++ weight ++ "\x7d"

def json (a : Analysis) : String := a.jsonWith a.weight.jsonText

/-- The JSON object with the weight in double precision. -/
def wideJson (a : Analysis) : String := a.jsonWith a.weight.wideJsonText

end Analysis

end TransducerLookup
