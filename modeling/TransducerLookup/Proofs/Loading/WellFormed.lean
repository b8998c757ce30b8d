import Mathlib.Algebra.Group.Nat.Defs
import TransducerLookup.Proofs.Loading.Tokens

/-!
# Loaded transducers

`WellFormed` collects what loading guarantees for every byte stream, however
corrupt the tables in it: the alphabet is made from texts and fits the 16-bit
symbol ids, and the transition table fits 32-bit counts.
-/

namespace TransducerLookup

/-! ## Decoders that succeed -/

theorem Alphabet.size_of_decodeTexts {count : Nat} {texts texts' : Array String} {s s' : Stream}
    (h : decodeTexts count texts s = .ok texts' s') : texts'.size = texts.size + count := by
  induction count generalizing texts s with
  | zero => rw [← Decoder.pure_eq_ok h]; rfl
  | succ count ih =>
    obtain ⟨bytes, s₁, -, h⟩ := Decoder.bind_eq_ok h
    cases htext : Utf8.decode? bytes with
    | some text => rw [htext] at h; rw [ih h, Array.size_push]; omega
    | none => rw [htext] at h; cases h

theorem Alphabet.exists_of_decode {count : Nat} {a : Alphabet} {s s' : Stream}
    (h : decode count s = .ok a s') : ∃ texts : Array String, a = ofTexts texts ∧
      texts.size = count := by
  obtain ⟨texts, s₁, htexts, h⟩ := Decoder.bind_eq_ok h
  have hsize := size_of_decodeTexts htexts
  exact ⟨texts, (Decoder.pure_eq_ok h).symm, by rw [hsize]; exact Nat.zero_add count⟩

theorem TransitionTable.size_of_decode {count : Nat} {weighted : Bool} {t : TransitionTable}
    {s s' : Stream} (h : decode count weighted s = .ok t s') : t.size = count := by
  obtain ⟨bytes, s₁, -, h⟩ := Decoder.bind_eq_ok h
  rw [← Decoder.pure_eq_ok h]
  exact Record.size_collect _ _ count bytes

/-! ## What loading guarantees -/

namespace Transducer

structure WellFormed (t : Transducer) : Prop where
  alphabet : ∃ texts : Array String, t.alphabet = .ofTexts texts ∧ texts.size ≤ noSymbol.toNat
  transitions_lt : t.transitions.size < 2 ^ 32

/-- The header of a loaded transducer counts its symbols and its transition cells. -/
theorem counts_of_load {s : Stream} {t : Transducer} (h : load s = .ok t) :
    (∃ texts : Array String, t.alphabet = .ofTexts texts ∧
      texts.size = t.header.symbolCount.toNat) ∧
    t.transitions.size = t.header.transitionTableSize.toNat := by
  obtain ⟨s', hdecode⟩ := load_eq_ok_iff.1 h
  obtain ⟨header, s₁, -, hdecode⟩ := Decoder.bind_eq_ok hdecode
  obtain ⟨alphabet, s₂, halphabet, hdecode⟩ := Decoder.bind_eq_ok hdecode
  obtain ⟨index, s₃, -, hdecode⟩ := Decoder.bind_eq_ok hdecode
  obtain ⟨transitions, s₄, htransitions, hdecode⟩ := Decoder.bind_eq_ok hdecode
  rw [← Decoder.pure_eq_ok hdecode]
  exact ⟨Alphabet.exists_of_decode halphabet, TransitionTable.size_of_decode htransitions⟩

theorem wellFormed_of_load {s : Stream} {t : Transducer} (h : load s = .ok t) : t.WellFormed := by
  obtain ⟨⟨texts, htexts, hsize⟩, htransitions⟩ := counts_of_load h
  have hcount := t.header.symbolCount.toNat_lt
  have hmax : noSymbol.toNat = 65535 := rfl
  exact ⟨⟨texts, htexts, by omega⟩, htransitions ▸ t.header.transitionTableSize.toNat_lt⟩

theorem size_alphabet_of_load {s : Stream} {t : Transducer} (h : load s = .ok t) :
    t.alphabet.size = t.header.symbolCount.toNat := by
  obtain ⟨⟨texts, htexts, hsize⟩, -⟩ := counts_of_load h
  rw [htexts, (Alphabet.interned_ofTexts texts).2, hsize]

/-- A file says nothing about limits. -/
theorem limits_of_load {s : Stream} {t : Transducer} (h : load s = .ok t) : t.limits = {} := by
  obtain ⟨s', hdecode⟩ := load_eq_ok_iff.1 h
  obtain ⟨header, s₁, -, hdecode⟩ := Decoder.bind_eq_ok hdecode
  obtain ⟨alphabet, s₂, -, hdecode⟩ := Decoder.bind_eq_ok hdecode
  obtain ⟨index, s₃, -, hdecode⟩ := Decoder.bind_eq_ok hdecode
  obtain ⟨transitions, s₄, -, hdecode⟩ := Decoder.bind_eq_ok hdecode
  rw [← Decoder.pure_eq_ok hdecode]

namespace WellFormed

variable {t : Transducer} (ht : t.WellFormed)
include ht

/-- Changing the limits changes nothing that was loaded. -/
theorem withLimits (limits : Limits) : (t.withLimits limits).WellFormed :=
  ⟨ht.alphabet, ht.transitions_lt⟩

theorem operation?_noSymbol : t.operation? noSymbol = none := by
  obtain ⟨texts, htexts, hsize⟩ := ht.alphabet
  rw [operation?, htexts]
  exact Alphabet.operation?_noSymbol (by rw [(Alphabet.interned_ofTexts texts).2]; exact hsize)

theorem operation?_epsilonId : t.operation? epsilonId = none := by
  obtain ⟨texts, htexts, -⟩ := ht.alphabet
  rw [operation?, htexts]
  exact Alphabet.operation?_epsilonId texts

theorem operation_range {id : SymbolId} {o : Flag.Operation} (ho : t.operation? id = some o) :
    o.feature.toNat < t.alphabet.featureCount ∧ 0 ≤ o.value.toInt := by
  obtain ⟨texts, htexts, hsize⟩ := ht.alphabet
  obtain ⟨hinterned, hlen⟩ := Alphabet.interned_ofTexts texts
  rw [operation?, htexts] at ho
  rw [htexts]
  exact hinterned.operation_range (by rw [hlen]; exact hsize) ho

theorem ne_epsilonId_of_mem_tokenize {text : String} {tokens : List SymbolId}
    (h : t.tokenize text = some tokens) : epsilonId ∉ tokens := by
  intro hs
  obtain ⟨-, word, hne, hword⟩ := mem_tokenize h hs
  obtain ⟨texts, htexts, -⟩ := ht.alphabet
  rw [htexts] at hword
  exact hne (Alphabet.text?_epsilonId hword)

end WellFormed

/-! ## A small file -/

/-- A file of two symbols with text and one flag. On `a` it has a path through the flag that
writes `a`, and one without it that writes `b`. -/
def smallFile : List UInt8 :=
  -- The header: symbol counts, table sizes, and nothing else set.
  [2, 0, 4, 0, 3, 0, 0, 0, 6, 0, 0, 0] ++ List.replicate 44 0
  -- The symbols: epsilon, `a`, `b` and the flag `@P.F.V@`.
  ++ [0, 97, 0, 98, 0, 64, 80, 46, 70, 46, 86, 64, 0]
  -- The index table: a state that is not final, with cells for epsilon and `a`.
  ++ [255, 255, 255, 255, 255, 255, 0, 0, 0, 0, 0, 128, 1, 0, 1, 0, 0, 128]
  -- The transition table: `@P.F.V@`, `a:b`, a state with `a:a`, and a final state.
  ++ [3, 0, 0, 0, 2, 0, 0, 128, 1, 0, 2, 0, 4, 0, 0, 128]
  ++ [255, 255, 255, 255, 255, 255, 255, 255, 1, 0, 1, 0, 4, 0, 0, 128]
  ++ [255, 255, 255, 255, 1, 0, 0, 0, 255, 255, 255, 255, 255, 255, 255, 255]

theorem eq_ok_get {e : Except LoadError Transducer} (h : e.toOption.isSome = true) :
    e = .ok (e.toOption.get h) := by
  cases e with
  | ok t => rfl
  | error e => cases h

theorem isSome_ofBytes_smallFile : (ofBytes smallFile).toOption.isSome = true := by
  decide +kernel

def small : Transducer := (ofBytes smallFile).toOption.get isSome_ofBytes_smallFile

theorem ofBytes_smallFile : ofBytes smallFile = .ok small := eq_ok_get isSome_ofBytes_smallFile

end Transducer

end TransducerLookup
