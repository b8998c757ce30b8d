import TransducerLookup.Transducer
import TransducerLookup.Proofs.Loading.Alphabet
import TransducerLookup.Proofs.Trie.LongestMatch

/-!
# Tokens

The texts of the symbols below the header's input symbol count are registered at
their ids. So a token is the last of these symbols with its text. None is
`noSymbol`, and since only plain symbols have a text, none carries a flag.
-/

namespace TransducerLookup.Transducer

/-- The texts of the symbols that text is cut into, registered at their ids. -/
def inputRegistrations (t : Transducer) : Registrations :=
  .numbered (t.alphabet.texts.take t.header.inputSymbolCount.toNat)

theorem trie_eq_registered (t : Transducer) : t.trie = t.inputRegistrations.trie :=
  t.trie_eq.trans (Registrations.trie_numbered _).symm

/-- The texts that the trie registers are those of the symbols below the input symbol count. -/
theorem getElem?_inputTexts {t : Transducer} {i : Nat} {word : String} :
    (t.alphabet.texts.take t.header.inputSymbolCount.toNat)[i]? = some word ↔
      i < t.header.inputSymbolCount.toNat ∧ t.alphabet.text? (UInt16.ofNat i) = some word := by
  rw [List.getElem?_take]
  split
  · next hlt =>
    have hcount := t.header.inputSymbolCount.toNat_lt
    simp [hlt, Alphabet.texts, Alphabet.text?,
      UInt16.toNat_ofNat_of_lt' (show i < 2 ^ 16 by omega)]
  · next hge => simp [hge]

/-- The id that counts is the last below the input symbol count with the text. -/
theorem last_of_id?_inputRegistrations {t : Transducer} {id : SymbolId} {word : String}
    (h : t.inputRegistrations.id? word = some id) :
    id.toNat < t.header.inputSymbolCount.toNat ∧ t.alphabet.text? id = some word ∧
      ∀ other : SymbolId, other.toNat < t.header.inputSymbolCount.toNat →
        t.alphabet.text? other = some word → other.toNat ≤ id.toNat := by
  obtain ⟨i, hi, rfl, hlast⟩ := Registrations.last_of_id?_numbered h
  obtain ⟨hinput, htext⟩ := getElem?_inputTexts.1 hi
  have hcount := t.header.inputSymbolCount.toNat_lt
  have hid : (UInt16.ofNat i).toNat = i := UInt16.toNat_ofNat_of_lt' (show i < 2 ^ 16 by omega)
  rw [hid]
  exact ⟨hinput, htext, fun other hother htext' =>
    hlast _ (getElem?_inputTexts.2 ⟨hother, by rwa [UInt16.ofNat_toNat]⟩)⟩

theorem exists_words_of_tokenize {t : Transducer} {text : String} {tokens : List SymbolId}
    (h : t.tokenize text = some tokens) : ∃ words, String.join words = text ∧
      List.Forall₂ (fun id word => word ≠ "" ∧ t.inputRegistrations.id? word = some id)
        tokens words := by
  rw [tokenize, trie_eq_registered, Registrations.tokenize_eq_some_iff] at h
  obtain ⟨words, hjoin, hwords⟩ := h.exists_words
  exact ⟨words, hjoin.trans (String.ofList_toList), hwords⟩

theorem mem_tokenize {t : Transducer} {text : String} {tokens : List SymbolId}
    (h : t.tokenize text = some tokens) {s : SymbolId} (hs : s ∈ tokens) :
    s.toNat < t.header.inputSymbolCount.toNat ∧
      ∃ word, word ≠ "" ∧ t.alphabet.text? s = some word := by
  obtain ⟨words, -, hwords⟩ := exists_words_of_tokenize h
  obtain ⟨i, rfl⟩ := List.mem_iff_get.1 hs
  obtain ⟨hne, hid⟩ := hwords.get i.isLt (hwords.length_eq ▸ i.isLt)
  obtain ⟨hlt, htext, -⟩ := last_of_id?_inputRegistrations hid
  exact ⟨hlt, _, hne, htext⟩

theorem noSymbol_notMem_tokenize {t : Transducer} {text : String} {tokens : List SymbolId}
    (h : t.tokenize text = some tokens) : noSymbol ∉ tokens := by
  intro hs
  have hlt := (mem_tokenize h hs).1
  have hcount := t.header.inputSymbolCount.toNat_lt
  have hmax : noSymbol.toNat = 65535 := rfl
  omega

theorem operation?_of_mem_tokenize {t : Transducer} {text : String} {tokens : List SymbolId}
    (h : t.tokenize text = some tokens) {s : SymbolId} (hs : s ∈ tokens) :
    t.operation? s = none := by
  obtain ⟨-, word, hne, htext⟩ := mem_tokenize h hs
  obtain ⟨symbol, hsymbol, rfl⟩ := Option.map_eq_some_iff.1 htext
  rw [operation?, Alphabet.operation?, hsymbol]
  exact Symbol.operation?_of_text_ne hne

end TransducerLookup.Transducer
