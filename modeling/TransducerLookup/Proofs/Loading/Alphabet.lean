import TransducerLookup.Alphabet

/-!
# Alphabets made from texts

While texts are added one by one, `Interned` holds: every flag refers to a
feature and a value that have names, and there are no more names than texts.
For an alphabet that fits the 16-bit symbol ids no id is cut off, so the
feature of every flag lies below the feature count and its value is not
negative.
-/

namespace TransducerLookup

/-! ## Names -/

namespace NameTable

theorem intern_fst_lt (t : NameTable) (name : String) :
    (t.intern name).1 < (t.intern name).2.size :=
  (Array.getElem?_eq_some_iff.1 (name?_intern t name)).1

theorem size_intern (t : NameTable) (name : String) :
    t.size ≤ (t.intern name).2.size ∧ (t.intern name).2.size ≤ t.size + 1 := by
  by_cases h : name ∈ t.names
  · rw [intern_of_mem h]; omega
  · rw [intern_of_notMem h]; simp [size]

end NameTable

namespace Flag.Names

/-- The feature and the value of an operation are ids that these names have given. -/
def Give (names : Names) (o : Operation) : Prop :=
  ∃ feature value, feature < names.features.size ∧ value < names.values.size ∧
    o.feature = UInt16.ofNat feature ∧ o.value = Int32.ofNat value

/-- At most one more feature and one more value, and none less. -/
structure Grow (names names' : Names) : Prop where
  features_ge : names.features.size ≤ names'.features.size
  features_le : names'.features.size ≤ names.features.size + 1
  values_ge : names.values.size ≤ names'.values.size
  values_le : names'.values.size ≤ names.values.size + 1

theorem Grow.refl (names : Names) : Grow names names :=
  ⟨Nat.le_refl _, Nat.le_succ _, Nat.le_refl _, Nat.le_succ _⟩

theorem Give.mono {names names' : Names} {o : Operation} (h : names.Give o)
    (hgrow : Grow names names') : names'.Give o := by
  obtain ⟨f, v, hf, hv, heq⟩ := h
  exact ⟨f, v, Nat.lt_of_lt_of_le hf hgrow.features_ge, Nat.lt_of_lt_of_le hv hgrow.values_ge, heq⟩

theorem give_operation (names : Names) (flag : Spelling) :
    (names.operation flag).2.Give (names.operation flag).1 :=
  ⟨_, _, NameTable.intern_fst_lt _ _, NameTable.intern_fst_lt _ _, rfl, rfl⟩

theorem grow_operation (names : Names) (flag : Spelling) :
    Grow names (names.operation flag).2 :=
  have hf := NameTable.size_intern names.features flag.feature
  have hv := NameTable.size_intern names.values flag.value
  ⟨hf.1, hf.2, hv.1, hv.2⟩

theorem grow_read (names : Names) (text : List Char) : Grow names (names.read text).2 := by
  unfold read
  split
  · exact .refl names
  · exact grow_operation names _

theorem give_read {names : Names} {text : List Char} {o : Operation}
    (h : (names.read text).1 = some o) : (names.read text).2.Give o := by
  unfold read at h ⊢
  split at h
  · cases h
  · next flag hflag =>
    simp only at h ⊢
    obtain rfl := Option.some.inj h
    exact give_operation names flag

end Flag.Names

/-! ## Symbols -/

namespace Symbol

theorem grow_ofText (names : Flag.Names) (text : String) : names.Grow (ofText names text).2 := by
  have h := names.grow_read text.toList
  unfold ofText
  split
  · split
    · next heq => rwa [heq] at h
    · next heq => rwa [heq] at h
  · exact .refl names

theorem give_ofText {names : Flag.Names} {text : String} {o : Flag.Operation}
    (h : (ofText names text).1 = .flag o) : (ofText names text).2.Give o := by
  unfold ofText at h ⊢
  split at h
  · next hshape =>
    rw [if_pos hshape]
    split at h
    · next o' names' heq =>
      obtain rfl := Symbol.flag.inj h
      have := Flag.Names.give_read (o := o') (by rw [heq])
      simpa only [heq] using this
    · cases h
  · cases h

/-- A flag-shaped text gives a symbol without text, even if it spells no flag. -/
theorem text_ofText (names : Flag.Names) (text : String) :
    (ofText names text).1.text = if Flag.isShaped text.toList then "" else text := by
  unfold ofText
  split
  · split <;> rfl
  · rfl

theorem operation?_of_text_ne {s : Symbol} (h : s.text ≠ "") : s.operation? = none := by
  cases s <;> first | rfl | exact absurd rfl h

end Symbol

/-! ## Alphabets -/

namespace Alphabet

/-- The flags use names of the alphabet, and these come from its texts. -/
structure Interned (a : Alphabet) : Prop where
  give : ∀ (i : Nat) o, a.symbols[i]? = some (Symbol.flag o) → a.names.Give o
  features_le : a.featureCount ≤ a.size
  values_le : a.names.values.size ≤ a.size + 1

theorem size_addText (a : Alphabet) (text : String) : (a.addText text).size = a.size + 1 := by
  simp [addText, size]

theorem Interned.addText {a : Alphabet} (h : a.Interned) (text : String) :
    (a.addText text).Interned := by
  have hgrow := Symbol.grow_ofText a.names text
  have hsize := size_addText a text
  refine ⟨?_, ?_, ?_⟩
  · intro i o ho
    simp only [Alphabet.addText, Array.getElem?_push] at ho
    split at ho
    · exact Symbol.give_ofText (Option.some.inj ho)
    · exact (h.give i o ho).mono hgrow
  · have := h.features_le
    have hle : (a.addText text).featureCount ≤ a.featureCount + 1 := hgrow.features_le
    omega
  · have := h.values_le
    have hle : (a.addText text).names.values.size ≤ a.names.values.size + 1 := hgrow.values_le
    omega

theorem foldl_addText {a : Alphabet} (h : a.Interned) (texts : List String) :
    (texts.foldl addText a).Interned ∧ (texts.foldl addText a).size = a.size + texts.length := by
  induction texts generalizing a with
  | nil => exact ⟨h, rfl⟩
  | cons text texts ih =>
    obtain ⟨h1, h2⟩ := ih (h.addText text)
    rw [size_addText] at h2
    exact ⟨h1, by rw [List.foldl_cons, h2, List.length_cons]; omega⟩

theorem interned_ofTexts (texts : Array String) :
    (ofTexts texts).Interned ∧ (ofTexts texts).size = texts.size := by
  have h0 : Interned { symbols := #[], names := .initial } :=
    ⟨fun i o h => by simp at h, Nat.zero_le _, Nat.le_refl _⟩
  obtain ⟨h, hsize⟩ := foldl_addText h0 texts.toList
  rw [Array.foldl_toList] at h hsize
  have hlen : (ofTexts texts).size = texts.size := by
    simpa [ofTexts, size] using hsize
  refine ⟨⟨?_, ?_, ?_⟩, hlen⟩
  · intro i o ho
    simp only [ofTexts, Array.getElem?_setIfInBounds] at ho
    split at ho
    · split at ho <;> cases ho
    · exact h.give i o ho
  · exact Nat.le_trans h.features_le (by simp [ofTexts, size])
  · exact Nat.le_trans h.values_le (by simp [ofTexts, size])

theorem texts_addText (a : Alphabet) (text : String) :
    (a.addText text).texts = a.texts ++ [if Flag.isShaped text.toList then "" else text] := by
  rw [← Symbol.text_ofText a.names text]
  simp [addText, Alphabet.texts]

theorem texts_foldl_addText (a : Alphabet) (texts : List String) :
    (texts.foldl addText a).texts =
      a.texts ++ texts.map fun text => if Flag.isShaped text.toList then "" else text := by
  induction texts generalizing a with
  | nil => exact (List.append_nil _).symm
  | cons text texts ih =>
    rw [List.foldl_cons, ih, texts_addText, List.append_assoc]
    rfl

/-- Symbols have their texts in the file, except that epsilon and flags have none. -/
theorem texts_ofTexts (texts : List String) :
    (ofTexts texts.toArray).texts =
      (texts.map fun text => if Flag.isShaped text.toList then "" else text).set 0 "" := by
  have hset : (ofTexts texts.toArray).texts =
      (texts.foldl addText { symbols := #[], names := .initial }).texts.set 0 "" := by
    rw [ofTexts, List.foldl_toArray]
    simp [Alphabet.texts, List.map_set, Symbol.text]
  rw [hset, texts_foldl_addText]
  rfl

/-- Symbol 0 is epsilon, whatever its text in the file. -/
theorem eq_epsilon_of_getElem?_zero {texts : Array String} {s : Symbol}
    (h : (ofTexts texts).symbols[0]? = some s) : s = .epsilon := by
  have h' : (if 0 < (texts.foldl addText { symbols := #[], names := .initial }).symbols.size then
      some Symbol.epsilon else none) = some s := by
    simpa only [ofTexts, Array.getElem?_setIfInBounds, if_pos] using h
  split at h'
  · exact (Option.some.inj h').symm
  · cases h'

theorem text?_epsilonId {texts : Array String} {text : String}
    (h : (ofTexts texts).text? epsilonId = some text) : text = "" := by
  obtain ⟨s, hs, rfl⟩ := Option.map_eq_some_iff.1 h
  rw [eq_epsilon_of_getElem?_zero hs]; rfl

theorem operation?_eq_some_iff {a : Alphabet} {id : SymbolId} {o : Flag.Operation} :
    a.operation? id = some o ↔ a.symbols[id.toNat]? = some (.flag o) := by
  simp only [operation?, Option.bind_eq_some_iff]
  constructor
  · rintro ⟨s, hs, ho⟩
    cases s <;> simp_all [Symbol.operation?]
  · intro h
    exact ⟨_, h, rfl⟩

theorem operation?_epsilonId (texts : Array String) :
    (ofTexts texts).operation? epsilonId = none := by
  cases h : (ofTexts texts).operation? epsilonId with
  | none => rfl
  | some o => cases eq_epsilon_of_getElem?_zero (operation?_eq_some_iff.1 h)

theorem operation?_noSymbol {a : Alphabet} (h : a.size ≤ noSymbol.toNat) :
    a.operation? noSymbol = none := by
  rw [operation?, Array.getElem?_eq_none h]; rfl

theorem Interned.operation_range {a : Alphabet} (h : a.Interned) (hsize : a.size ≤ noSymbol.toNat)
    {id : SymbolId} {o : Flag.Operation} (ho : a.operation? id = some o) :
    o.feature.toNat < a.featureCount ∧ 0 ≤ o.value.toInt := by
  obtain ⟨f, v, hf, hv, hfeature, hvalue⟩ := h.give _ o (operation?_eq_some_iff.1 ho)
  have hmax : noSymbol.toNat = 65535 := rfl
  have hwidth : UInt16.size = 65536 := rfl
  have hfeatures := h.features_le
  have hvalues := h.values_le
  change f < a.featureCount at hf
  constructor
  · rw [hfeature, UInt16.toNat_ofNat_of_lt' (show f < UInt16.size by omega)]
    exact hf
  · rw [hvalue, Int32.toInt_ofNat_of_lt (by omega)]
    omega

end Alphabet

end TransducerLookup
