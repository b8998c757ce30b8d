import TransducerLookup.Proofs.Flag.FirstSeen
import TransducerLookup.Proofs.Loading.Image

/-!
# Decoded alphabets

The symbols of an alphabet are made from its texts as `Symbol.ofReading` says,
with the operations of all flags read in order. So every symbol but epsilon is
of one of three kinds, which its text decides, and the ids of an operation lead
back to the names in the text of its own symbol (`Decoded`).
-/

namespace TransducerLookup

open TransducerLookup.Flag (Names flagsOf featuresOf valuesOf operationIn Fits)
open TransducerLookup.Flag.Spelling (IsFlag)

namespace Symbol

/-- The symbol of a text that was read as this operation. -/
def ofReading (text : String) (operation? : Option Flag.Operation) : Symbol :=
  if Flag.isShaped text.toList then operation?.elim malformedFlag flag else plain text

theorem ofText_eq (names : Names) (text : String) : ofText names text =
    (ofReading text (names.read text.toList).1, (names.read text.toList).2) := by
  unfold ofText ofReading
  split
  · cases h : names.read text.toList with
    | mk operation? names' => cases operation? <;> rfl
  · next h =>
    rw [Names.read_of_ofText?_eq_none names (if_neg h)]

end Symbol

namespace Alphabet

/-- The symbol of a text among these. -/
def symbolIn (texts : List String) (text : String) : Symbol :=
  .ofReading text ((Flag.Spelling.ofText? text.toList).map (operationIn (flagsOf texts)))

theorem addText_eq (a : Alphabet) (text : String) : a.addText text =
    { symbols := a.symbols.push (.ofReading text (a.names.read text.toList).1)
      names := (a.names.read text.toList).2 } := by
  rw [addText, Symbol.ofText_eq]

theorem foldl_addText_eq (texts : List String) :
    texts.foldl addText { symbols := #[], names := .initial } =
      { symbols := (List.zipWith Symbol.ofReading texts (Names.initial.readAll texts).1).toArray
        names := (Names.initial.readAll texts).2 } := by
  induction texts using List.reverseRecOn with
  | nil => rfl
  | append_singleton texts text ih =>
    have hlength : texts.length = (Names.initial.readAll texts).1.length := by
      rw [Names.fst_readAll, List.length_map]
    rw [List.foldl_append, ih, List.foldl_cons, List.foldl_nil, addText_eq, Names.readAll_concat,
      List.zipWith_append hlength]
    simp

theorem symbols_foldl_addText (texts : List String) :
    (texts.foldl addText { symbols := #[], names := .initial }).symbols =
      (texts.map (symbolIn texts)).toArray := by
  rw [foldl_addText_eq, Names.fst_readAll, List.zipWith_map_right, List.zipWith_self]
  rfl

theorem names_ofTexts (texts : List String) :
    (ofTexts texts.toArray).names = (Names.initial.readAll texts).2 := by
  rw [ofTexts, List.foldl_toArray, foldl_addText_eq]

theorem getElem?_symbols (texts : List String) {id : Nat} (h : id ≠ 0) :
    (ofTexts texts.toArray).symbols[id]? = texts[id]?.map (symbolIn texts) := by
  rw [ofTexts, List.foldl_toArray, symbols_foldl_addText]
  simp [Ne.symm h]

theorem valueName?_eq_some_iff {a : Alphabet} {value : Int32} {name : String} :
    a.valueName? value = some name ↔
      0 ≤ value.toInt ∧ a.names.values.name? value.toInt.toNat = some name := by
  have hneg : value < 0 ↔ value.toInt < 0 := Int32.lt_iff_toInt_lt
  unfold valueName?
  split
  · next h =>
    have hlt := hneg.1 h
    simp only [reduceCtorEq, false_iff]
    omega
  · next h =>
    have hle := mt hneg.2 h
    rw [and_iff_right (by omega)]

/-- What a symbol is stored as. -/
inductive Kind where
  /-- Verbatim. -/
  | ordinary
  /-- As an operation without text. -/
  | flag
  /-- Without text or operation. -/
  | placeholder

/-- The text in the file calls for this kind, and the symbol is stored as that. -/
def IsKind (a : Alphabet) (id : SymbolId) (text : String) : Kind → Prop
  | .ordinary => Flag.isShaped text.toList = false ∧
      a.text? id = some text ∧ a.operation? id = none
  | .flag => Flag.isShaped text.toList = true ∧ (∃ flag, IsFlag text.toList flag) ∧
      a.text? id = some "" ∧ ∃ o, a.operation? id = some o
  | .placeholder => Flag.isShaped text.toList = true ∧ (¬ ∃ flag, IsFlag text.toList flag) ∧
      a.text? id = some "" ∧ a.operation? id = none

/-- What the alphabet of these texts is. -/
structure Decoded (texts : List String) (a : Alphabet) : Prop where
  size : a.size = texts.length
  /-- All symbols but epsilon have exactly one kind. -/
  kinds : ∀ (id : SymbolId) (text : String), id ≠ epsilonId → texts[id.toNat]? = some text →
    ∃! kind, a.IsKind id text kind
  epsilon : (texts ≠ [] → a.text? epsilonId = some "") ∧ a.operation? epsilonId = none
  /-- The names in all flags have ids, also those in the text of epsilon. -/
  interned : ∀ text ∈ texts, ∀ flag, IsFlag text.toList flag →
    (∃ feature, a.featureName? feature = some flag.feature) ∧
      ∃ value, a.valueName? value = some flag.value
  /-- An operation is that of the flag in the text of its symbol. -/
  operation : ∀ (id : SymbolId) (o : Flag.Operation), a.operation? id = some o →
    ∃ text flag, texts[id.toNat]? = some text ∧ IsFlag text.toList flag ∧
      o.operator = flag.operator ∧
      o.feature.toNat < a.featureCount ∧ a.featureName? o.feature = some flag.feature ∧
      0 ≤ o.value.toInt ∧ o.value.toInt < a.names.values.size ∧
        a.valueName? o.value = some flag.value
  /-- Two operations have the same id if and only if their texts have the same name. -/
  shared : ∀ (id id' : SymbolId) (o o' : Flag.Operation) (text text' : String)
    (flag flag' : Flag.Spelling), a.operation? id = some o → a.operation? id' = some o' →
    texts[id.toNat]? = some text → texts[id'.toNat]? = some text' →
    IsFlag text.toList flag → IsFlag text'.toList flag' →
      (o.feature = o'.feature ↔ flag.feature = flag'.feature) ∧
      (o.value = o'.value ↔ flag.value = flag'.value)
  outside : ∀ id : SymbolId, texts.length ≤ id.toNat → a.text? id = none ∧ a.operation? id = none
  noSymbol : a.text? noSymbol = none ∧ a.operation? noSymbol = none

section OfTexts

variable {texts : List String}

theorem isShaped_of_isFlag {text : List Char} {flag : Flag.Spelling} (h : IsFlag text flag) :
    Flag.isShaped text = true := by
  obtain ⟨operator, body, hwritten, -⟩ := h
  exact Flag.isShaped_iff.2 ⟨_, body, hwritten.text_eq, hwritten.two_le_length⟩

theorem symbolIn_eq_flag_iff {text : String} {o : Flag.Operation} :
    symbolIn texts text = .flag o ↔
      ∃ flag, IsFlag text.toList flag ∧ o = operationIn (flagsOf texts) flag := by
  simp only [← Flag.Spelling.ofText?_eq_some_iff]
  unfold symbolIn Symbol.ofReading
  constructor
  · intro h
    split at h
    · cases hflag : Flag.Spelling.ofText? text.toList with
      | none => rw [hflag] at h; cases h
      | some flag =>
        rw [hflag] at h
        exact ⟨flag, rfl, (Symbol.flag.inj h).symm⟩
    · cases h
  · rintro ⟨flag, hflag, rfl⟩
    rw [if_pos (isShaped_of_isFlag (Flag.Spelling.ofText?_eq_some_iff.1 hflag)), hflag]
    rfl

theorem text_symbolIn (text : String) :
    (symbolIn texts text).text = if Flag.isShaped text.toList then "" else text := by
  unfold symbolIn Symbol.ofReading
  split
  · cases Flag.Spelling.ofText? text.toList <;> rfl
  · rfl

theorem ne_epsilonId {id : SymbolId} (h : id ≠ epsilonId) : id.toNat ≠ 0 :=
  fun hzero => h (UInt16.toNat_inj.1 hzero)

/-- Just the flags have operations, apart from epsilon. -/
theorem operation?_ofTexts {id : SymbolId} {o : Flag.Operation} :
    (ofTexts texts.toArray).operation? id = some o ↔ id ≠ epsilonId ∧
      ∃ text flag, texts[id.toNat]? = some text ∧ IsFlag text.toList flag ∧
        o = operationIn (flagsOf texts) flag := by
  by_cases h : id = epsilonId
  · rw [h, operation?_epsilonId]
    simp
  · rw [operation?_eq_some_iff, getElem?_symbols texts (ne_epsilonId h), Option.map_eq_some_iff]
    simp only [symbolIn_eq_flag_iff, ne_eq, h, not_false_eq_true, true_and]
    constructor
    · rintro ⟨text, htext, flag, hflag, ho⟩
      exact ⟨text, flag, htext, hflag, ho⟩
    · rintro ⟨text, flag, htext, hflag, ho⟩
      exact ⟨text, htext, flag, hflag, ho⟩

theorem operation?_ofTexts_eq_none {id : SymbolId}
    (h : ∀ text, texts[id.toNat]? = some text → ¬ ∃ flag, IsFlag text.toList flag) :
    (ofTexts texts.toArray).operation? id = none := by
  refine Option.eq_none_iff_forall_ne_some.2 fun o ho => ?_
  obtain ⟨-, text, flag, htext, hflag, -⟩ := operation?_ofTexts.1 ho
  exact h text htext ⟨flag, hflag⟩

theorem text?_ofTexts {id : SymbolId} (h : id ≠ epsilonId) {text : String}
    (htext : texts[id.toNat]? = some text) : (ofTexts texts.toArray).text? id =
      some (if Flag.isShaped text.toList then "" else text) := by
  rw [text?, getElem?_symbols texts (ne_epsilonId h), htext, Option.map_some, Option.map_some,
    text_symbolIn]

/-- A symbol but epsilon is of the kind that its text calls for. -/
theorem existsUnique_isKind {id : SymbolId} (h : id ≠ epsilonId) {text : String}
    (htext : texts[id.toNat]? = some text) :
    ∃! kind, (ofTexts texts.toArray).IsKind id text kind := by
  have hstored := text?_ofTexts h htext
  have hnone (hflag : ¬ ∃ flag, IsFlag text.toList flag) :
      (ofTexts texts.toArray).operation? id = none := by
    refine operation?_ofTexts_eq_none fun text' htext' => ?_
    obtain rfl := Option.some.inj (htext.symm.trans htext')
    exact hflag
  by_cases hshaped : Flag.isShaped text.toList = true
  · rw [if_pos hshaped] at hstored
    by_cases hflag : ∃ flag, IsFlag text.toList flag
    · obtain ⟨flag, hwritten⟩ := hflag
      have hoperation := operation?_ofTexts.2 ⟨h, text, flag, htext, hwritten, rfl⟩
      refine ⟨.flag, ⟨hshaped, ⟨flag, hwritten⟩, hstored, _, hoperation⟩, ?_⟩
      rintro (_ | _ | _) hkind
      · exact absurd hshaped (by simp [hkind.1])
      · rfl
      · exact absurd ⟨flag, hwritten⟩ hkind.2.1
    · refine ⟨.placeholder, ⟨hshaped, hflag, hstored, hnone hflag⟩, ?_⟩
      rintro (_ | _ | _) hkind
      · exact absurd hshaped (by simp [hkind.1])
      · exact absurd hkind.2.1 hflag
      · rfl
  · have hflag : ¬ ∃ flag, IsFlag text.toList flag :=
      fun ⟨_, hwritten⟩ => hshaped (isShaped_of_isFlag hwritten)
    rw [if_neg hshaped] at hstored
    refine ⟨.ordinary, ⟨by simpa using hshaped, hstored, hnone hflag⟩, ?_⟩
    rintro (_ | _ | _) hkind
    · rfl
    · exact absurd hkind.1 hshaped
    · exact absurd hkind.1 hshaped

theorem fits_flagsOf (h : texts.length ≤ noSymbol.toNat) : Fits (flagsOf texts) := by
  have hmax : noSymbol.toNat = 65535 := rfl
  have hflags : (flagsOf texts).length ≤ texts.length := List.length_filterMap_le _ _
  have hfeatures := length_eraseDups_le ((flagsOf texts).map (·.feature))
  have hvalues := length_eraseDups_le ("" :: (flagsOf texts).map (·.value))
  rw [List.length_map] at hfeatures
  rw [List.length_cons, List.length_map] at hvalues
  constructor
  · unfold featuresOf
    omega
  · unfold valuesOf
    omega

theorem flag_eq {text text' : String} {flag flag' : Flag.Spelling} {i : Nat}
    (htext : texts[i]? = some text) (hflag : IsFlag text.toList flag)
    (htext' : texts[i]? = some text') (hflag' : IsFlag text'.toList flag') :
    flag = flag' := by
  obtain rfl := Option.some.inj (htext.symm.trans htext')
  rw [← Flag.Spelling.ofText?_eq_some_iff] at hflag hflag'
  exact Option.some.inj (hflag.symm.trans hflag')

theorem mem_flagsOf {i : Nat} {text : String} {flag : Flag.Spelling}
    (htext : texts[i]? = some text) (hflag : IsFlag text.toList flag) : flag ∈ flagsOf texts :=
  Flag.flag_mem_flagsOf htext (Flag.Spelling.ofText?_eq_some_iff.2 hflag)

theorem decoded_ofTexts (h : texts.length ≤ noSymbol.toNat) :
    Decoded texts (ofTexts texts.toArray) := by
  have hfits := fits_flagsOf h
  have hnames : (ofTexts texts.toArray).names.Lists (flagsOf texts) := by
    rw [names_ofTexts]
    exact Names.lists_readAll texts
  have hname {flag : Flag.Spelling} (hflag : flag ∈ flagsOf texts) :
      (ofTexts texts.toArray).featureName? (operationIn (flagsOf texts) flag).feature =
          some flag.feature ∧
        (ofTexts texts.toArray).valueName? (operationIn (flagsOf texts) flag).value =
          some flag.value := by
    obtain ⟨hfeature, hvalue⟩ := hfits.name? hnames hflag
    refine ⟨hfeature, valueName?_eq_some_iff.2 ⟨?_, hvalue⟩⟩
    rw [hfits.toInt_value hflag]
    exact Int.natCast_nonneg _
  have hsize : (ofTexts texts.toArray).size = texts.length := (interned_ofTexts texts.toArray).2
  have houtside (id : SymbolId) (hid : texts.length ≤ id.toNat) :
      (ofTexts texts.toArray).text? id = none ∧ (ofTexts texts.toArray).operation? id = none := by
    rw [text?, operation?, Array.getElem?_eq_none (hsize.trans_le hid)]
    exact ⟨rfl, rfl⟩
  refine {
    size := hsize
    kinds := fun id text hid htext => existsUnique_isKind hid htext
    epsilon := ⟨fun hne => ?_, operation?_epsilonId texts.toArray⟩
    interned := fun text htext flag hflag => ?_
    operation := fun id o ho => ?_
    shared := fun id id' o o' text text' flag flag' ho ho' htext htext' hflag hflag' => ?_
    outside := houtside
    noSymbol := houtside noSymbol h }
  · have hlt : 0 < (ofTexts texts.toArray).symbols.size := by
      rw [← size, hsize]
      exact List.length_pos_iff.2 hne
    have hsymbol := Array.getElem?_eq_getElem hlt
    rw [eq_epsilon_of_getElem?_zero hsymbol] at hsymbol
    exact congrArg (Option.map Symbol.text) hsymbol
  · obtain ⟨hfeature, hvalue⟩ := hname (List.mem_filterMap.2
      ⟨text, htext, Flag.Spelling.ofText?_eq_some_iff.2 hflag⟩)
    exact ⟨⟨_, hfeature⟩, _, hvalue⟩
  · obtain ⟨-, text, flag, htext, hflag, rfl⟩ := operation?_ofTexts.1 ho
    obtain ⟨hfeature, hvalue⟩ := hname (mem_flagsOf htext hflag)
    obtain ⟨hpositive, hplace⟩ := valueName?_eq_some_iff.1 hvalue
    refine ⟨text, flag, htext, hflag, rfl, ?_, hfeature, hpositive, ?_, hvalue⟩
    · exact (Array.getElem?_eq_some_iff.1 hfeature).1
    · have hlt := (Array.getElem?_eq_some_iff.1 hplace).1
      change _ < (ofTexts texts.toArray).names.values.size at hlt
      omega
  · obtain ⟨-, text₁, flag₁, htext₁, hflag₁, rfl⟩ := operation?_ofTexts.1 ho
    obtain ⟨-, text₂, flag₂, htext₂, hflag₂, rfl⟩ := operation?_ofTexts.1 ho'
    obtain rfl := flag_eq htext hflag htext₁ hflag₁
    obtain rfl := flag_eq htext' hflag' htext₂ hflag₂
    have hmem := mem_flagsOf htext hflag
    have hmem' := mem_flagsOf htext' hflag'
    exact ⟨hfits.feature_eq_iff hmem hmem', hfits.value_eq_iff hmem hmem'⟩

end OfTexts

/-- Decoding succeeds with the alphabet of texts that are in front of the stream. -/
theorem decoded_of_decode {count : UInt16} {s s' : Stream} {a : Alphabet}
    (h : decode count.toNat s = .ok a s') : ∃ texts : List String,
      texts.length = count.toNat ∧ (∀ text ∈ texts, 0 ∉ Utf8.encode text) ∧
        s.pending = texts.flatMap Image.textBytes ++ s'.pending ∧ Decoded texts a := by
  obtain ⟨_, ⟨texts, hlength, hzero, rfl, rfl⟩, hs⟩ := (reads_alphabet count.toNat _ _ _).1 h
  have hlt := count.toNat_lt
  have hmax : noSymbol.toNat = 65535 := rfl
  exact ⟨texts, hlength, hzero, congrArg Stream.pending hs, decoded_ofTexts (by omega)⟩

/-- A flag as the text of epsilon, one more that shares its feature, a symbol that is none, and one
that only looks like one. -/
def mixedTexts : List String := ["@P.CASE.NOM@", "@R.CASE.ACC@", "cat", "@X.CASE.NOM@"]

theorem decoded_of_decode_mixedTexts :
    decode (4 : UInt16).toNat (.ofBytes (mixedTexts.flatMap Image.textBytes)) =
      .ok (ofTexts mixedTexts.toArray) (.ofBytes []) ∧
    (∃ texts : List String, texts.length = (4 : UInt16).toNat ∧
      (∀ text ∈ texts, 0 ∉ Utf8.encode text) ∧
      mixedTexts.flatMap Image.textBytes = texts.flatMap Image.textBytes ++ [] ∧
      Decoded texts (ofTexts mixedTexts.toArray)) ∧
    (ofTexts mixedTexts.toArray).symbols =
      #[.epsilon, .flag ⟨.require, 0, 2⟩, .plain "cat", .malformedFlag] := by
  have h : decode (4 : UInt16).toNat (.ofBytes (mixedTexts.flatMap Image.textBytes)) =
      .ok (ofTexts mixedTexts.toArray) (.ofBytes []) :=
    (reads_alphabet _ _ _ _).2 ⟨_, ⟨mixedTexts, rfl, by decide +kernel, rfl, rfl⟩, rfl⟩
  exact ⟨h, decoded_of_decode h, by decide +kernel⟩

end Alphabet

end TransducerLookup
