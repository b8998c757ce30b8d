import Mathlib.Algebra.Group.Nat.Defs
import Mathlib.Data.List.Nodup
import Mathlib.Data.List.Perm.Subperm
import TransducerLookup.Flag.Names
import TransducerLookup.Proofs.Flag.Grammar

/-!
# Ids in first-seen order

Names are listed in the order in which they first come up, and the id of a name
is its place in that list. So reading texts one after the other gives each flag
the ids of its feature and its value in the lists of all flags (`fst_readAll`),
and ids stay what they are while more texts are read. As long as no id is cut
off, different names have different ids.
-/

namespace TransducerLookup

theorem eraseDups_concat (names : List String) (name : String) :
    (names ++ [name]).eraseDups = names.eraseDups ++ if name ∈ names then [] else [name] := by
  rw [List.eraseDups_append]
  by_cases h : name ∈ names <;> simp [List.removeAll, List.eraseDups_cons, h]

theorem nodup_eraseDups (names : List String) : names.eraseDups.Nodup := by
  induction names using List.reverseRecOn with
  | nil => exact List.nodup_nil
  | append_singleton names name ih =>
    rw [eraseDups_concat]
    split
    · rwa [List.append_nil]
    · next h =>
      rw [← List.concat_eq_append]
      exact ih.concat (by rwa [List.mem_eraseDups])

theorem length_eraseDups_le (names : List String) : names.eraseDups.length ≤ names.length :=
  (List.subperm_of_subset (nodup_eraseDups names) fun _ => List.mem_eraseDups.1).length_le

namespace NameTable

theorem names_intern (t : NameTable) (name : String) : (t.intern name).2.names.toList =
    t.names.toList ++ if name ∈ t.names.toList then [] else [name] := by
  by_cases h : name ∈ t.names
  · rw [intern_of_mem h, if_pos (Array.mem_toList_iff.2 h), List.append_nil]
  · rw [intern_of_notMem h, if_neg (fun h' => h (Array.mem_toList_iff.1 h')), Array.toList_push]

theorem fst_intern {t : NameTable} (h : t.names.toList.Nodup) (name : String) :
    (t.intern name).1 = (t.intern name).2.names.toList.idxOf name := by
  obtain ⟨hlt, hname⟩ := Array.getElem?_eq_some_iff.1 (name?_intern t name)
  have hplace := (nodup_intern h name).idxOf_getElem _ hlt
  rw [Array.getElem_toList, hname] at hplace
  exact hplace.symm

/-- The id is one that the first table has given, and the second is no other, or it is the next. -/
def Gives (before after : NameTable) (id : Nat) : Prop :=
  id < before.size ∧ after = before ∨ id = before.size ∧ after.size = before.size + 1

/-- Ids that the first table has given keep their names in the second. -/
def Keeps (before after : NameTable) : Prop :=
  ∀ id name, before.name? id = some name → after.name? id = some name

theorem gives_of_toList {before after : NameTable} {name : String} (h : after.names.toList =
    before.names.toList ++ if name ∈ before.names.toList then [] else [name]) :
    before.Gives after (after.names.toList.idxOf name) := by
  have hsize (t : NameTable) : t.size = t.names.toList.length := Array.length_toList.symm
  unfold Gives
  by_cases hname : name ∈ before.names.toList
  · rw [if_pos hname, List.append_nil] at h
    refine .inl ⟨?_, congrArg NameTable.mk (Array.toList_inj.1 h)⟩
    rw [h, hsize]
    exact List.idxOf_lt_length_of_mem hname
  · rw [if_neg hname] at h
    refine .inr ⟨?_, ?_⟩
    · rw [h, List.idxOf_append_of_notMem hname, List.idxOf_cons_self, Nat.add_zero, hsize]
    · rw [hsize, hsize, h, List.length_append, List.length_singleton]

theorem keeps_of_prefix {before after : NameTable}
    (h : before.names.toList <+: after.names.toList) : before.Keeps after := by
  intro id name hname
  rw [name?, ← Array.getElem?_toList] at hname ⊢
  obtain ⟨rest, hrest⟩ := h
  rw [← hrest, List.getElem?_append_left (List.getElem?_eq_some_iff.1 hname).1, hname]

end NameTable

namespace Flag

def flagsOf (texts : List String) : List Spelling :=
  texts.filterMap fun text => Spelling.ofText? text.toList

/-- The features of the flags, each once, in the order in which they first come up. -/
def featuresOf (flags : List Spelling) : List String := (flags.map (·.feature)).eraseDups

/-- The values of the flags, likewise, behind the empty value. -/
def valuesOf (flags : List Spelling) : List String := ("" :: flags.map (·.value)).eraseDups

def operationIn (flags : List Spelling) (flag : Spelling) : Operation where
  operator := flag.operator
  feature := UInt16.ofNat ((featuresOf flags).idxOf flag.feature)
  value := Int32.ofNat ((valuesOf flags).idxOf flag.value)

section Lists

variable {flags more : List Spelling} {flag : Spelling}

theorem featuresOf_concat (flags : List Spelling) (flag : Spelling) :
    featuresOf (flags ++ [flag]) = featuresOf flags ++
      if flag.feature ∈ featuresOf flags then [] else [flag.feature] := by
  unfold featuresOf
  rw [List.map_append, List.map_singleton, eraseDups_concat]
  simp only [List.mem_eraseDups]

theorem valuesOf_concat (flags : List Spelling) (flag : Spelling) :
    valuesOf (flags ++ [flag]) = valuesOf flags ++
      if flag.value ∈ valuesOf flags then [] else [flag.value] := by
  unfold valuesOf
  rw [List.map_append, List.map_singleton, ← List.cons_append, eraseDups_concat]
  simp only [List.mem_eraseDups]

theorem prefix_featuresOf_append (flags more : List Spelling) :
    featuresOf flags <+: featuresOf (flags ++ more) := by
  unfold featuresOf
  rw [List.map_append, List.eraseDups_append]
  exact List.prefix_append ..

theorem prefix_valuesOf_append (flags more : List Spelling) :
    valuesOf flags <+: valuesOf (flags ++ more) := by
  unfold valuesOf
  rw [List.map_append, ← List.cons_append, List.eraseDups_append]
  exact List.prefix_append ..

theorem feature_mem_featuresOf (h : flag ∈ flags) : flag.feature ∈ featuresOf flags :=
  List.mem_eraseDups.2 (List.mem_map_of_mem h)

theorem value_mem_valuesOf (h : flag ∈ flags) : flag.value ∈ valuesOf flags :=
  List.mem_eraseDups.2 (List.mem_cons_of_mem _ (List.mem_map_of_mem h))

theorem idxOf_of_prefix_left {names names' : List String} {name : String} (h : names <+: names')
    (hname : name ∈ names) : names'.idxOf name = names.idxOf name := by
  obtain ⟨rest, rfl⟩ := h
  exact List.idxOf_append_of_mem hname

theorem operationIn_append (h : flag ∈ flags) (more : List Spelling) :
    operationIn (flags ++ more) flag = operationIn flags flag := by
  unfold operationIn
  rw [idxOf_of_prefix_left (prefix_featuresOf_append flags more) (feature_mem_featuresOf h),
    idxOf_of_prefix_left (prefix_valuesOf_append flags more) (value_mem_valuesOf h)]

end Lists

namespace Names

/-- The names are those of these flags, in first-seen order. -/
structure Lists (names : Names) (flags : List Spelling) : Prop where
  features : names.features.names.toList = featuresOf flags
  values : names.values.names.toList = valuesOf flags

variable {names : Names} {flags : List Spelling}

theorem lists_initial : initial.Lists [] := ⟨rfl, rfl⟩

theorem read_of_ofText?_eq_none (names : Names) {text : List Char}
    (h : Spelling.ofText? text = none) : names.read text = (none, names) := by
  rw [read, h]

theorem Lists.operation (h : names.Lists flags) (flag : Spelling) :
    (names.operation flag).2.Lists (flags ++ [flag]) ∧
      (names.operation flag).1 = operationIn (flags ++ [flag]) flag := by
  have hfeatures : (names.features.intern flag.feature).2.names.toList =
      featuresOf (flags ++ [flag]) := by
    rw [NameTable.names_intern, h.features, featuresOf_concat]
  have hvalues : (names.values.intern flag.value).2.names.toList = valuesOf (flags ++ [flag]) := by
    rw [NameTable.names_intern, h.values, valuesOf_concat]
  refine ⟨⟨hfeatures, hvalues⟩, ?_⟩
  unfold Names.operation operationIn
  dsimp only
  rw [NameTable.fst_intern (by rw [h.features]; exact nodup_eraseDups _), hfeatures,
    NameTable.fst_intern (by rw [h.values]; exact nodup_eraseDups _), hvalues]

/-- Reading one text adds the names of its flag, if it spells one. -/
theorem Lists.read (h : names.Lists flags) (text : List Char) :
    (names.read text).2.Lists (flags ++ (Spelling.ofText? text).toList) ∧
      (names.read text).1 = (Spelling.ofText? text).map fun flag =>
        operationIn (flags ++ [flag]) flag := by
  unfold Names.read
  cases Spelling.ofText? text with
  | none =>
    rw [Option.toList_none, List.append_nil]
    exact ⟨h, rfl⟩
  | some flag =>
    obtain ⟨hlists, hoperation⟩ := h.operation flag
    exact ⟨hlists, congrArg some hoperation⟩

def readAll (names : Names) : List String → List (Option Operation) × Names
  | [] => ([], names)
  | text :: texts =>
    let first := names.read text.toList
    let rest := first.2.readAll texts
    (first.1 :: rest.1, rest.2)

theorem readAll_concat (names : Names) (texts : List String) (text : String) :
    names.readAll (texts ++ [text]) =
      ((names.readAll texts).1 ++ [((names.readAll texts).2.read text.toList).1],
        ((names.readAll texts).2.read text.toList).2) := by
  induction texts generalizing names with
  | nil => rfl
  | cons first texts ih =>
    rw [List.cons_append, readAll, ih]
    rfl

theorem flagsOf_concat (texts : List String) (text : String) : flagsOf (texts ++ [text]) =
    flagsOf texts ++ (Spelling.ofText? text.toList).toList := by
  unfold flagsOf
  rw [List.filterMap_append]
  cases h : Spelling.ofText? text.toList <;> simp [h]

theorem lists_readAll (texts : List String) :
    (initial.readAll texts).2.Lists (flagsOf texts) := by
  induction texts using List.reverseRecOn with
  | nil => exact lists_initial
  | append_singleton texts text ih =>
    rw [readAll_concat, flagsOf_concat]
    exact (ih.read text.toList).1

/-- Each text is read as the operation of its flag among all of them. -/
theorem fst_readAll (texts : List String) : (initial.readAll texts).1 =
    texts.map fun text => (Spelling.ofText? text.toList).map (operationIn (flagsOf texts)) := by
  induction texts using List.reverseRecOn with
  | nil => rfl
  | append_singleton texts text ih =>
    rw [readAll_concat, ih, ((lists_readAll texts).read text.toList).2, List.map_append,
      flagsOf_concat, List.map_singleton]
    refine congrArg₂ _ (List.map_congr_left fun earlier hmem => ?_) ?_
    · cases hflag : Spelling.ofText? earlier.toList with
      | none => rfl
      | some flag =>
        have hmem : flag ∈ flagsOf texts := List.mem_filterMap.2 ⟨earlier, hmem, hflag⟩
        exact congrArg some (operationIn_append hmem _).symm
    · cases Spelling.ofText? text.toList <;> rfl

theorem readAll_take_succ {texts : List String} {i : Nat} {text : String}
    (h : texts[i]? = some text) : (initial.readAll (texts.take (i + 1))).2 =
      ((initial.readAll (texts.take i)).2.read text.toList).2 := by
  rw [List.take_add_one, h, Option.toList_some, readAll_concat]

theorem getElem?_readAll {texts : List String} {i : Nat} {text : String}
    (h : texts[i]? = some text) : (initial.readAll texts).1[i]? =
      some ((Spelling.ofText? text.toList).map (operationIn (flagsOf texts))) := by
  rw [fst_readAll, List.getElem?_map, h, Option.map_some]

end Names

/-! ## Ids that are not cut off -/

section Fits

variable {texts : List String}

/-- No id of these flags is cut off. -/
structure Fits (flags : List Spelling) : Prop where
  features : (featuresOf flags).length ≤ 65536
  values : (valuesOf flags).length ≤ 2 ^ 31

theorem length_valuesOf_le (flags : List Spelling) :
    (valuesOf flags).length ≤ (flags.map (·.value)).eraseDups.length + 1 := by
  have hsub : valuesOf flags ⊆ "" :: (flags.map (·.value)).eraseDups := by
    intro name hname
    simpa [valuesOf, List.mem_eraseDups] using hname
  exact (List.subperm_of_subset (nodup_eraseDups _) hsub).length_le

variable {flags : List Spelling} {flag flag' : Spelling}

theorem Fits.toNat_feature (h : Fits flags) (hflag : flag ∈ flags) :
    (operationIn flags flag).feature.toNat = (featuresOf flags).idxOf flag.feature := by
  have hlt := List.idxOf_lt_length_of_mem (feature_mem_featuresOf hflag)
  have hfits := h.features
  exact UInt16.toNat_ofNat_of_lt' (show _ < 65536 by omega)

theorem Fits.toInt_value (h : Fits flags) (hflag : flag ∈ flags) :
    (operationIn flags flag).value.toInt = (valuesOf flags).idxOf flag.value := by
  have hlt := List.idxOf_lt_length_of_mem (value_mem_valuesOf hflag)
  have hfits := h.values
  exact Int32.toInt_ofNat_of_lt (by omega)

theorem Fits.feature_eq_iff (h : Fits flags) (hflag : flag ∈ flags) (hflag' : flag' ∈ flags) :
    (operationIn flags flag).feature = (operationIn flags flag').feature ↔
      flag.feature = flag'.feature := by
  rw [← UInt16.toNat_inj, h.toNat_feature hflag, h.toNat_feature hflag',
    List.idxOf_inj (feature_mem_featuresOf hflag)]

theorem Fits.value_eq_iff (h : Fits flags) (hflag : flag ∈ flags) (hflag' : flag' ∈ flags) :
    (operationIn flags flag).value = (operationIn flags flag').value ↔
      flag.value = flag'.value := by
  rw [← Int32.toInt_inj, h.toInt_value hflag, h.toInt_value hflag', Int.ofNat_inj,
    List.idxOf_inj (value_mem_valuesOf hflag)]

theorem Fits.value_eq_neutral_iff (h : Fits flags) (hflag : flag ∈ flags) :
    (operationIn flags flag).value = neutral ↔ flag.value = "" := by
  have hempty : (valuesOf flags).idxOf "" = 0 := by
    rw [valuesOf, List.eraseDups_cons]
    exact List.idxOf_cons_self
  rw [← List.idxOf_inj (value_mem_valuesOf hflag), hempty, ← Int32.toInt_inj,
    h.toInt_value hflag]
  exact Int.natCast_eq_zero

/-- The ids lead back to the names. -/
theorem Fits.name? (h : Fits flags) {names : Names} (hlists : names.Lists flags)
    (hflag : flag ∈ flags) :
    names.features.name? (operationIn flags flag).feature.toNat = some flag.feature ∧
      names.values.name? (operationIn flags flag).value.toInt.toNat = some flag.value := by
  rw [h.toNat_feature hflag, h.toInt_value hflag, Int.toNat_natCast]
  unfold NameTable.name?
  rw [← Array.getElem?_toList, ← Array.getElem?_toList, hlists.features, hlists.values]
  exact ⟨List.getElem?_idxOf (feature_mem_featuresOf hflag),
    List.getElem?_idxOf (value_mem_valuesOf hflag)⟩

end Fits

/-! ## Whole sequences -/

open Spelling (IsFlag)

/-- What texts are that are read one after the other, and the names in the end. -/
structure ReadInOrder (texts : List String) (operations : List (Option Operation))
    (names : Names) : Prop where
  length : operations.length = texts.length
  /-- Flags have operations, and other texts have none. -/
  operation_iff : ∀ (i : Nat) (text : String), texts[i]? = some text →
    ((∃ o, operations[i]? = some (some o)) ↔ ∃ flag, IsFlag text.toList flag)
  /-- The ids are those of the feature and the value. -/
  operation : ∀ (i : Nat) (text : String) (flag : Spelling) (o : Operation),
    texts[i]? = some text → IsFlag text.toList flag → operations[i]? = some (some o) →
      o.operator = flag.operator ∧ names.features.name? o.feature.toNat = some flag.feature ∧
      0 ≤ o.value.toInt ∧ names.values.name? o.value.toInt.toNat = some flag.value ∧
      (o.value = neutral ↔ flag.value = "")
  /-- Two flags have the same id if and only if they have the same name. -/
  shared : ∀ (i j : Nat) (text text' : String) (flag flag' : Spelling) (o o' : Operation),
    texts[i]? = some text → texts[j]? = some text' →
    IsFlag text.toList flag → IsFlag text'.toList flag' →
    operations[i]? = some (some o) → operations[j]? = some (some o') →
      (o.feature = o'.feature ↔ flag.feature = flag'.feature) ∧
      (o.value = o'.value ↔ flag.value = flag'.value)
  /-- A flag whose feature or value is new gives it the next id. -/
  gives : ∀ (i : Nat) (o : Operation), operations[i]? = some (some o) →
    (Names.initial.readAll (texts.take i)).2.features.Gives
      (Names.initial.readAll (texts.take (i + 1))).2.features o.feature.toNat ∧
    (Names.initial.readAll (texts.take i)).2.values.Gives
      (Names.initial.readAll (texts.take (i + 1))).2.values o.value.toInt.toNat
  /-- A text that is no flag adds no name. -/
  unchanged : ∀ i : Nat, operations[i]? = some none →
    (Names.initial.readAll (texts.take (i + 1))).2 = (Names.initial.readAll (texts.take i)).2
  keeps : ∀ i, (Names.initial.readAll (texts.take i)).2.features.Keeps names.features ∧
    (Names.initial.readAll (texts.take i)).2.values.Keeps names.values
  nodup : names.features.names.toList.Nodup ∧ names.values.names.toList.Nodup
  value_zero : names.values.name? 0 = some ""

theorem flag_mem_flagsOf {texts : List String} {i : Nat} {text : String} {flag : Spelling}
    (htext : texts[i]? = some text) (hflag : Spelling.ofText? text.toList = some flag) :
    flag ∈ flagsOf texts :=
  List.mem_filterMap.2 ⟨text, List.mem_of_getElem? htext, hflag⟩

theorem exists_flagsOf_eq (texts : List String) (i : Nat) :
    ∃ more, flagsOf texts = flagsOf (texts.take i) ++ more := by
  refine ⟨flagsOf (texts.drop i), ?_⟩
  unfold flagsOf
  rw [← List.filterMap_append, List.take_append_drop]

theorem exists_of_operation {texts : List String} {i : Nat} {o : Operation}
    (h : (Names.initial.readAll texts).1[i]? = some (some o)) :
    ∃ text flag, texts[i]? = some text ∧ Spelling.ofText? text.toList = some flag ∧
      o = operationIn (flagsOf texts) flag := by
  rw [Names.fst_readAll, List.getElem?_map] at h
  obtain ⟨text, htext, h⟩ := Option.map_eq_some_iff.1 h
  obtain ⟨flag, hflag, rfl⟩ := Option.map_eq_some_iff.1 h
  exact ⟨text, flag, htext, hflag, rfl⟩

/-- The names of a flag are new, and get the next ids, or the ids they have. -/
theorem Fits.gives {texts : List String} (h : Fits (flagsOf texts)) {i : Nat} {text : String}
    {flag : Spelling} (htext : texts[i]? = some text)
    (hflag : Spelling.ofText? text.toList = some flag) :
    (Names.initial.readAll (texts.take i)).2.features.Gives
      (Names.initial.readAll (texts.take (i + 1))).2.features
      (operationIn (flagsOf texts) flag).feature.toNat ∧
    (Names.initial.readAll (texts.take i)).2.values.Gives
      (Names.initial.readAll (texts.take (i + 1))).2.values
      (operationIn (flagsOf texts) flag).value.toInt.toNat := by
  have hbefore := Names.lists_readAll (texts.take i)
  have hafter := Names.lists_readAll (texts.take (i + 1))
  have hflags : flagsOf (texts.take (i + 1)) = flagsOf (texts.take i) ++ [flag] := by
    rw [List.take_add_one, htext, Option.toList_some, Names.flagsOf_concat, hflag,
      Option.toList_some]
  have hmem : flag ∈ flagsOf (texts.take (i + 1)) := by rw [hflags]; simp
  -- The place of a name among the flags up to here is its place among all.
  obtain ⟨more, hmore⟩ := exists_flagsOf_eq texts (i + 1)
  have hfeature : (featuresOf (flagsOf texts)).idxOf flag.feature =
      (featuresOf (flagsOf (texts.take (i + 1)))).idxOf flag.feature := by
    rw [hmore, idxOf_of_prefix_left (prefix_featuresOf_append _ more) (feature_mem_featuresOf hmem)]
  have hvalue : (valuesOf (flagsOf texts)).idxOf flag.value =
      (valuesOf (flagsOf (texts.take (i + 1)))).idxOf flag.value := by
    rw [hmore, idxOf_of_prefix_left (prefix_valuesOf_append _ more) (value_mem_valuesOf hmem)]
  have hall := flag_mem_flagsOf htext hflag
  rw [h.toNat_feature hall, h.toInt_value hall, Int.toNat_natCast, hfeature, hvalue,
    ← hafter.features, ← hafter.values]
  constructor
  · refine NameTable.gives_of_toList ?_
    rw [hafter.features, hbefore.features, hflags, featuresOf_concat]
  · refine NameTable.gives_of_toList ?_
    rw [hafter.values, hbefore.values, hflags, valuesOf_concat]

theorem keeps_readAll_take (texts : List String) (i : Nat) :
    (Names.initial.readAll (texts.take i)).2.features.Keeps
      (Names.initial.readAll texts).2.features ∧
    (Names.initial.readAll (texts.take i)).2.values.Keeps
      (Names.initial.readAll texts).2.values := by
  obtain ⟨more, hmore⟩ := exists_flagsOf_eq texts i
  have hbefore := Names.lists_readAll (texts.take i)
  have hafter := Names.lists_readAll texts
  constructor
  · refine NameTable.keeps_of_prefix ?_
    rw [hbefore.features, hafter.features, hmore]
    exact prefix_featuresOf_append _ more
  · refine NameTable.keeps_of_prefix ?_
    rw [hbefore.values, hafter.values, hmore]
    exact prefix_valuesOf_append _ more

theorem readAll_take_succ_of_none {texts : List String} {i : Nat}
    (h : (Names.initial.readAll texts).1[i]? = some none) :
    (Names.initial.readAll (texts.take (i + 1))).2 = (Names.initial.readAll (texts.take i)).2 := by
  rw [Names.fst_readAll, List.getElem?_map] at h
  obtain ⟨text, htext, hnone⟩ := Option.map_eq_some_iff.1 h
  rw [Names.readAll_take_succ htext,
    Names.read_of_ofText?_eq_none _ (Option.map_eq_none_iff.1 hnone)]

theorem nodup_names_readAll (texts : List String) :
    (Names.initial.readAll texts).2.features.names.toList.Nodup ∧
      (Names.initial.readAll texts).2.values.names.toList.Nodup := by
  have hlists := Names.lists_readAll texts
  rw [hlists.features, hlists.values]
  exact ⟨nodup_eraseDups _, nodup_eraseDups _⟩

theorem name?_zero_readAll (texts : List String) :
    (Names.initial.readAll texts).2.values.name? 0 = some "" := by
  rw [NameTable.name?, ← Array.getElem?_toList, (Names.lists_readAll texts).values, valuesOf,
    List.eraseDups_cons]
  rfl

/-- Reading texts one after the other finds their flags and gives their names ids in first-seen
order, while there are no more features and values than ids. -/
theorem readAll_inOrder (texts : List String)
    (hfeatures : ((flagsOf texts).map (·.feature)).eraseDups.length ≤ 65536)
    (hvalues : ((flagsOf texts).map (·.value)).eraseDups.length < 2 ^ 31) :
    ReadInOrder texts (Names.initial.readAll texts).1 (Names.initial.readAll texts).2 := by
  have hfits : Fits (flagsOf texts) := by
    have hle := length_valuesOf_le (flagsOf texts)
    exact ⟨hfeatures, by omega⟩
  have hlists := Names.lists_readAll texts
  have hoperation {i : Nat} {text : String} {flag : Spelling} {o : Operation}
      (htext : texts[i]? = some text) (hflag : IsFlag text.toList flag)
      (ho : (Names.initial.readAll texts).1[i]? = some (some o)) :
      flag ∈ flagsOf texts ∧ o = operationIn (flagsOf texts) flag := by
    have hflag := Spelling.ofText?_eq_some_iff.2 hflag
    rw [Names.getElem?_readAll htext, hflag] at ho
    exact ⟨flag_mem_flagsOf htext hflag, by simpa using ho.symm⟩
  refine {
    length := by rw [Names.fst_readAll, List.length_map]
    operation_iff := fun i text htext => ?_
    operation := fun i text flag o htext hflag ho => ?_
    shared := fun i j text text' flag flag' o o' htext htext' hflag hflag' ho ho' => ?_
    gives := fun i o ho => ?_
    unchanged := fun i hi => readAll_take_succ_of_none hi
    keeps := keeps_readAll_take texts
    nodup := nodup_names_readAll texts
    value_zero := name?_zero_readAll texts }
  · rw [Names.getElem?_readAll htext]
    simp only [← Spelling.ofText?_eq_some_iff]
    cases Spelling.ofText? text.toList <;> simp
  · obtain ⟨hmem, rfl⟩ := hoperation htext hflag ho
    obtain ⟨hfeature, hvalue⟩ := hfits.name? hlists hmem
    refine ⟨rfl, hfeature, ?_, hvalue, hfits.value_eq_neutral_iff hmem⟩
    rw [hfits.toInt_value hmem]
    exact Int.natCast_nonneg _
  · obtain ⟨hmem, rfl⟩ := hoperation htext hflag ho
    obtain ⟨hmem', rfl⟩ := hoperation htext' hflag' ho'
    exact ⟨hfits.feature_eq_iff hmem hmem', hfits.value_eq_iff hmem hmem'⟩
  · obtain ⟨text, flag, htext, hflag, rfl⟩ := exists_of_operation ho
    exact hfits.gives htext hflag

/-- Some flags that share names, among them one without feature and one whose parts are too many
for a value, and two texts that are no flags. -/
def someTexts : List String :=
  ["@P.CASE.NOM@", "@R.CASE@", "@X.CASE.ACC@", "@D..NOM.@", "cat", "@N.NUM.a.b@"]

theorem readAll_inOrder_someTexts :
    ((flagsOf someTexts).map (·.feature)).eraseDups.length ≤ 65536 ∧
    ((flagsOf someTexts).map (·.value)).eraseDups.length < 2 ^ 31 ∧
    ReadInOrder someTexts (Names.initial.readAll someTexts).1
      (Names.initial.readAll someTexts).2 ∧
    (Names.initial.readAll someTexts).1 = [some ⟨.positiveSet, 0, 1⟩, some ⟨.require, 0, 0⟩, none,
      some ⟨.disallow, 1, 1⟩, none, some ⟨.negativeSet, 2, 0⟩] := by
  have hfeatures : ((flagsOf someTexts).map (·.feature)).eraseDups.length ≤ 65536 := by
    decide +kernel
  have hvalues : ((flagsOf someTexts).map (·.value)).eraseDups.length < 2 ^ 31 := by
    decide +kernel
  exact ⟨hfeatures, hvalues, readAll_inOrder someTexts hfeatures hvalues, by decide +kernel⟩

end Flag

end TransducerLookup
