import Mathlib.Data.List.Forall2
import Mathlib.Data.List.Induction
import TransducerLookup.Proofs.Checked.Tokens

/-!
# The longest registered text

A trie is built by registering texts one after the other, each with an id. What
it finds at the front of a text is determined by the registrations alone: the
longest registered text there (`Registrations.Longest`), with the id that this
text was given last (`Registrations.id?`). Cutting a text repeats this until
nothing is left (`Registrations.Cuts`). Where texts are registered at their
places in a list, the last place of a text is its id.
-/

namespace TransducerLookup

/-- Texts with their ids, in the order in which they are registered. -/
abbrev Registrations := List (String × SymbolId)

namespace Registrations

def trie (r : Registrations) : SymbolTrie :=
  r.foldl (fun t (word, id) => t.add word id) .empty

/-- The id that the text was given last. -/
def id? (r : Registrations) (word : String) : Option SymbolId :=
  ((r.filter (·.1 = word)).map Prod.snd).getLast?

/-- Of the registered texts, the empty one apart, the longest that the text begins with. -/
structure Longest (r : Registrations) (text : List Char) (word : String) : Prop where
  registered : ∃ id, (word, id) ∈ r
  ne_empty : word ≠ ""
  front : word.toList <+: text
  longest : ∀ other id, (other, id) ∈ r → other.toList <+: text → other.length ≤ word.length

/-- No registered text, the empty one apart, is one that the text begins with. -/
def NoneFits (r : Registrations) (text : List Char) : Prop :=
  ∀ word id, (word, id) ∈ r → word ≠ "" → ¬ word.toList <+: text

/-- Taking the longest registered text again and again uses up the text, and these are the ids. -/
inductive Cuts (r : Registrations) : List Char → List SymbolId → Prop where
  | done : Cuts r [] []
  | take {text : List Char} {word : String} {id : SymbolId} {ids : List SymbolId} :
      r.Longest text word → r.id? word = some id → Cuts r (text.drop word.length) ids →
      Cuts r text (id :: ids)

/-! ## The id that counts -/

theorem id?_concat (r : Registrations) (word word' : String) (id : SymbolId) :
    id? (r ++ [(word, id)]) word' = if word = word' then some id else r.id? word' := by
  unfold id?
  by_cases h : word = word'
  · simp [List.filter_append, h]
  · simp [List.filter_append, h]

theorem id?_eq_some_iff {r : Registrations} {word : String} {id : SymbolId} :
    r.id? word = some id ↔
      ∃ before after, r = before ++ (word, id) :: after ∧ ∀ entry ∈ after, entry.1 ≠ word := by
  constructor
  · intro h
    induction r using List.reverseRecOn with
    | nil => cases h
    | append_singleton r entry ih =>
      obtain ⟨last, id'⟩ := entry
      rw [id?_concat] at h
      split at h
      · next heq =>
        obtain rfl := Option.some.inj h
        exact ⟨r, [], by rw [heq], nofun⟩
      · next hne =>
        obtain ⟨before, after, rfl, hafter⟩ := ih h
        refine ⟨before, after ++ [(last, id')], by simp, fun entry hentry => ?_⟩
        rcases List.mem_append.1 hentry with hentry | hentry
        · exact hafter entry hentry
        · rw [List.mem_singleton.1 hentry]
          exact hne
  · rintro ⟨before, after, rfl, hafter⟩
    have hnone : after.filter (·.1 = word) = [] :=
      List.filter_eq_nil_iff.2 fun entry hentry => by simpa using hafter entry hentry
    simp [id?, List.filter_append, hnone]

theorem isSome_id?_iff {r : Registrations} {word : String} :
    (r.id? word).isSome ↔ ∃ id, (word, id) ∈ r := by
  constructor
  · intro h
    obtain ⟨id, hid⟩ := Option.isSome_iff_exists.1 h
    obtain ⟨before, after, rfl, -⟩ := id?_eq_some_iff.1 hid
    exact ⟨id, by simp⟩
  · rintro ⟨id, hmem⟩
    unfold id?
    rw [List.getLast?_isSome, ne_eq, List.map_eq_nil_iff, List.filter_eq_nil_iff]
    exact fun hnone => hnone _ hmem (by simp)

/-! ## What the trie holds -/

theorem find?_add (t : SymbolTrie) (word : String) (id : SymbolId) (other : List Char) :
    (t.add word id).find? other =
      if word ≠ "" ∧ other = word.toList then some id else t.find? other := by
  unfold SymbolTrie.add
  by_cases hword : word = ""
  · simp [hword]
  · simp [hword, SymbolTrie.find?_set]

theorem trie_concat (r : Registrations) (word : String) (id : SymbolId) :
    trie (r ++ [(word, id)]) = r.trie.add word id := by
  unfold trie
  rw [List.foldl_append, List.foldl_cons, List.foldl_nil]

/-- The trie holds every registered text with its last id, except the empty one. -/
theorem find?_trie (r : Registrations) (word : String) :
    r.trie.find? word.toList = if word = "" then none else r.id? word := by
  induction r using List.reverseRecOn with
  | nil =>
    show SymbolTrie.empty.find? word.toList = _
    rw [SymbolTrie.find?_empty]
    split <;> rfl
  | append_singleton r entry ih =>
    obtain ⟨last, id⟩ := entry
    rw [trie_concat, find?_add, id?_concat, ih]
    by_cases heq : last = word
    · subst heq
      by_cases hempty : last = ""
      · simp [hempty]
      · simp [hempty]
    · have hne : word.toList ≠ last.toList := fun h => heq (String.toList_inj.1 h).symm
      simp [heq, hne]

theorem find?_trie_eq_some_iff {r : Registrations} {word : List Char} {id : SymbolId} :
    r.trie.find? word = some id ↔ String.ofList word ≠ "" ∧ r.id? (String.ofList word) = some id := by
  have h := find?_trie r (String.ofList word)
  rw [String.toList_ofList] at h
  rw [h]
  split
  · next hempty => simp [hempty]
  · next hempty => simp [hempty]

/-! ## What the trie finds -/

theorem find?_take_of_front {r : Registrations} {text : List Char} {word : String} {id : SymbolId}
    (hmem : (word, id) ∈ r) (hempty : word ≠ "") (hfront : word.toList <+: text) :
    0 < word.length ∧ word.length ≤ text.length ∧ r.trie.find? (text.take word.length) ≠ none := by
  have hpos : word.length ≠ 0 := fun h => hempty (String.length_eq_zero_iff.1 h)
  refine ⟨Nat.pos_of_ne_zero hpos, String.length_toList ▸ hfront.length_le, ?_⟩
  rw [← String.length_toList, ← List.prefix_iff_eq_take.1 hfront, find?_trie, if_neg hempty]
  exact Option.isSome_iff_ne_none.1 (isSome_id?_iff.2 ⟨id, hmem⟩)

/-- No text has two longest ones: both begin the text and have the same length. -/
theorem Longest.unique {r : Registrations} {text : List Char} {word word' : String}
    (h : r.Longest text word) (h' : r.Longest text word') : word = word' := by
  obtain ⟨id, hmem⟩ := h.registered
  obtain ⟨id', hmem'⟩ := h'.registered
  have hle : word'.length ≤ word.length := h.longest word' id' hmem' h'.front
  have hge : word.length ≤ word'.length := h'.longest word id hmem h.front
  rw [← String.length_toList, ← String.length_toList] at hle hge
  have hlist : word.toList <+: word'.toList := List.prefix_of_prefix_length_le h.front h'.front hge
  exact String.toList_inj.1 (hlist.eq_of_length (Nat.le_antisymm hge hle))

theorem longest_of_longest?_eq_some {r : Registrations} {text : List Char} {id : SymbolId}
    {n : Nat} (h : r.trie.longest? text = some (id, n)) :
    ∃ word, r.Longest text word ∧ r.id? word = some id ∧ n = word.length := by
  obtain ⟨-, hle, hfind, hlonger⟩ := SymbolTrie.find?_take_of_longest?_eq_some h
  obtain ⟨hempty, hid⟩ := find?_trie_eq_some_iff.1 hfind
  have hlength : (String.ofList (text.take n)).length = n := by
    rw [String.length_ofList, List.length_take, Nat.min_eq_left hle]
  refine ⟨String.ofList (text.take n), ⟨?_, hempty, ?_, ?_⟩, hid, hlength.symm⟩
  · exact isSome_id?_iff.1 (Option.isSome_of_eq_some hid)
  · rw [String.toList_ofList]
    exact List.take_prefix n text
  · intro other id' hmem hfront
    rw [hlength]
    by_contra hlt
    obtain ⟨-, hother, hfound⟩ := find?_take_of_front hmem (by rintro rfl; simp at hlt) hfront
    exact hfound (hlonger other.length (Nat.lt_of_not_le hlt) hother)

/-- What the trie finds is the longest registered text, with its last id. -/
theorem longest?_eq_some_iff {r : Registrations} {text : List Char} {id : SymbolId} {n : Nat} :
    r.trie.longest? text = some (id, n) ↔
      ∃ word, r.Longest text word ∧ r.id? word = some id ∧ n = word.length := by
  refine ⟨longest_of_longest?_eq_some, ?_⟩
  rintro ⟨word, hlongest, hid, rfl⟩
  cases h : r.trie.longest? text with
  | none =>
    obtain ⟨id', hmem⟩ := hlongest.registered
    obtain ⟨hpos, hle, hfound⟩ := find?_take_of_front hmem hlongest.ne_empty hlongest.front
    exact absurd (SymbolTrie.find?_take_of_longest?_eq_none h hpos hle) hfound
  | some found =>
    obtain ⟨id', n'⟩ := found
    obtain ⟨word', hlongest', hid', rfl⟩ := longest_of_longest?_eq_some h
    obtain rfl := hlongest.unique hlongest'
    obtain rfl := Option.some.inj (hid.symm.trans hid')
    rfl

theorem longest?_eq_none_iff {r : Registrations} {text : List Char} :
    r.trie.longest? text = none ↔ r.NoneFits text := by
  constructor
  · intro h word id hmem hempty hfront
    obtain ⟨hpos, hle, hfound⟩ := find?_take_of_front hmem hempty hfront
    exact hfound (SymbolTrie.find?_take_of_longest?_eq_none h hpos hle)
  · intro h
    cases hlongest? : r.trie.longest? text with
    | none => rfl
    | some found =>
      obtain ⟨id, n⟩ := found
      obtain ⟨word, hlongest, -, -⟩ := longest_of_longest?_eq_some hlongest?
      obtain ⟨id', hmem⟩ := hlongest.registered
      exact absurd hlongest.front (h word id' hmem hlongest.ne_empty)

/-! ## Cutting a text -/

theorem next_eq_some_iff {r : Registrations} {text : List Char} {cursor after : Nat}
    {id : SymbolId} : r.trie.next text cursor = (some id, after) ↔
      ∃ word, r.Longest (text.drop cursor) word ∧ r.id? word = some id ∧
        after = cursor + word.length := by
  constructor
  · intro h
    obtain ⟨n, hlongest, rfl, -⟩ := Checked.next_eq_some h
    obtain ⟨word, hword, hid, rfl⟩ := longest?_eq_some_iff.1 hlongest
    exact ⟨word, hword, hid, rfl⟩
  · rintro ⟨word, hword, hid, rfl⟩
    rw [SymbolTrie.next, longest?_eq_some_iff.2 ⟨word, hword, hid, rfl⟩]

theorem next_eq_none_iff {r : Registrations} {text : List Char} {cursor after : Nat} :
    r.trie.next text cursor = (none, after) ↔ r.NoneFits (text.drop cursor) ∧ after = cursor := by
  rw [← longest?_eq_none_iff, SymbolTrie.next]
  cases r.trie.longest? (text.drop cursor) with
  | none => simp [eq_comm]
  | some found => simp

/-- The ids of a text are those of its longest matches, and there are none if these do not use
the text up. -/
theorem tokenize_eq_some_iff {r : Registrations} {text : List Char} {ids : List SymbolId} :
    r.trie.tokenize text = some ids ↔ r.Cuts text ids := by
  constructor
  · intro h
    induction text using SymbolTrie.tokenize.induct r.trie generalizing ids with
    | case1 =>
      rw [SymbolTrie.tokenize, if_pos rfl] at h
      obtain rfl := Option.some.inj h
      exact .done
    | case2 text hne hnone =>
      rw [SymbolTrie.tokenize, if_neg hne, hnone] at h
      cases h
    | case3 text hne id n hsome ih =>
      rw [SymbolTrie.tokenize, if_neg hne, hsome] at h
      obtain ⟨ids, hrest, rfl⟩ := Option.map_eq_some_iff.1 h
      obtain ⟨word, hword, hid, rfl⟩ := longest?_eq_some_iff.1 hsome
      exact .take hword hid (ih hrest)
  · intro h
    induction h with
    | done => rw [SymbolTrie.tokenize, if_pos rfl]
    | @take text word id ids hword hid _ ih =>
      have hsome := longest?_eq_some_iff.2 ⟨word, hword, hid, rfl⟩
      have hne : text ≠ [] := by
        rintro rfl
        exact hword.ne_empty (String.toList_eq_nil_iff.1 (List.prefix_nil.1 hword.front))
      rw [SymbolTrie.tokenize, if_neg hne, hsome]
      exact Option.map_eq_some_iff.2 ⟨ids, ih, rfl⟩

theorem Cuts.exists_words {r : Registrations} {text : List Char} {ids : List SymbolId}
    (h : r.Cuts text ids) : ∃ words, String.join words = String.ofList text ∧
      List.Forall₂ (fun id word => word ≠ "" ∧ r.id? word = some id) ids words := by
  induction h with
  | done => exact ⟨[], rfl, .nil⟩
  | @take text word id ids hword hid _ ih =>
    obtain ⟨words, hjoin, hwords⟩ := ih
    refine ⟨word :: words, ?_, .cons ⟨hword.ne_empty, hid⟩ hwords⟩
    obtain ⟨rest, rfl⟩ := hword.front
    rw [← String.length_toList, List.drop_left] at hjoin
    rw [String.join_cons, hjoin, String.ofList_append, String.ofList_toList]

/-! ## Texts registered at their places -/

def numbered (texts : List String) : Registrations :=
  texts.zipIdx.map fun (text, i) => (text, UInt16.ofNat i)

theorem trie_numbered (texts : List String) : (numbered texts).trie = .ofTexts texts := by
  have hfold (t : SymbolTrie) (k : Nat) :
      ((texts.zipIdx k).map fun (text, i) => (text, UInt16.ofNat i)).foldl
          (fun t (word, id) => t.add word id) t =
        (texts.foldl (fun (t, id) text => (t.add text (UInt16.ofNat id), id + 1)) (t, k)).1 := by
    induction texts generalizing t k with
    | nil => rfl
    | cons text texts ih => exact ih (t.add text (UInt16.ofNat k)) (k + 1)
  exact hfold .empty 0

theorem last_of_id?_numbered {texts : List String} {word : String} {id : SymbolId}
    (h : (numbered texts).id? word = some id) :
    ∃ i, texts[i]? = some word ∧ id = UInt16.ofNat i ∧ ∀ j, texts[j]? = some word → j ≤ i := by
  obtain ⟨before, after, heq, hafter⟩ := id?_eq_some_iff.1 h
  have hget (j : Nat) : (texts[j]?).map (·, UInt16.ofNat j) = (before ++ (word, id) :: after)[j]? := by
    rw [← heq, numbered, List.getElem?_map, List.getElem?_zipIdx]
    cases texts[j]? <;> simp
  have hplace := hget before.length
  rw [List.getElem?_append_right (Nat.le_refl _), Nat.sub_self, List.getElem?_cons_zero] at hplace
  obtain ⟨text, htext, hpair⟩ := Option.map_eq_some_iff.1 hplace
  obtain ⟨rfl, rfl⟩ := Prod.mk.inj hpair
  refine ⟨before.length, htext, rfl, fun j hj => ?_⟩
  by_contra hlt
  have hlater := hget j
  rw [hj, List.getElem?_append_right (by omega), List.getElem?_cons,
    if_neg (by omega), Option.map_some] at hlater
  exact hafter _ (List.mem_of_getElem? hlater.symm) rfl

/-! ## The order of registrations -/

/-- The same registrations of each text, in the same order. -/
def SameByText (r r' : Registrations) : Prop :=
  ∀ word, r.filter (·.1 = word) = r'.filter (·.1 = word)

theorem SameByText.id?_eq {r r' : Registrations} (h : r.SameByText r') : r.id? = r'.id? :=
  funext fun word => by unfold id?; rw [h word]

theorem SameByText.longest {r r' : Registrations} (h : r.SameByText r') {text : List Char}
    {word : String} (hr : r.Longest text word) : r'.Longest text word := by
  have hmem (word : String) : (∃ id, (word, id) ∈ r) ↔ ∃ id, (word, id) ∈ r' := by
    rw [← isSome_id?_iff, ← isSome_id?_iff, h.id?_eq]
  refine ⟨(hmem word).1 hr.registered, hr.ne_empty, hr.front, fun other id hother hfront => ?_⟩
  obtain ⟨id', hother'⟩ := (hmem other).2 ⟨id, hother⟩
  exact hr.longest other id' hother' hfront

theorem SameByText.symm {r r' : Registrations} (h : r.SameByText r') : r'.SameByText r :=
  fun word => (h word).symm

theorem SameByText.longest?_eq {r r' : Registrations} (h : r.SameByText r') :
    r.trie.longest? = r'.trie.longest? := by
  funext text
  refine Option.ext fun found => ?_
  obtain ⟨id, n⟩ := found
  have hlongest (word : String) : r.Longest text word ↔ r'.Longest text word :=
    ⟨h.longest, h.symm.longest⟩
  simp only [longest?_eq_some_iff, hlongest, h.id?_eq]

theorem SameByText.next_eq {r r' : Registrations} (h : r.SameByText r') (text : List Char)
    (cursor : Nat) : r.trie.next text cursor = r'.trie.next text cursor := by
  rw [SymbolTrie.next, SymbolTrie.next, h.longest?_eq]

theorem SameByText.cuts {r r' : Registrations} (h : r.SameByText r') {text : List Char}
    {ids : List SymbolId} (hr : r.Cuts text ids) : r'.Cuts text ids := by
  induction hr with
  | done => exact .done
  | take hword hid _ ih => exact .take (h.longest hword) (h.id?_eq ▸ hid) ih

theorem SameByText.tokenize_eq {r r' : Registrations} (h : r.SameByText r') (text : List Char) :
    r.trie.tokenize text = r'.trie.tokenize text := by
  refine Option.ext fun ids => ?_
  rw [tokenize_eq_some_iff, tokenize_eq_some_iff]
  exact ⟨h.cuts, h.symm.cuts⟩

/-- A trie finds the longest registered text at the cursor, with the id it was given last, and
moves the cursor behind it; where no registered text fits, nothing is found and the cursor stays.
Cutting a text repeats this from the start, and gives no ids if it does not use the text up. Only
registrations of the same text have an order that matters. The walk that moves one cursor forward
and back does the same. -/
theorem next_eq_longest_match (r : Registrations) (text : List Char) (cursor : Nat) :
    (∀ id after, r.trie.next text cursor = (some id, after) ↔
      ∃ word, r.Longest (text.drop cursor) word ∧
        (∃ before later, r = before ++ (word, id) :: later ∧ ∀ entry ∈ later, entry.1 ≠ word) ∧
        after = cursor + word.length) ∧
    (∀ after, r.trie.next text cursor = (none, after) ↔
      r.NoneFits (text.drop cursor) ∧ after = cursor) ∧
    Checked.findKey r.trie text cursor = .ok (r.trie.next text cursor) ∧
    (∀ ids, r.trie.tokenize text = some ids ↔ r.Cuts text ids) ∧
    (r.trie.tokenize text = none ↔ ¬ ∃ ids, r.Cuts text ids) ∧
    Checked.tokenizeFrom r.trie text 0 = .ok (r.trie.tokenize text) ∧
    ∀ r' : Registrations, r.SameByText r' →
      r.trie.next text cursor = r'.trie.next text cursor ∧
      r.trie.tokenize text = r'.trie.tokenize text := by
  refine ⟨fun id after => ?_, fun after => next_eq_none_iff, Checked.findKey_eq r.trie text cursor,
    fun ids => tokenize_eq_some_iff, ?_, Checked.tokenizeFrom_eq r.trie text 0,
    fun r' h => ⟨h.next_eq text cursor, h.tokenize_eq text⟩⟩
  · simp only [next_eq_some_iff, id?_eq_some_iff]
  · simp only [Option.eq_none_iff_forall_not_mem, Option.mem_def, tokenize_eq_some_iff, not_exists]

/-- Two texts of which one begins the other; the shorter one is registered twice. -/
def small : Registrations := [("a", 1), ("ab", 2), ("", 3), ("a", 4)]

/-- The same with the longer text first. -/
def smallSwapped : Registrations := [("ab", 2), ("a", 1), ("a", 4), ("", 3)]

theorem next_eq_longest_match_small :
    small.SameByText smallSwapped ∧ smallSwapped.trie.next "xabb".toList 1 = (some 2, 3) ∧
      smallSwapped.trie.next "xaxb".toList 1 = (some 4, 2) ∧ small.NoneFits ("xab".toList.drop 7) := by
  have hsame : small.SameByText smallSwapped := by
    intro word
    by_cases ha : "a" = word
    · subst ha; decide
    · by_cases hab : "ab" = word
      · subst hab; decide
      · simp [small, smallSwapped, List.filter_cons, ha, hab]
  have hnext (text : List Char) (cursor : Nat) :=
    ((next_eq_longest_match small text cursor).2.2.2.2.2.2 smallSwapped hsame).1
  refine ⟨hsame, ?_, ?_, ?_⟩
  · rw [← hnext]; decide +kernel
  · rw [← hnext]; decide +kernel
  · exact (((next_eq_longest_match small "xab".toList 7).2.1 7).1 (by decide +kernel)).1

end Registrations

end TransducerLookup
