import TransducerLookup.SymbolId

/-!
# Cutting text into symbols

A trie holds symbol texts with their ids. Text is cut from the front, always
taking the longest text in the trie, so a symbol of several characters wins
over shorter ones. If the same text is added twice, the later id counts.
-/

namespace TransducerLookup

/-- The id of the text that ends here, and what follows by next character. -/
inductive SymbolTrie where
  | node (id : Option SymbolId) (children : List (Char × SymbolTrie))

namespace SymbolTrie

def empty : SymbolTrie := node none []

def id : SymbolTrie → Option SymbolId
  | node id _ => id

def children : SymbolTrie → List (Char × SymbolTrie)
  | node _ children => children

def child? (t : SymbolTrie) (c : Char) : Option SymbolTrie := t.children.lookup c

/-- Puts `u` in the place of the entry for `c`. -/
def setEntry (c : Char) (u : SymbolTrie) : List (Char × SymbolTrie) → List (Char × SymbolTrie)
  | [] => [(c, u)]
  | (d, t) :: rest => if d = c then (d, u) :: rest else (d, t) :: setEntry c u rest

def setChild (t : SymbolTrie) (c : Char) (u : SymbolTrie) : SymbolTrie :=
  node t.id (setEntry c u t.children)

/-- Gives the text the id, in place of any earlier one. -/
def set (t : SymbolTrie) (id : SymbolId) : List Char → SymbolTrie
  | [] => node (some id) t.children
  | c :: text => t.setChild c (((t.child? c).getD empty).set id text)

/-- Adds a symbol; the empty text is no symbol. -/
def add (t : SymbolTrie) (text : String) (id : SymbolId) : SymbolTrie :=
  if text = "" then t else t.set id text.toList

/-- The id of exactly this text. -/
def find? (t : SymbolTrie) : List Char → Option SymbolId
  | [] => t.id
  | c :: text =>
    match t.child? c with
    | none => none
    | some u => u.find? text

/-- The id and length of the longest symbol at the front of the text. -/
def longest? (t : SymbolTrie) : List Char → Option (SymbolId × Nat)
  | [] => none
  | c :: text =>
    match t.child? c with
    | none => none
    | some u =>
      match u.longest? text with
      | some (id, length) => some (id, length + 1)
      | none => u.id.map (·, 1)

/-- The symbol at a cursor that counts characters, and the cursor after it. -/
def next (t : SymbolTrie) (text : List Char) (cursor : Nat) : Option SymbolId × Nat :=
  match t.longest? (text.drop cursor) with
  | some (id, length) => (some id, cursor + length)
  | none => (none, cursor)

/-! ## What the trie holds -/

theorem lookup_setEntry (c d : Char) (u : SymbolTrie) (entries : List (Char × SymbolTrie)) :
    (setEntry c u entries).lookup d = if d = c then some u else entries.lookup d := by
  induction entries with
  | nil =>
    rw [setEntry, List.lookup_cons]
    by_cases h : d = c
    · simp [h]
    · simp [h, beq_eq_false_iff_ne.2 h]
  | cons entry entries ih =>
    obtain ⟨e, t⟩ := entry
    rw [setEntry]
    by_cases hec : e = c
    · subst hec
      rw [if_pos rfl, List.lookup_cons, List.lookup_cons]
      by_cases h : d = e
      · simp [h]
      · simp [h, beq_eq_false_iff_ne.2 h]
    · rw [if_neg hec, List.lookup_cons, List.lookup_cons, ih]
      by_cases hde : d = e
      · simp [hde, hec]
      · simp [beq_eq_false_iff_ne.2 hde]

theorem child?_setChild (t : SymbolTrie) (c d : Char) (u : SymbolTrie) :
    (t.setChild c u).child? d = if d = c then some u else t.child? d :=
  lookup_setEntry c d u t.children

theorem find?_empty (text : List Char) : empty.find? text = none := by
  cases text <;> rfl

/-- Setting the id of one text leaves all others alone. -/
theorem find?_set (t : SymbolTrie) (id : SymbolId) (text other : List Char) :
    (t.set id text).find? other = if other = text then some id else t.find? other := by
  induction text generalizing t other with
  | nil =>
    cases other with
    | nil => rfl
    | cons d other => simp [set, find?, child?, children]
  | cons c text ih =>
    cases other with
    | nil => simp [set, find?, setChild, SymbolTrie.id]
    | cons d other =>
      rw [set, find?, child?_setChild]
      by_cases h : d = c
      · subst h
        rw [if_pos rfl, find?]
        simp only [ih, List.cons.injEq, true_and]
        cases t.child? d with
        | none => simp [find?_empty]
        | some u => simp
      · rw [if_neg h, find?, if_neg (by simp [h])]

/-! ## The longest symbol is the longest -/

/-- No beginning of the text is a symbol if the trie finds none there. -/
theorem find?_take_of_longest?_eq_none {t : SymbolTrie} {text : List Char}
    (h : t.longest? text = none) {m : Nat} (hm : 0 < m) (hle : m ≤ text.length) :
    t.find? (text.take m) = none := by
  induction text generalizing t m with
  | nil => simp at hle; omega
  | cons c text ih =>
    obtain ⟨m, rfl⟩ := Nat.exists_eq_succ_of_ne_zero (Nat.ne_of_gt hm)
    rw [List.take_succ_cons, find?]
    rw [longest?] at h
    cases hu : t.child? c with
    | none => rfl
    | some u =>
      rw [hu] at h
      cases hrest : u.longest? text with
      | some r => simp [hrest] at h
      | none =>
        cases m with
        | zero => simpa [hrest, find?] using h
        | succ m => exact ih hrest (Nat.succ_pos m) (by simpa using hle)

/-- What the trie finds is a symbol at the front of the text, and no longer
beginning of the text is one. -/
theorem find?_take_of_longest?_eq_some {t : SymbolTrie} {text : List Char} {id : SymbolId}
    {n : Nat} (h : t.longest? text = some (id, n)) :
    0 < n ∧ n ≤ text.length ∧ t.find? (text.take n) = some id ∧
      ∀ m, n < m → m ≤ text.length → t.find? (text.take m) = none := by
  induction text generalizing t n with
  | nil => simp [longest?] at h
  | cons c text ih =>
    rw [longest?] at h
    cases hu : t.child? c with
    | none => simp [hu] at h
    | some u =>
      simp only [hu] at h
      cases hrest : u.longest? text with
      | some r =>
        obtain ⟨id', n'⟩ := r
        simp only [hrest, Option.some.injEq, Prod.mk.injEq] at h
        obtain ⟨rfl, rfl⟩ := h
        obtain ⟨-, hle, hfind, hlonger⟩ := ih hrest
        refine ⟨Nat.succ_pos _, by simpa using hle, by simpa [find?, hu] using hfind, ?_⟩
        intro m hm hmle
        obtain ⟨m, rfl⟩ := Nat.exists_eq_succ_of_ne_zero (Nat.ne_zero_of_lt hm)
        rw [List.take_succ_cons, find?, hu]
        exact hlonger m (Nat.lt_of_succ_lt_succ hm) (by simpa using hmle)
      | none =>
        simp only [hrest, Option.map_eq_some_iff, Prod.mk.injEq] at h
        obtain ⟨_, hid, rfl, rfl⟩ := h
        refine ⟨Nat.one_pos, by simp, by simpa [find?, hu] using hid, ?_⟩
        intro m hm hmle
        obtain ⟨m, rfl⟩ := Nat.exists_eq_succ_of_ne_zero (Nat.ne_zero_of_lt hm)
        rw [List.take_succ_cons, find?, hu]
        exact find?_take_of_longest?_eq_none hrest (Nat.lt_of_succ_lt_succ hm)
          (by simpa using hmle)

/-- Cuts the whole text, or gives `none` if no symbol fits at some point. -/
def tokenize (t : SymbolTrie) (text : List Char) : Option (List SymbolId) :=
  if text = [] then some []
  else
    match _h : t.longest? text with
    | none => none
    | some (id, length) => (t.tokenize (text.drop length)).map (id :: ·)
  termination_by text.length
  decreasing_by
    have ⟨hpos, hle, _⟩ := find?_take_of_longest?_eq_some _h
    simp only [List.length_drop]
    omega

/-- The trie of the texts that stand at their ids. -/
def ofTexts (texts : List String) : SymbolTrie :=
  (texts.foldl (fun (t, id) text => (add t text (UInt16.ofNat id), id + 1)) (empty, 0)).1

end SymbolTrie

end TransducerLookup
