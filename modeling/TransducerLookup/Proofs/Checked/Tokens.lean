import TransducerLookup.Proofs.Checked.Basic
import TransducerLookup.SymbolTrie

/-!
# Cutting text with a cursor

The trie is walked with one cursor that goes forward at each character and back
where a longer symbol was tried in vain. It never goes back behind the start of
the text, and ends where the longest symbol does.
-/

namespace TransducerLookup.Checked

/-- The symbol at the cursor, and the cursor after it. -/
def findKey (t : SymbolTrie) (text : List Char) (cursor : Nat) : Checked (Option SymbolId × Nat) :=
  match _h : text[cursor]? with
  | none => return (none, cursor)
  | some c =>
    match t.child? c with
    | none => do return (none, ← minus (cursor + 1) 1)
    | some u => do
      match ← findKey u text (cursor + 1) with
      | (some symbol, after) => return (some symbol, after)
      | (none, after) =>
        match u.id with
        | some symbol => return (some symbol, after)
        | none => return (none, ← minus after 1)
  termination_by text.length - cursor
  decreasing_by
    have := (List.getElem?_eq_some_iff.1 _h).1
    omega

theorem findKey_eq (t : SymbolTrie) (text : List Char) (cursor : Nat) :
    findKey t text cursor = .ok (t.next text cursor) := by
  induction hn : text.length - cursor generalizing t cursor with
  | zero =>
    have hnone : text[cursor]? = none := List.getElem?_eq_none (by omega)
    have hdrop : text.drop cursor = [] := List.drop_eq_nil_of_le (by omega)
    unfold findKey SymbolTrie.next
    rw [hdrop, SymbolTrie.longest?]
    split
    · rfl
    · next h => rw [hnone] at h; cases h
  | succ n ih =>
    have hlt : cursor < text.length := by omega
    have hdrop : text.drop cursor = text[cursor] :: text.drop (cursor + 1) :=
      List.drop_eq_getElem_cons hlt
    unfold findKey SymbolTrie.next
    rw [hdrop, SymbolTrie.longest?]
    split
    · next h => rw [List.getElem?_eq_getElem hlt] at h; cases h
    · next c h =>
      rw [List.getElem?_eq_getElem hlt] at h
      obtain rfl := Option.some.inj h
      cases hchild : t.child? text[cursor] with
      | none => simp only [minus_add, ok_bind]; rfl
      | some u =>
        simp only [ih u (cursor + 1) (by omega), ok_bind, SymbolTrie.next]
        cases hlongest : u.longest? (text.drop (cursor + 1)) with
        | some r => simp only [Nat.add_assoc, Nat.add_comm 1]; rfl
        | none =>
          cases u.id with
          | some symbol => rfl
          | none => simp only [minus_add, ok_bind]; rfl

theorem next_eq_some {t : SymbolTrie} {text : List Char} {cursor after : Nat} {symbol : SymbolId}
    (h : t.next text cursor = (some symbol, after)) :
    ∃ length, t.longest? (text.drop cursor) = some (symbol, length) ∧ after = cursor + length ∧
      0 < length := by
  unfold SymbolTrie.next at h
  split at h
  · next id length hlongest =>
    cases h
    exact ⟨length, hlongest, rfl, (SymbolTrie.find?_take_of_longest?_eq_some hlongest).1⟩
  · cases h

def tokenizeFrom (t : SymbolTrie) (text : List Char) (cursor : Nat) :
    Checked (Option (List SymbolId)) :=
  if cursor < text.length then
    match _h : findKey t text cursor with
    | .error e => .error e
    | .ok (none, _) => return none
    | .ok (some symbol, after) => do
      return (← tokenizeFrom t text after).map (symbol :: ·)
  else return some []
  termination_by text.length - cursor
  decreasing_by
    rw [findKey_eq] at _h
    obtain ⟨length, -, rfl, hpos⟩ := next_eq_some (Except.ok.inj _h)
    omega

/-- No step of cutting a text fails, and the cursor stops where the symbols end. -/
theorem tokenizeFrom_eq (t : SymbolTrie) (text : List Char) (cursor : Nat) :
    tokenizeFrom t text cursor = .ok (t.tokenize (text.drop cursor)) := by
  induction hn : text.length - cursor using Nat.strongRecOn generalizing cursor with
  | ind n ih =>
    rw [tokenizeFrom]
    by_cases hlt : cursor < text.length
    · rw [if_pos hlt, SymbolTrie.tokenize, if_neg (by simp [hlt])]
      split
      · next h => rw [findKey_eq] at h; cases h
      · next h =>
        rw [findKey_eq] at h
        have hnext := Except.ok.inj h
        unfold SymbolTrie.next at hnext
        split at hnext
        · cases hnext
        · next hlongest =>
          split
          · rfl
          · next hsome => rw [hlongest] at hsome; cases hsome
      · next symbol after h =>
        rw [findKey_eq] at h
        obtain ⟨length, hlongest, rfl, hpos⟩ := next_eq_some (Except.ok.inj h)
        rw [ih _ (by omega) (cursor + length) rfl, ok_bind]
        split
        · next hnone => rw [hlongest] at hnone; cases hnone
        · next hsome =>
          rw [hlongest] at hsome
          cases hsome
          rw [List.drop_drop]
          rfl
    · rw [if_neg hlt, List.drop_eq_nil_of_le (by omega), SymbolTrie.tokenize, if_pos rfl]
      rfl

end TransducerLookup.Checked
