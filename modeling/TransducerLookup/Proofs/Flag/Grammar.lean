import Mathlib.Data.List.DropRight
import TransducerLookup.Flag.Spelling

/-!
# The grammar of flags

`Written` says which texts are flags: an operator and a body between two `@`,
where the body is more than dots. The parts of the body are the feature, the
value and whatever else stands between its dots. Reading a text finds exactly
this (`ofText?_eq_some_iff`).
-/

namespace TransducerLookup.Flag

/-- The text is a flag with this operator and this body. -/
structure Written (text : List Char) (operator : Operator) (body : List Char) : Prop where
  text_eq : text = ['@', operator.code, '.'] ++ body ++ ['@']
  two_le_length : 2 ≤ body.length
  not_only_dots : ∃ c ∈ body, c ≠ '.'

/-- The parts of a body between its dots. Dots at its end do not count. -/
def bodyParts (body : List Char) : List String :=
  ((body.rdropWhile (· = '.')).splitOn '.').map String.ofList

theorem Operator.ofCode?_eq_some_iff {c : Char} {op : Operator} :
    ofCode? c = some op ↔ c = op.code := by
  constructor
  · intro h
    unfold ofCode? at h
    split at h <;> cases h <;> rfl
  · rintro rfl
    exact ofCode?_code op

/-- What is flag-shaped is a flag but for the letter and the dots in its body. -/
theorem isShaped_iff {text : List Char} : isShaped text = true ↔
    ∃ c body, text = ['@', c, '.'] ++ body ++ ['@'] ∧ 2 ≤ body.length := by
  constructor
  · intro h
    simp only [isShaped, Bool.and_eq_true, decide_eq_true_eq] at h
    obtain ⟨⟨⟨hlen, hhead⟩, hlast⟩, hdot⟩ := h
    match text, hlen with
    | first :: c :: dot :: d :: rest, hlen =>
      obtain rfl : first = '@' := by simpa using hhead
      obtain rfl : dot = '.' := by simpa using hdot
      have hne : d :: rest ≠ [] := List.cons_ne_nil d rest
      have hlast' : (d :: rest).getLast hne = '@' := by
        simpa [List.getLast?_eq_some_getLast] using hlast
      refine ⟨c, (d :: rest).dropLast, ?_, ?_⟩
      · conv => lhs; rw [← List.dropLast_concat_getLast hne, hlast']
        rfl
      · simp only [List.length_cons, List.length_dropLast] at hlen ⊢
        omega
  · rintro ⟨c, body, rfl, hlen⟩
    have hlast : (['@', c, '.'] ++ body ++ ['@']).getLast? = some '@' := List.getLast?_concat
    simp only [isShaped, Bool.and_eq_true, decide_eq_true_eq, hlast]
    simp
    omega

/-! ## Parts -/

/-- Behind an element that stays, elements are dropped from the end as without it. -/
theorem rdropWhile_cons_of_neg {α : Type} {p : α → Bool} {a : α} (h : p a = false)
    (l : List α) : (a :: l).rdropWhile p = a :: l.rdropWhile p := by
  unfold List.rdropWhile
  rw [List.reverse_cons, List.dropWhile_append]
  split
  · next hnil => rw [List.isEmpty_iff.1 hnil, List.dropWhile_cons_of_neg (by simp [h])]; rfl
  · simp

theorem exists_splitOn_concat {c : Char} (h : c ≠ '.') (text : List Char) :
    ∃ front last, (text ++ [c]).splitOn '.' = front ++ [last] ∧ last ≠ [] := by
  induction text with
  | nil => exact ⟨[], [c], by simp [List.splitOn_cons_eq_if_modifyHead, h], by simp⟩
  | cons d text ih =>
    obtain ⟨front, last, hsplit, hlast⟩ := ih
    rw [List.cons_append, List.splitOn_cons_eq_if_modifyHead, hsplit]
    split
    · exact ⟨[] :: front, last, rfl, hlast⟩
    · cases front with
      | nil => exact ⟨[], d :: last, rfl, List.cons_ne_nil d last⟩
      | cons part front => exact ⟨(d :: part) :: front, last, rfl, hlast⟩

/-- Empty parts at the end are those behind the dots at the end. -/
theorem rdropWhile_splitOn (text : List Char) :
    (text.splitOn '.').rdropWhile List.isEmpty =
      if text.all (· = '.') then [] else (text.rdropWhile (· = '.')).splitOn '.' := by
  induction text using List.reverseRecOn with
  | nil => simp [List.rdropWhile]
  | append_singleton text c ih =>
    by_cases hc : c = '.'
    · subst hc
      rw [List.splitOn_append_cons_self, List.splitOn_nil, List.rdropWhile_concat_pos _ _ _ rfl, ih,
        List.rdropWhile_concat_pos _ _ _ (by simp), List.all_append,
        show ['.'].all (· = '.') = true from rfl, Bool.and_true]
    · obtain ⟨front, last, hsplit, hlast⟩ := exists_splitOn_concat hc text
      rw [hsplit, List.rdropWhile_concat_neg _ _ _ (by simpa using hlast),
        List.rdropWhile_concat_neg _ _ _ (by simpa using hc), if_neg (by simp [hc]), hsplit]

namespace Spelling

theorem parts_eq {c : Char} (hc : c ≠ '.') (body : List Char) :
    parts (c :: '.' :: body) = [c] :: if body.all (· = '.') then []
      else (body.rdropWhile (· = '.')).splitOn '.' := by
  have hsplit : ([c] ++ '.' :: body).splitOn '.' = [c] :: body.splitOn '.' :=
    List.splitOn_append_cons_self_of_not_mem (by simpa using Ne.symm hc) body
  show (([c] ++ '.' :: body).splitOn '.').rdropWhile List.isEmpty = _
  rw [hsplit, rdropWhile_cons_of_neg rfl, rdropWhile_splitOn]

theorem ofParts?_parts_dot (body : List Char) : ofParts? (parts ('.' :: '.' :: body)) = none := by
  have hsplit : ('.' :: '.' :: body).splitOn '.' = [] :: ('.' :: body).splitOn '.' := by
    rw [List.splitOn_cons_eq_if_modifyHead, if_pos BEq.rfl]
  have hfront : parts ('.' :: '.' :: body) <+: [] :: ('.' :: body).splitOn '.' := by
    rw [← hsplit]
    exact List.rdropWhile_prefix ..
  cases hparts : parts ('.' :: '.' :: body) with
  | nil => rfl
  | cons part rest =>
    rw [hparts] at hfront
    obtain rfl := (List.cons_prefix_cons.1 hfront).1
    rfl

/-- The flag that an operator and a body spell: the first part is the feature, and the second is
the value if there are just two. -/
def ofBody (operator : Operator) (body : List Char) : Spelling where
  operator := operator
  feature := (bodyParts body).getD 0 ""
  value := if (bodyParts body).length = 2 then (bodyParts body).getD 1 "" else ""

theorem ofParts?_parts (c : Char) (body : List Char) :
    ofParts? (parts (c :: '.' :: body)) =
      if body.all (· = '.') then none
      else (Operator.ofCode? c).map fun operator => ofBody operator body := by
  by_cases hc : c = '.'
  · rw [hc, ofParts?_parts_dot]
    split <;> rfl
  · rw [parts_eq hc]
    split
    · rfl
    · rw [ofParts?.eq_def]
      unfold ofBody bodyParts
      cases hparts : (body.rdropWhile (· = '.')).splitOn '.' with
      | nil => exact (List.splitOn_ne_nil _ _ hparts).elim
      | cons feature rest =>
        match rest with
        | [] => rfl
        | [value] => rfl
        | _ :: _ :: _ => simp

/-- The text is a flag, which names these. -/
def IsFlag (text : List Char) (flag : Spelling) : Prop :=
  ∃ operator body, Written text operator body ∧ flag = ofBody operator body

/-- Reading a text finds the flag that is written there, and no other. -/
theorem ofText?_eq_some_iff {text : List Char} {flag : Spelling} :
    ofText? text = some flag ↔ IsFlag text flag := by
  have hread (c : Char) (body : List Char) (hlen : 2 ≤ body.length) :
      ofText? (['@', c, '.'] ++ body ++ ['@']) = ofParts? (parts (c :: '.' :: body)) := by
    rw [ofText?, if_pos (isShaped_iff.2 ⟨c, body, rfl, hlen⟩)]
    show ofParts? (parts ((c :: '.' :: body) ++ ['@']).dropLast) = _
    rw [List.dropLast_concat]
  constructor
  · intro h
    have hshaped : isShaped text = true := by
      by_contra hshaped
      rw [ofText?, if_neg hshaped] at h
      cases h
    obtain ⟨c, body, rfl, hlen⟩ := isShaped_iff.1 hshaped
    rw [hread c body hlen, ofParts?_parts] at h
    split at h
    · cases h
    · next hdots =>
      obtain ⟨operator, hc, rfl⟩ := Option.map_eq_some_iff.1 h
      obtain rfl := Operator.ofCode?_eq_some_iff.1 hc
      exact ⟨operator, body, ⟨rfl, hlen, by simpa using hdots⟩, rfl⟩
  · rintro ⟨operator, body, ⟨rfl, hlen, c, hc, hdot⟩, rfl⟩
    have hdots : ¬ body.all (· = '.') = true := by
      rw [List.all_eq_true]
      exact fun h => hdot (of_decide_eq_true (h c hc))
    rw [hread _ body hlen, ofParts?_parts, if_neg hdots, Operator.ofCode?_code]
    rfl

end Spelling

end TransducerLookup.Flag
