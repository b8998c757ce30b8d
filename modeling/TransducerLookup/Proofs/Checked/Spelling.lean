import Mathlib.Algebra.Ring.Nat
import TransducerLookup.Alphabet
import TransducerLookup.Proofs.Checked.Basic

/-!
# Reading a flag by slices

A flag is taken apart by byte offsets: the text between its first and its last
byte is sliced out, and its parts are taken by index. Being flag-shaped is what
makes the slice fall on characters and the parts exist.
-/

namespace TransducerLookup.Checked

def byteLength (text : List Char) : Nat := (text.map Char.utf8Size).sum

def dropBytes (n : Nat) : List Char → Checked (List Char)
  | [] => if n = 0 then .ok [] else .error .outOfBounds
  | c :: text =>
    if n = 0 then .ok (c :: text)
    else if c.utf8Size ≤ n then dropBytes (n - c.utf8Size) text
    else .error .charBoundary

def takeBytes (n : Nat) : List Char → Checked (List Char)
  | [] => if n = 0 then .ok [] else .error .outOfBounds
  | c :: text =>
    if n = 0 then .ok []
    else if c.utf8Size ≤ n then do return c :: (← takeBytes (n - c.utf8Size) text)
    else .error .charBoundary

def slice (text : List Char) (start stop : Nat) : Checked (List Char) := do
  takeBytes (← minus stop start) (← dropBytes start text)

/-- The flag with these parts, which are taken by index. -/
def ofParts (parts : Array (List Char)) : Checked (Option Flag.Spelling) := do
  if parts.size < 2 then return none
  match ← get parts 0 with
  | [code] =>
    match Flag.Operator.ofCode? code with
    | none => return none
    | some operator =>
      let value ← if parts.size = 3 then get parts 2 else pure []
      let feature ← get parts 1
      return some { operator, feature := .ofList feature, value := .ofList value }
  | _ => return none

/-- How a flag is spelled, `none` if the text spells no flag. -/
def spelling (text : List Char) : Checked (Option Flag.Spelling) :=
  if Flag.isShaped text then do
    let inner ← slice text 1 (← minus (byteLength text) 1)
    ofParts (Flag.Spelling.parts inner).toArray
  else return none

def symbolOf (names : Flag.Names) (text : String) : Checked (Symbol × Flag.Names) :=
  if Flag.isShaped text.toList then do
    match ← spelling text.toList with
    | none => return (.malformedFlag, names)
    | some flag =>
      let (operation, names) := names.operation flag
      return (.flag operation, names)
  else return (.plain text, names)

/-! ## Slices at characters -/

theorem dropBytes_zero (text : List Char) : dropBytes 0 text = .ok text := by
  cases text <;> rfl

theorem takeBytes_zero (text : List Char) : takeBytes 0 text = .ok [] := by
  cases text <;> rfl

theorem dropBytes_byteLength (front rest : List Char) :
    dropBytes (byteLength front) (front ++ rest) = .ok rest := by
  induction front with
  | nil => exact dropBytes_zero rest
  | cons c front ih =>
    have hpos := c.utf8Size_pos
    have hlen : byteLength (c :: front) = c.utf8Size + byteLength front := rfl
    rw [hlen, List.cons_append, dropBytes, if_neg (by omega), if_pos (by omega),
      Nat.add_sub_cancel_left, ih]

theorem takeBytes_byteLength (front rest : List Char) :
    takeBytes (byteLength front) (front ++ rest) = .ok front := by
  induction front with
  | nil => exact takeBytes_zero rest
  | cons c front ih =>
    have hpos := c.utf8Size_pos
    have hlen : byteLength (c :: front) = c.utf8Size + byteLength front := rfl
    rw [hlen, List.cons_append, takeBytes, if_neg (by omega), if_pos (by omega),
      Nat.add_sub_cancel_left, ih]
    rfl

theorem byteLength_append (front rest : List Char) :
    byteLength (front ++ rest) = byteLength front + byteLength rest := by
  unfold byteLength
  rw [List.map_append, List.sum_append]

theorem eq_of_isShaped {text : List Char} (h : Flag.isShaped text = true) :
    text = ['@'] ++ text.tail.dropLast ++ ['@'] := by
  simp only [Flag.isShaped, Bool.and_eq_true, decide_eq_true_eq] at h
  obtain ⟨⟨⟨hlen, hhead⟩, hlast⟩, -⟩ := h
  cases text with
  | nil => cases hhead
  | cons c rest =>
    cases hhead
    have hne : rest ≠ [] := by rintro rfl; simp at hlen
    rw [List.getLast?_cons_of_ne_nil hne, List.getLast?_eq_some_getLast hne] at hlast
    show '@' :: rest = '@' :: (rest.dropLast ++ ['@'])
    rw [← Option.some.inj hlast, List.dropLast_concat_getLast hne]

theorem slice_of_isShaped {text : List Char} (h : Flag.isShaped text = true) :
    minus (byteLength text) 1 = .ok (byteLength text.tail.dropLast + 1) ∧
      slice text 1 (byteLength text.tail.dropLast + 1) = .ok text.tail.dropLast := by
  have hlen : byteLength text = 1 + byteLength text.tail.dropLast + 1 := by
    conv => lhs; rw [eq_of_isShaped h, byteLength_append, byteLength_append]
    rfl
  have hdrop : dropBytes 1 text = .ok (text.tail.dropLast ++ ['@']) := by
    conv => lhs; rw [eq_of_isShaped h, List.append_assoc]
    exact dropBytes_byteLength ['@'] _
  constructor
  · rw [hlen, minus_add, Nat.add_comm 1]
  · rw [slice, minus_add, ok_bind, hdrop, ok_bind]
    exact takeBytes_byteLength _ _

theorem ofParts_eq (parts : List (List Char)) :
    ofParts parts.toArray = .ok (Flag.Spelling.ofParts? parts) := by
  match parts with
  | [] => rfl
  | [[]] => rfl
  | [[_]] => rfl
  | [_ :: _ :: _] => rfl
  | [] :: _ :: _ => rfl
  | (_ :: _ :: _) :: _ :: _ => rfl
  | [code] :: feature :: rest =>
    have hcode : get ([code] :: feature :: rest).toArray 0 = .ok [code] := get_eq_ok rfl
    have hfeature : get ([code] :: feature :: rest).toArray 1 = .ok feature := get_eq_ok rfl
    unfold ofParts Flag.Spelling.ofParts?
    rw [if_neg (by simp), hcode, ok_bind]
    dsimp only
    cases Flag.Operator.ofCode? code with
    | none => rfl
    | some operator =>
      dsimp only
      rw [hfeature]
      match rest with
      | [] => rfl
      | [value] => rfl
      | _ :: _ :: _ => rw [if_neg (by simp)]; rfl

/-- Taking a flag apart never fails, and gives what it spells. -/
theorem spelling_eq (text : List Char) : spelling text = .ok (Flag.Spelling.ofText? text) := by
  unfold spelling Flag.Spelling.ofText?
  by_cases h : Flag.isShaped text = true
  · obtain ⟨hminus, hslice⟩ := slice_of_isShaped h
    rw [if_pos h, if_pos h, hminus, ok_bind, hslice, ok_bind, ofParts_eq]
  · rw [if_neg h, if_neg h]
    rfl

theorem symbolOf_eq (names : Flag.Names) (text : String) :
    symbolOf names text = .ok (Symbol.ofText names text) := by
  unfold symbolOf Symbol.ofText
  by_cases h : Flag.isShaped text.toList = true
  · rw [if_pos h, if_pos h, spelling_eq, ok_bind, Flag.Names.read]
    cases Flag.Spelling.ofText? text.toList <;> rfl
  · rw [if_neg h, if_neg h]
    rfl

end TransducerLookup.Checked
