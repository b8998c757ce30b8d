import Mathlib.Data.List.ReduceOption
import Mathlib.Data.List.TakeWhile
import TransducerLookup.CommandLine

/-!
# Words on lines

What standard input holds is settled line by line: a line adds its word, if it
has one, and a line that is not text ends the input (`inputWords_line`,
`inputWords_broken`). So input that has its words one on a line, whatever blanks
stand around them, is read as these words (`inputWords_of_holdsWords`).
-/

namespace TransducerLookup

/-! ## Blanks around a text -/

def AllBlank (text : String) : Prop := ∀ c ∈ text.toList, isBlank c = true

instance (text : String) : Decidable (AllBlank text) :=
  List.decidableBAll (fun c => isBlank c = true) text.toList

theorem trimBlanks_prepend {before : String} (h : AllBlank before) (text : String) :
    trimBlanks (before ++ text) = trimBlanks text := by
  rw [trimBlanks, String.toList_append, List.dropWhile_append_of_pos h, trimBlanks]

theorem trimBlanks_append {after : String} (h : AllBlank after) (text : String) :
    trimBlanks (text ++ after) = trimBlanks text := by
  have hreverse : ∀ c ∈ after.toList.reverse, isBlank c = true :=
    fun c hc => h c (List.mem_reverse.1 hc)
  rw [trimBlanks, trimBlanks, String.toList_append, List.dropWhile_append]
  split
  · next hempty =>
    -- There is nothing but blanks.
    rw [List.isEmpty_iff.1 hempty, List.dropWhile_eq_nil_iff.2 h]
  · rw [List.reverse_append, List.dropWhile_append_of_pos hreverse]

/-! ## Encoded lines -/

namespace Utf8

theorem encode_append (text more : String) : encode (text ++ more) = encode text ++ encode more := by
  rw [encode, encode, encode, String.toList_append, List.flatMap_append]

/-- The only character whose bytes hold a newline is the newline. -/
theorem newline_notMem_utf8EncodeChar {c : Char} (h : c ≠ '\n') :
    0x0A ∉ String.utf8EncodeChar c := by
  have hval : c.val.toNat ≠ 10 := fun hval => h (Char.ext (UInt32.toNat_inj.1 hval))
  have hbyte {n : Nat} (hn : n % 256 ≠ 10) : (0x0A : UInt8) ≠ UInt8.ofNat n := by
    intro heq
    rw [← UInt8.toNat_inj, UInt8.toNat_ofNat'] at heq
    exact hn heq.symm
  unfold String.utf8EncodeChar
  dsimp only
  split_ifs
  all_goals simp only [List.mem_cons, List.not_mem_nil, or_false, not_or]
  · exact hbyte (by omega)
  · exact ⟨hbyte (by omega), hbyte (by omega)⟩
  · exact ⟨hbyte (by omega), hbyte (by omega), hbyte (by omega)⟩
  · exact ⟨hbyte (by omega), hbyte (by omega), hbyte (by omega), hbyte (by omega)⟩

theorem newline_notMem_encode {text : String} (h : '\n' ∉ text.toList) :
    0x0A ∉ encode text := by
  intro hmem
  obtain ⟨c, hc, hbyte⟩ := List.mem_flatMap.1 hmem
  exact newline_notMem_utf8EncodeChar (fun heq => h (heq ▸ hc)) hbyte

end Utf8

namespace CommandLine

/-! ## Lines -/

def lineWords (line : String) : List String := [trimBlanks line].filter (· ≠ "")

/-- The words on lines, of which `none` are not text, and whether there are such lines. -/
def wordsOn (lines : List (Option String)) : List String × Bool :=
  (((lines.takeWhile Option.isSome).reduceOption.map trimBlanks).filter (· ≠ ""),
    lines.any Option.isNone)

theorem inputWords_eq (stdin : List UInt8) :
    inputWords stdin = wordsOn ((stdin.splitOn 0x0A).map Utf8.decode?) := rfl

theorem wordsOn_none (lines : List (Option String)) : wordsOn (none :: lines) = ([], true) := rfl

theorem wordsOn_some (line : String) (lines : List (Option String)) :
    wordsOn (some line :: lines) =
      (lineWords line ++ (wordsOn lines).1, (wordsOn lines).2) := by
  refine Prod.ext ?_ rfl
  simp only [wordsOn, lineWords]
  rw [List.takeWhile_cons_of_pos rfl, List.reduceOption_cons_of_some, List.map_cons,
    ← List.singleton_append, List.filter_append]

theorem inputWords_nil : inputWords [] = ([], false) := rfl

theorem inputWords_text {text : String} (h : '\n' ∉ text.toList) :
    inputWords (Utf8.encode text) = (lineWords text, false) := by
  rw [inputWords_eq, List.splitOn_eq_singleton (Utf8.newline_notMem_encode h), List.map_singleton,
    Utf8.decode?_encode, wordsOn_some]
  exact congrArg (·, false) (List.append_nil _)

theorem inputWords_text_newline {text : String} (h : '\n' ∉ text.toList) (rest : List UInt8) :
    inputWords (Utf8.encode text ++ 0x0A :: rest) =
      (lineWords text ++ (inputWords rest).1, (inputWords rest).2) := by
  rw [inputWords_eq, List.splitOn_append_cons_self_of_not_mem (Utf8.newline_notMem_encode h),
    List.map_cons, Utf8.decode?_encode, wordsOn_some]
  rfl

/-! ## Lines that hold words -/

/-- What ends a line, in front of the rest of the input. -/
inductive EndsLine : List UInt8 → List UInt8 → Prop where
  | newline (rest : List UInt8) : EndsLine [0x0A] rest
  | carriageReturn (rest : List UInt8) : EndsLine [0x0D, 0x0A] rest
  | endOfInput : EndsLine [] []

/-- Blanks that do not end the line. -/
def IsPadding (text : String) : Prop := AllBlank text ∧ '\n' ∉ text.toList

/-- The input holds these words, one on a line, with any blanks around them and any blank lines
between them. -/
inductive HoldsWords : List String → List UInt8 → Prop where
  | done : HoldsWords [] []
  | blank {padding : String} {stop rest : List UInt8} {words : List String} : IsPadding padding →
      EndsLine stop rest → HoldsWords words rest →
      HoldsWords words (Utf8.encode padding ++ stop ++ rest)
  | word {before word after : String} {stop rest : List UInt8} {words : List String} :
      IsPadding before → IsPadding after → EndsLine stop rest → HoldsWords words rest →
      HoldsWords (word :: words) (Utf8.encode (before ++ word ++ after) ++ stop ++ rest)

/-- A text that a line can hold and that it gives back as it is. -/
structure IsWord (word : String) : Prop where
  ne_empty : word ≠ ""
  trimmed : trimBlanks word = word
  newline_notMem : '\n' ∉ word.toList

theorem inputWords_line {text : String} (h : '\n' ∉ text.toList) {stop rest : List UInt8}
    (hstop : EndsLine stop rest) : inputWords (Utf8.encode text ++ stop ++ rest) =
      (lineWords text ++ (inputWords rest).1, (inputWords rest).2) := by
  cases hstop with
  | newline =>
    rw [List.append_assoc]
    exact inputWords_text_newline h rest
  | carriageReturn =>
    -- The carriage return is one more blank at the end of the text.
    have hreturn : '\n' ∉ (text ++ "\r").toList := by
      rw [String.toList_append, List.mem_append]
      exact not_or.2 ⟨h, by decide⟩
    have hbytes : Utf8.encode text ++ [0x0D, 0x0A] ++ rest =
        Utf8.encode (text ++ "\r") ++ 0x0A :: rest := by
      rw [Utf8.encode_append, List.append_assoc, List.append_assoc]
      rfl
    have hwords : lineWords (text ++ "\r") = lineWords text := by
      rw [lineWords, trimBlanks_append (by decide), lineWords]
    rw [hbytes, inputWords_text_newline hreturn, hwords]
  | endOfInput =>
    rw [List.append_nil, List.append_nil, inputWords_text h, inputWords_nil, List.append_nil]

theorem inputWords_of_holdsWords {words : List String} {stdin : List UInt8}
    (h : HoldsWords words stdin) (hwords : ∀ word ∈ words, IsWord word) :
    inputWords stdin = (words, false) := by
  induction h with
  | done => rfl
  | @blank padding _ _ _ hpadding hstop _ ih =>
    have hline : lineWords padding = [] := by
      have htrim := trimBlanks_append hpadding.1 ""
      rw [String.empty_append] at htrim
      rw [lineWords, htrim]
      rfl
    rw [inputWords_line hpadding.2 hstop, ih hwords, hline]
    rfl
  | @word before word after _ _ words hbefore hafter hstop _ ih =>
    rw [List.forall_mem_cons] at hwords
    obtain ⟨hword, hrest⟩ := hwords
    have hnewline : '\n' ∉ (before ++ word ++ after).toList := by
      simp only [String.toList_append, List.mem_append, not_or]
      exact ⟨⟨hbefore.2, hword.newline_notMem⟩, hafter.2⟩
    have hline : lineWords (before ++ word ++ after) = [word] := by
      rw [lineWords, trimBlanks_append hafter.1, trimBlanks_prepend hbefore.1, hword.trimmed]
      exact List.filter_cons_of_pos (decide_eq_true hword.ne_empty)
    rw [inputWords_line hnewline hstop, ih hrest, hline]
    rfl

/-! ## Lines that are not text -/

/-- Between `before` and `rest` stands a line that is not text. -/
structure BrokenLine (before line rest : List UInt8) : Prop where
  before_ends : before = [] ∨ ∃ lines, before = lines ++ [0x0A]
  newline_notMem : 0x0A ∉ line
  decode?_eq : Utf8.decode? line = none
  rest_begins : rest = [] ∨ ∃ lines, rest = 0x0A :: lines

theorem wordsOn_append_none (lines rest : List (Option String)) :
    wordsOn (lines ++ none :: rest) = ((wordsOn (lines ++ [some ""])).1, true) := by
  induction lines with
  | nil => exact wordsOn_none rest
  | cons line lines ih =>
    rw [List.cons_append, List.cons_append]
    cases line with
    | none => rw [wordsOn_none, wordsOn_none]
    | some line => rw [wordsOn_some, wordsOn_some, ih]

theorem inputWords_broken {before line rest : List UInt8} (h : BrokenLine before line rest) :
    inputWords (before ++ line ++ rest) = ((inputWords before).1, true) := by
  -- The line is one of the lines of the input.
  have hlines : ∃ lines, ((line ++ rest).splitOn 0x0A).map Utf8.decode? = none :: lines := by
    rcases h.rest_begins with rfl | ⟨lines, rfl⟩
    · rw [List.append_nil, List.splitOn_eq_singleton h.newline_notMem]
      exact ⟨[], by rw [List.map_singleton, h.decode?_eq]⟩
    · rw [List.splitOn_append_cons_self_of_not_mem h.newline_notMem, List.map_cons, h.decode?_eq]
      exact ⟨_, rfl⟩
  obtain ⟨more, hmore⟩ := hlines
  rw [inputWords_eq, inputWords_eq]
  rcases h.before_ends with rfl | ⟨lines, rfl⟩
  · rw [List.nil_append, hmore]
    rfl
  · rw [List.append_assoc, List.append_assoc, List.singleton_append,
      List.splitOn_append_cons_self, List.splitOn_append_cons_self, List.map_append, hmore,
      List.map_append]
    exact wordsOn_append_none _ more

end CommandLine

end TransducerLookup
