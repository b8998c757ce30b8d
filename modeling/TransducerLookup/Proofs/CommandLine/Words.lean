import TransducerLookup.Proofs.CommandLine.Arguments
import TransducerLookup.Proofs.CommandLine.Lines
import TransducerLookup.Proofs.Session.Reuse

/-!
# One word after the other

Words are answered independently, although one lookup state serves them all
(`wordsText_eq_join`), also where the state is made of buffers that each lookup
has to empty (`Checked.wordsText_eq`). So a run on some words writes what runs on
each of them would, and it makes no difference whether they are arguments or
stand on the lines of standard input (`run_words`).
-/

namespace TransducerLookup

/-! ## The text for words -/

/-- Where each step adds its own text to the text so far, the rest of the state does not matter. -/
theorem CommandLine.snd_foldl_eq_append_join {σ : Type} {step : σ × String → String → σ × String}
    {f : String → String} (hstep : ∀ p word, (step p word).2 = p.2 ++ f word)
    (words : List String) (p : σ × String) :
    (words.foldl step p).2 = p.2 ++ String.join (words.map f) := by
  induction words generalizing p with
  | nil => exact String.append_empty.symm
  | cons word words ih =>
    rw [List.foldl_cons, ih, hstep, List.map_cons, String.join_cons, String.append_assoc]

theorem CommandLine.wordsText_eq_join (t : Transducer) (json : Bool) (words : List String) :
    wordsText t json words =
      String.join (words.map fun word => wordText json word (t.analyze word)) := by
  unfold wordsText
  rw [snd_foldl_eq_append_join (fun p word => ?_), String.empty_append]
  exact congrArg (p.2 ++ wordText json word ·) (t.fst_analyzeWith p.1 word)

namespace Checked

/-- The lines for all words, with the buffers of one state used again for each. -/
def wordsText (t : Transducer) (json : Bool) (s : State) : List String → Checked (String × State)
  | [] => return ("", s)
  | word :: words => do
    let (analyses, s) ← s.lookup t word
    let (text, s) ← wordsText t json s words
    return (CommandLine.wordText json word analyses ++ text, s)

theorem wordsText_ofSearch {t : Transducer} (ht : Loaded t) (json : Bool) {s : Search.State}
    {flags : FlatStack} (hflags : flags.Represents s.flags) (words : List String) :
    ∃ s', wordsText t json (.ofSearch s flags) words = .ok (String.join (words.map fun word =>
      CommandLine.wordText json word (t.analyze word)), s') := by
  induction words generalizing s flags with
  | nil => exact ⟨_, rfl⟩
  | cons word words ih =>
    obtain ⟨flags', hlookup, hflags'⟩ := ht.lookup_follows hflags word
    obtain ⟨s', hwords⟩ := ih hflags'
    refine ⟨s', ?_⟩
    rw [wordsText, hlookup, ok_bind]
    dsimp only
    rw [hwords, ok_bind, List.map_cons, String.join_cons]
    rfl

/-- No operation fails, whatever the words. -/
theorem wordsText_eq {t : Transducer} (ht : Loaded t) (json : Bool) (words : List String) :
    ∃ s, wordsText t json .fresh words = .ok (CommandLine.wordsText t json words, s) := by
  rw [CommandLine.wordsText_eq_join]
  exact wordsText_ofSearch ht json represents_fresh words

end Checked

namespace CommandLine

variable {fallback : Option String} {files : String → Except FileError (List UInt8)}
  {front : List String} {t : Transducer} {json : Bool}

/-! ## Arguments that ask for lookups -/

/-- The arguments ask for lookups in this transducer but name no words, and words may follow. -/
structure Asks (fallback : Option String) (files : String → Except FileError (List UInt8))
    (front : List String) (t : Transducer) (json : Bool) : Prop where
  complete : Options.Complete front
  request : ∃ path options data, Request.ofArguments fallback front = .lookUp path options ∧
    options.words = [] ∧ options.json = json ∧ files path = .ok data ∧
    Transducer.ofBytes data = .ok t

theorem ofArguments_eq_lookUp_iff {args : List String} {path : String} {options : Options} :
    Request.ofArguments fallback args = .lookUp path options ↔
      Options.parse args = .ok options ∧ options.help = false ∧
        Options.resolvePath options.path fallback = .ok path := by
  unfold Request.ofArguments
  refine ⟨fun h => ?_, ?_⟩
  · split at h
    · cases h
    · next o hparse =>
      split at h
      · cases h
      · next hhelp =>
        split at h
        · cases h
        · next hpath =>
          cases h
          exact ⟨hparse, eq_false_of_ne_true hhelp, hpath⟩
  · rintro ⟨hparse, hhelp, hpath⟩
    simp only [hparse, hhelp, hpath]
    rfl

theorem run_eq_answer {args : List String} {path : String} {options : Options}
    {data : List UInt8} (hrequest : Request.ofArguments fallback args = .lookUp path options)
    (hdata : files path = .ok data) (ht : Transducer.ofBytes data = .ok t) (stdin : List UInt8) :
    run fallback files stdin args = answer t options stdin := by
  have hload : load path (files path) = .ok t := by
    rw [hdata]
    simp only [load, ht]
  rw [run, hrequest]
  simp only [hload]

namespace Asks

theorem loaded (h : Asks fallback files front t json) : Checked.Loaded t := by
  obtain ⟨path, options, data, -, -, -, -, hload⟩ := h.request
  have hlimits : t.limits = {} := Transducer.limits_of_load hload
  have ht : Checked.Loaded (t.withLimits t.limits) :=
    .withLimits hload (by rw [hlimits]; decide) (by rw [hlimits]; decide)
  exact ht

theorem run_front (h : Asks fallback files front t json) (stdin : List UInt8) :
    run fallback files stdin front = answer t { json } stdin := by
  obtain ⟨path, options, data, hrequest, hnone, rfl, hdata, hload⟩ := h.request
  rw [run_eq_answer hrequest hdata hload, answer, answer, hnone]

theorem run_end (h : Asks fallback files front t json) (words : List String)
    (stdin : List UInt8) :
    run fallback files stdin (front ++ "--" :: words) = answer t { json, words } stdin := by
  obtain ⟨path, options, data, hrequest, hnone, rfl, hdata, hload⟩ := h.request
  obtain ⟨hparse, hhelp, hpath⟩ := ofArguments_eq_lookUp_iff.1 hrequest
  have hwords : Options.parse (front ++ "--" :: words) = .ok { options with words } := by
    rw [h.complete.parse_append_eq_bind, hparse]
    show Options.extend options _ = _
    rw [Options.extend_end, hnone, List.nil_append]
  rw [run_eq_answer (ofArguments_eq_lookUp_iff.2 ⟨hwords, hhelp, hpath⟩) hdata hload]
  rfl

theorem run_words (h : Asks fallback files front t json) {words : List String} (hne : words ≠ [])
    (stdin : List UInt8) : run fallback files stdin (front ++ "--" :: words) =
      { stdout := wordsText t json words } := by
  rw [h.run_end, answer, if_neg (by simpa using hne)]

theorem run_lines (h : Asks fallback files front t json) (stdin : List UInt8) :
    run fallback files stdin front =
      { stdout := wordsText t json (inputWords stdin).1
        stderr := if (inputWords stdin).2 then
          "error reading stdin: stream did not contain valid UTF-8\n" else "" } := by
  rw [h.run_front]
  rfl

theorem stdout_word (h : Asks fallback files front t json) (word : String) (stdin : List UInt8) :
    (run fallback files stdin (front ++ ["--", word])).stdout =
      wordText json word (t.analyze word) := by
  rw [h.run_words (List.cons_ne_nil word []), wordsText_eq_join, List.map_singleton,
    String.join_cons, String.join_nil, String.append_empty]

end Asks

/-! ## Whole runs -/

/-- A run on words as arguments succeeds and writes what runs on each of them would, one after the
other, whatever standard input holds, and with one state whose buffers are used again no operation
fails. Words without blanks around them may as well stand on lines. A line that is not text ends
the input, but the run succeeds and writes what it would for the lines before. Log lines are no
part of these outcomes. -/
theorem run_independent (h : Asks fallback files front t json) :
    (∀ (words : List String) (stdin stdin' : List UInt8), words ≠ [] →
      run fallback files stdin (front ++ "--" :: words) =
        { stdout := String.join (words.map fun word =>
            (run fallback files stdin' (front ++ ["--", word])).stdout) } ∧
      ∃ s, Checked.wordsText t json .fresh words =
        .ok ((run fallback files stdin (front ++ "--" :: words)).stdout, s)) ∧
    (∀ (words : List String) (stdin stdin' : List UInt8), words ≠ [] →
      (∀ word ∈ words, IsWord word) → HoldsWords words stdin →
      run fallback files stdin front = run fallback files stdin' (front ++ "--" :: words)) ∧
    (∀ stdin, run fallback files stdin (front ++ ["--"]) = run fallback files stdin front) ∧
    ∀ before line rest : List UInt8, BrokenLine before line rest →
      run fallback files (before ++ line ++ rest) front =
        { stdout := (run fallback files before front).stdout
          stderr := "error reading stdin: stream did not contain valid UTF-8\n" } := by
  refine ⟨fun words stdin stdin' hne => ?_, fun words stdin stdin' hne hwords hholds => ?_,
    fun stdin => ?_, fun before line rest hbroken => ?_⟩
  · rw [h.run_words hne]
    refine ⟨?_, Checked.wordsText_eq h.loaded json words⟩
    simp only [h.stdout_word]
    rw [wordsText_eq_join]
  · rw [h.run_lines, inputWords_of_holdsWords hholds hwords, h.run_words hne]
    rfl
  · rw [h.run_end, h.run_front]
  · rw [h.run_lines, inputWords_broken hbroken, h.run_lines]
    rfl

/-- The small file, wherever it is looked for. -/
def smallFiles (_ : String) : Except FileError (List UInt8) := .ok Transducer.smallFile

theorem asks_small : Asks none smallFiles ["-f", "small"] Transducer.small false where
  complete := .value (.inl rfl) .nil
  request := ⟨"small", { path := some "small" }, Transducer.smallFile, rfl, rfl, rfl, rfl,
    Transducer.ofBytes_smallFile⟩

/-- The words `a` and `-f` on lines with blanks, a carriage return and a blank line. -/
def smallLines : List UInt8 := [0x20, 0x61, 0x0D, 0x0A, 0x20, 0x0A, 0x2D, 0x66, 0x09, 0x0A]

theorem holdsWords_smallLines : HoldsWords ["a", "-f"] smallLines := by
  have hbytes : smallLines = Utf8.encode (" " ++ "a" ++ "") ++ [0x0D, 0x0A] ++
      (Utf8.encode " " ++ [0x0A] ++ (Utf8.encode ("" ++ "-f" ++ "\t") ++ [0x0A] ++ [])) := by
    decide +kernel
  rw [hbytes]
  exact .word ⟨by decide, by decide⟩ ⟨by decide, by decide⟩ (.carriageReturn _) <|
    .blank ⟨by decide, by decide⟩ (.newline _) <|
    .word ⟨by decide, by decide⟩ ⟨by decide, by decide⟩ (.newline _) .done

theorem run_independent_small :
    Asks none smallFiles ["-f", "small"] Transducer.small false ∧
    HoldsWords ["a", "-f"] smallLines ∧
    BrokenLine smallLines [0xFF] [0x0A, 0x61] ∧
    run none smallFiles [] ["-f", "small", "--", "a", "-f"] =
      { stdout := "a\ta\t1\na\tb\t1\n\n-f\t-f+?\tinf\n\n" } ∧
    run none smallFiles smallLines ["-f", "small"] =
      { stdout := "a\ta\t1\na\tb\t1\n\n-f\t-f+?\tinf\n\n" } ∧
    run none smallFiles (smallLines ++ [0xFF] ++ [0x0A, 0x61]) ["-f", "small"] =
      { stdout := "a\ta\t1\na\tb\t1\n\n-f\t-f+?\tinf\n\n"
        stderr := "error reading stdin: stream did not contain valid UTF-8\n" } := by
  obtain ⟨hwords, hlines, -, hbroken⟩ := run_independent asks_small
  have hbreak : BrokenLine smallLines [0xFF] [0x0A, 0x61] :=
    ⟨.inr ⟨smallLines.dropLast, rfl⟩, by decide, by decide, .inr ⟨[0x61], rfl⟩⟩
  have hisWord : ∀ word ∈ ["a", "-f"], IsWord word := by
    intro word hword
    simp only [List.mem_cons, List.not_mem_nil, or_false] at hword
    rcases hword with rfl | rfl
    · exact ⟨by decide, by decide +kernel, by decide⟩
    · exact ⟨by decide, by decide +kernel, by decide⟩
  have hruns : run none smallFiles [] ["-f", "small", "--", "a", "-f"] =
      { stdout := "a\ta\t1\na\tb\t1\n\n-f\t-f+?\tinf\n\n" } := by
    refine ((hwords ["a", "-f"] [] [] (List.cons_ne_nil _ _)).1).trans ?_
    decide +kernel
  have hinput := hlines ["a", "-f"] smallLines [] (List.cons_ne_nil _ _) hisWord
    holdsWords_smallLines
  have hcut := hbroken smallLines [0xFF] [0x0A, 0x61] hbreak
  rw [hinput] at hcut
  refine ⟨asks_small, holdsWords_smallLines, hbreak, hruns, hinput.trans hruns, hcut.trans ?_⟩
  rw [show ["-f", "small"] ++ "--" :: ["a", "-f"] = ["-f", "small", "--", "a", "-f"] from rfl, hruns]

end CommandLine

end TransducerLookup
