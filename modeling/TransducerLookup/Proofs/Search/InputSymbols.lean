import TransducerLookup.Proofs.Loading.WellFormed
import TransducerLookup.Proofs.Search.Backtracking

/-!
# What tokens are

The trie of a transducer registers the texts of its input symbols at their ids,
so a token is the last input symbol with its text. Symbols without text are
never registered: epsilon, flags and whatever only looks like a flag are no
tokens, and no search reads a token through the cell of one of them.
-/

namespace TransducerLookup

namespace Transducer

variable {t : Transducer}

/-! ## Input symbols -/

/-- An ordinary symbol with this text, the last with it of those that text is cut into. -/
structure InputSymbol (t : Transducer) (id : SymbolId) (word : String) : Prop where
  pos : 1 ≤ id.toNat
  lt : id.toNat < min t.header.inputSymbolCount.toNat t.header.symbolCount.toNat
  ne_noSymbol : id ≠ noSymbol
  text : t.alphabet.text? id = some word
  ne_empty : word ≠ ""
  no_flag : t.operation? id = none
  last : ∀ other : SymbolId, other.toNat < t.header.inputSymbolCount.toNat →
    t.alphabet.text? other = some word → other.toNat ≤ id.toNat

/-- The cell has no symbol, or one that is no text: epsilon, a flag, or what only looks like a
flag. -/
inductive Textless (t : Transducer) (pos : Nat) : Prop where
  | empty : t.transitions.input pos = noSymbol → Textless t pos
  | epsilon : t.transitions.input pos = epsilonId → Textless t pos
  | flag {o : Flag.Operation} : t.operation? (t.transitions.input pos) = some o → Textless t pos
  | malformedFlag :
      t.alphabet.symbols[(t.transitions.input pos).toNat]? = some .malformedFlag → Textless t pos

theorem InputSymbol.not_textless {pos : Nat} {word : String}
    (h : t.InputSymbol (t.transitions.input pos) word) : ¬ t.Textless pos := by
  intro htextless
  cases htextless with
  | empty hin => exact h.ne_noSymbol hin
  | epsilon hin => exact absurd (hin ▸ h.pos) (by decide)
  | flag ho => rw [h.no_flag] at ho; cases ho
  | malformedFlag hsymbol =>
    have htext := h.text
    rw [Alphabet.text?, hsymbol] at htext
    exact h.ne_empty (Option.some.inj htext).symm

theorem inputSymbol_of_id? {file : Stream} (hload : load file = .ok t) {id : SymbolId}
    {word : String} (hne : word ≠ "") (hid : t.inputRegistrations.id? word = some id) :
    t.InputSymbol id word := by
  obtain ⟨hlt, htext, hlast⟩ := last_of_id?_inputRegistrations hid
  obtain ⟨symbol, hsymbol, hword⟩ := Option.map_eq_some_iff.1 htext
  have hsize : id.toNat < t.alphabet.size := (Array.getElem?_eq_some_iff.1 hsymbol).1
  rw [size_alphabet_of_load hload] at hsize
  have hepsilon : id ≠ epsilonId := by
    obtain ⟨texts, htexts, -⟩ := (wellFormed_of_load hload).alphabet
    rintro rfl
    rw [htexts] at htext
    exact hne (Alphabet.text?_epsilonId htext)
  have hcount := t.header.inputSymbolCount.toNat_lt
  have hmax : noSymbol.toNat = 65535 := rfl
  exact {
    pos := Nat.pos_of_ne_zero fun h => hepsilon (UInt16.toNat_inj.1 h)
    lt := Nat.lt_min.2 ⟨hlt, hsize⟩
    ne_noSymbol := by rintro rfl; omega
    text := htext
    ne_empty := hne
    no_flag := by
      rw [operation?, Alphabet.operation?, hsymbol]
      exact Symbol.operation?_of_text_ne (hword ▸ hne)
    last := hlast }

end Transducer

/-! ## Turns that read -/

namespace Search

variable {t : Transducer} {tokens : List SymbolId} {s next : State} {f : Frame}
  {below : List Frame}

theorem cursor_tryEpsilon (pos : Nat) : (s.tryEpsilon t f below pos).cursor = s.cursor := by
  unfold State.tryEpsilon
  dsimp only
  split
  · split <;> rfl
  · split
    · rfl
    · split
      · split
        · rfl
        · next pushed hpushed =>
          obtain ⟨flags, -, rfl⟩ := Option.map_eq_some_iff.1 hpushed
          rfl
      · rfl

theorem cursor_arrive : (s.arrive t f below).cursor = s.cursor := by
  unfold State.arrive
  dsimp only
  split
  · split <;> rfl
  · rfl

theorem cursor_leave_le : (s.leave f below).cursor ≤ s.cursor := by
  unfold State.leave
  split
  · exact Nat.le_refl _
  · dsimp only
    split
    · exact Nat.sub_le _ _
    · exact Nat.le_refl _

/-- Only a turn that takes a transition on the current token moves the cursor forward. -/
theorem OnTrail.reads_of_cursor_lt (h : OnTrail t tokens s) (hturn : s.turn t = some next)
    (hlt : s.cursor < next.cursor) :
    ∃ f below pos, s.frames = f :: below ∧ f.phase = .consume pos ∧
      tokens[s.cursor]? = some (t.transitions.input pos) ∧
      next = State.follow t { s with frames := { f with phase := .consume (pos + 1) } :: below }
        pos .symbol 0 := by
  unfold State.turn at hturn
  split at hturn
  · cases hturn
  · next f below hframes =>
    split at hturn <;> obtain rfl := Option.some.inj hturn
    · rw [cursor_tryEpsilon] at hlt; exact absurd hlt (Nat.lt_irrefl _)
    · rw [cursor_arrive] at hlt; exact absurd hlt (Nat.lt_irrefl _)
    · next pos hphase =>
      unfold State.tryConsume at hlt ⊢
      split at hlt
      · next hfits =>
        rw [if_pos hfits]
        exact ⟨f, below, pos, hframes, hphase, (h.reads_of_fits hframes hphase hfits).1, rfl⟩
      · exact absurd hlt (Nat.lt_irrefl _)
    · exact absurd hlt (Nat.not_lt.2 cursor_leave_le)

end Search

namespace Transducer

open Search (run begin)

/-- The tokens of a text are ordinary input symbols and spell the text. So no turn of a lookup
that moves on in the input takes a transition whose cell has no text. -/
theorem tokens_of_load {file : Stream} {t : Transducer} (hload : load file = .ok t)
    {text : String} {tokens : List SymbolId} (htokens : t.tokenize text = some tokens) :
    (∃ words, List.Forall₂ t.InputSymbol tokens words ∧ String.join words = text) ∧
    ∀ (limits : Limits) (turns : Nat) (s next : Search.State),
      run (t.withLimits limits) turns (begin (t.withLimits limits) tokens) = s →
      s.turn (t.withLimits limits) = some next → s.cursor < next.cursor →
      ∃ f below pos, s.frames = f :: below ∧ f.phase = .consume pos ∧
        next.frames = Search.enter (t.withLimits limits) (.ofTarget (t.transitions.target pos))
          (some .symbol) 0 :: { f with phase := .consume (pos + 1) } :: below ∧
        (∃ word, t.InputSymbol (t.transitions.input pos) word) ∧ ¬ t.Textless pos := by
  obtain ⟨words, hjoin, hids⟩ := exists_words_of_tokenize htokens
  have hwords : List.Forall₂ t.InputSymbol tokens words :=
    hids.imp fun id word h => inputSymbol_of_id? hload h.1 h.2
  refine ⟨⟨words, hwords, hjoin⟩, fun limits turns s next hrun hturn hlt => ?_⟩
  have htrail := (Search.OnTrail.begin (t.withLimits limits) tokens).run turns
  rw [hrun] at htrail
  obtain ⟨f, below, pos, hframes, hphase, htoken, rfl⟩ := htrail.reads_of_cursor_lt hturn hlt
  obtain ⟨word, hword⟩ : ∃ word, t.InputSymbol (t.transitions.input pos) word := by
    obtain ⟨i, hi⟩ := List.mem_iff_get.1 (List.mem_of_getElem? htoken)
    exact ⟨_, hi ▸ hwords.get i.isLt (hwords.length_eq ▸ i.isLt)⟩
  exact ⟨f, below, pos, hframes, hphase, rfl, ⟨word, hword⟩, hword.not_textless⟩

/-- The fourth turn on `a` in the small file, which reads it behind the flag. -/
theorem tokens_of_load_small :
    load (.ofBytes smallFile) = .ok small ∧ small.tokenize "a" = some [1] ∧
    (∃ words, List.Forall₂ small.InputSymbol [1] words ∧ String.join words = "a") ∧
    ∃ s next f below pos,
      run (small.withLimits ⟨1, 100⟩) 3 (begin (small.withLimits ⟨1, 100⟩) [1]) = s ∧
      s.turn (small.withLimits ⟨1, 100⟩) = some next ∧ s.cursor < next.cursor ∧
      s.frames = f :: below ∧ f.phase = .consume pos ∧
      (∃ word, small.InputSymbol (small.transitions.input pos) word) ∧ ¬ small.Textless pos := by
  have htokens : small.tokenize "a" = some [1] := by decide +kernel
  generalize hrun : run (small.withLimits ⟨1, 100⟩) 3 (begin (small.withLimits ⟨1, 100⟩) [1]) = s
  have hreads : ((s.turn (small.withLimits ⟨1, 100⟩)).any fun next => s.cursor < next.cursor) =
      true := by
    rw [← hrun]
    decide +kernel
  obtain ⟨next, hturn, hlt⟩ := (Option.any_eq_true _ _).1 hreads
  have hlt := of_decide_eq_true hlt
  obtain ⟨hwords, hturns⟩ := tokens_of_load ofBytes_smallFile htokens
  obtain ⟨f, below, pos, hframes, hphase, -, hword, htext⟩ :=
    hturns ⟨1, 100⟩ 3 s next hrun hturn hlt
  exact ⟨ofBytes_smallFile, htokens, hwords, s, next, f, below, pos, rfl, hturn, hlt, hframes,
    hphase, hword, htext⟩

end Transducer

end TransducerLookup
