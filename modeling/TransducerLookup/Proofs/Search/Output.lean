import TransducerLookup.Proofs.Loading.Symbols
import TransducerLookup.Proofs.Search.Backtracking
import TransducerLookup.Proofs.Search.TurnLimit

/-!
# What an analysis shows

The output of a search is that of the cells on the path that its frames spell
(`Trail.output_eq`). Of these an analysis shows the texts, except that some
outputs show nothing (`Hidden`): those whose symbols have no text, and ids that
are no symbols. What is shown is the text in the file (`shown_text?`).
-/

namespace TransducerLookup

namespace Alphabet

/-- The output shows nothing. -/
inductive Hidden (a : Alphabet) (texts : List String) (id : SymbolId) : Prop where
  | epsilon : id = epsilonId → Hidden a texts id
  | flag {text : String} : texts[id.toNat]? = some text → a.IsKind id text .flag →
      Hidden a texts id
  | placeholder {text : String} : texts[id.toNat]? = some text → a.IsKind id text .placeholder →
      Hidden a texts id
  | empty : texts[id.toNat]? = some "" → Hidden a texts id
  | noSymbol : id = noSymbol → Hidden a texts id
  | outside : a.size ≤ id.toNat → Hidden a texts id

/-- The outputs show these symbols: each that is not hidden shows its text, in order. -/
inductive Shown (a : Alphabet) (texts : List String) : List SymbolId → List String → Prop where
  | nil : Shown a texts [] []
  | hidden {id : SymbolId} {ids : List SymbolId} {symbols : List String} :
      a.Hidden texts id → Shown a texts ids symbols → Shown a texts (id :: ids) symbols
  | text {id : SymbolId} {symbol : String} {ids : List SymbolId} {symbols : List String} :
      ¬ a.Hidden texts id → texts[id.toNat]? = some symbol → Shown a texts ids symbols →
      Shown a texts (id :: ids) (symbol :: symbols)

variable {a : Alphabet} {texts : List String}

theorem Shown.of_mem {ids : List SymbolId} {symbols : List String} (h : Shown a texts ids symbols)
    {symbol : String} (hsymbol : symbol ∈ symbols) :
    ∃ id ∈ ids, ¬ a.Hidden texts id ∧ texts[id.toNat]? = some symbol := by
  induction h with
  | nil => cases hsymbol
  | hidden _ _ ih =>
    obtain ⟨id, hid, h⟩ := ih hsymbol
    exact ⟨id, List.mem_cons_of_mem _ hid, h⟩
  | text hshown htext _ ih =>
    rcases List.mem_cons.1 hsymbol with rfl | hsymbol
    · exact ⟨_, List.mem_cons_self, hshown, htext⟩
    · obtain ⟨id, hid, h⟩ := ih hsymbol
      exact ⟨id, List.mem_cons_of_mem _ hid, h⟩

section Decoded

variable {id : SymbolId}

theorem Hidden.text? (h : Decoded texts a) (hid : a.Hidden texts id) :
    a.text? id = none ∨ a.text? id = some "" := by
  have hepsilon : a.text? epsilonId = none ∨ a.text? epsilonId = some "" := by
    by_cases hne : texts = []
    · exact .inl (h.outside epsilonId (by rw [hne]; exact Nat.zero_le _)).1
    · exact .inr (h.epsilon.1 hne)
  cases hid with
  | epsilon hid => rwa [hid]
  | flag _ hkind => exact .inr hkind.2.2.1
  | placeholder _ hkind => exact .inr hkind.2.2.1
  | empty htext =>
    by_cases hid : id = epsilonId
    · rwa [hid]
    · obtain ⟨kind, hkind, -⟩ := h.kinds id "" hid htext
      cases kind with
      | ordinary => exact .inr hkind.2.1
      | flag => exact .inr hkind.2.2.1
      | placeholder => exact .inr hkind.2.2.1
  | noSymbol hid => exact .inl (hid ▸ h.noSymbol.1)
  | outside hid => exact .inl (h.outside id (h.size ▸ hid)).1

theorem text?_of_not_hidden (h : Decoded texts a) (hid : ¬ a.Hidden texts id) :
    id ≠ epsilonId ∧ ∃ text, texts[id.toNat]? = some text ∧ text ≠ "" ∧
      a.IsKind id text .ordinary := by
  have hne : id ≠ epsilonId := fun heq => hid (.epsilon heq)
  have hlt : id.toNat < texts.length := by
    by_contra hge
    exact hid (.outside (h.size ▸ Nat.le_of_not_lt hge))
  have htext := List.getElem?_eq_getElem hlt
  refine ⟨hne, texts[id.toNat], htext, fun hempty => hid (.empty (htext.trans ?_)), ?_⟩
  · rw [hempty]
  · obtain ⟨kind, hkind, -⟩ := h.kinds id _ hne htext
    cases kind with
    | ordinary => exact hkind
    | flag => exact absurd (.flag htext hkind) hid
    | placeholder => exact absurd (.placeholder htext hkind) hid

/-- The texts of the alphabet, without empty ones, are what is shown. -/
theorem shown_text? (h : Decoded texts a) (ids : List SymbolId) :
    a.Shown texts ids ((ids.filterMap a.text?).filter (· ≠ "")) := by
  induction ids with
  | nil => exact .nil
  | cons id ids ih =>
    by_cases hid : a.Hidden texts id
    · refine .hidden hid ?_
      rcases hid.text? h with htext | htext
      · rwa [List.filterMap_cons_none htext]
      · rwa [List.filterMap_cons_some htext, List.filter_cons_of_neg (by simp)]
    · obtain ⟨-, text, htext, hne, -, htext?, -⟩ := text?_of_not_hidden h hid
      rw [List.filterMap_cons_some htext?, List.filter_cons_of_pos (by simpa using hne)]
      exact .text hid htext ih

end Decoded

end Alphabet

namespace Search

variable {t : Transducer} {tokens : List SymbolId}

/-- The cells of the transitions on the path that the frames spell, last first. -/
def pathCells (frames : List Frame) : List Nat := frames.tail.filterMap Frame.cell?

def pathOutputs (t : Transducer) (frames : List Frame) : List SymbolId :=
  (pathCells frames).reverse.map t.transitions.output

theorem Entered.cell?_eq {cursor pos : Nat} {parent child : Frame}
    (h : Entered t tokens cursor parent child pos) : parent.cell? = some pos := by
  unfold Frame.cell?
  cases h with
  | epsilon hphase => rw [hphase]
  | flag hphase => rw [hphase]
  | symbol hphase => rw [hphase]

theorem pathCells_cons {cursor pos : Nat} {parent child : Frame} {below : List Frame}
    (h : Entered t tokens cursor parent child pos) :
    pathCells (child :: parent :: below) = pos :: pathCells (parent :: below) := by
  unfold pathCells
  rw [List.tail_cons, List.filterMap_cons_some h.cell?_eq, List.tail_cons]

theorem Trail.output_eq {frames : List Frame} {output : List (SymbolId × Weight)} {cursor : Nat}
    {rows : List Flag.Row} (h : Trail t tokens frames output cursor rows) :
    output = (pathCells frames).map fun pos =>
      (t.transitions.output pos, t.transitions.weight pos) := by
  induction h with
  | root => rfl
  | epsilon _ hin _ _ _ ih => rw [pathCells_cons hin, ih, List.map_cons]
  | flag _ hin _ _ _ _ _ ih => rw [pathCells_cons hin, ih, List.map_cons]
  | symbol _ hin _ _ ih => rw [pathCells_cons hin, ih, List.map_cons]

/-- Each analysis was found by one turn, before which the ones before it had been found. -/
theorem exists_turn_of_getElem?_finds {s : State} {turns k : Nat} {a : Analysis}
    (h : (finds t s turns)[k]? = some a) :
    ∃ i < turns, (run t i s).finds? t = some a ∧ (finds t s i).length = k := by
  induction turns with
  | zero => cases h
  | succ turns ih =>
    rw [finds_succ, List.getElem?_append] at h
    split at h
    · obtain ⟨i, hi, hfound⟩ := ih h
      exact ⟨i, Nat.lt_succ_of_lt hi, hfound⟩
    · next hge =>
      cases hfinds : (run t turns s).finds? t with
      | none => rw [hfinds] at h; cases h
      | some b =>
        rw [hfinds, Option.toList_some, List.getElem?_singleton] at h
        split at h
        · next hzero =>
          obtain rfl := Option.some.inj h
          exact ⟨turns, Nat.lt_succ_self _, hfinds, by omega⟩
        · cases h

theorem symbols_analysis (s : State) (w : Weight)
    (htrail : Trail t tokens s.frames s.output s.cursor s.flags.rows) :
    (s.analysis t w).symbols =
      ((pathOutputs t s.frames).filterMap t.alphabet.text?).filter (· ≠ "") := by
  unfold State.analysis pathOutputs
  rw [htrail.output_eq, ← List.map_reverse, List.filterMap_map, List.filterMap_map]
  rfl

/-- The next turn finds the analysis, on the path that the frames spell, as the next after so
many. -/
structure FindsNext (t : Transducer) (tokens : List SymbolId) (s : State) (found : Nat)
    (a : Analysis) : Prop where
  path : Backtracks t tokens s
  found : s.found.length = found
  turn : ∃ next, s.turn t = some next ∧ next.found = a :: s.found

/-- What the next turn finds is found on a path, whose output it shows. -/
theorem findsNext_of_finds? {s : State} {a : Analysis} (htrail : OnTrail t tokens s)
    (h : s.finds? t = some a) : FindsNext t tokens s s.found.length a ∧
      a.symbols = ((pathOutputs t s.frames).filterMap t.alphabet.text?).filter (· ≠ "") := by
  have hne : s.frames ≠ [] := by
    intro hnil
    rw [State.finds?, hnil] at h
    cases h
  obtain ⟨next, hturn⟩ := Option.ne_none_iff_exists'.1 (mt turn_eq_none_iff.1 hne)
  have hfound := found_of_turn hturn
  rw [h] at hfound
  obtain ⟨f, below, hframes⟩ := List.exists_cons_of_ne_nil hne
  have hpath := htrail.trail f below hframes
  rw [← hframes] at hpath
  obtain ⟨w, rfl⟩ := finds?_eq_some h
  exact ⟨⟨htrail.backtracks hne, rfl, next, hturn, hfound⟩, symbols_analysis s w hpath⟩

/-- Each analysis of a lookup was found by some turn. -/
theorem exists_findsNext {text : String} {k : Nat} {a : Analysis}
    (h : (t.analyze text)[k]? = some a) : ∃ tokens turns, t.tokenize text = some tokens ∧
      turns < t.limits.maxSteps ∧ FindsNext t tokens (run t turns (begin t tokens)) k a ∧
      a.symbols = ((pathOutputs t (run t turns (begin t tokens)).frames).filterMap
        t.alphabet.text?).filter (· ≠ "") := by
  cases htokens : t.tokenize text with
  | none =>
    rw [Transducer.analyze_of_tokenize_eq_none htokens] at h
    cases h
  | some tokens =>
    rw [analyze_eq_finds htokens] at h
    obtain ⟨turns, hlt, hfinds, rfl⟩ := exists_turn_of_getElem?_finds h
    have hcount : (run t turns (begin t tokens)).found.length =
        (finds t (begin t tokens) turns).length := by
      rw [← reverse_found_run_begin, List.length_reverse]
    rw [← hcount]
    exact ⟨tokens, turns, rfl, hlt,
      findsNext_of_finds? ((OnTrail.begin t tokens).run turns) hfinds⟩

/-- A loaded transducer has the alphabet of the texts in its file. -/
theorem exists_image_of_ofBytes {file : List UInt8} (h : Transducer.ofBytes file = .ok t) :
    ∃ (i : Image) (rest : List UInt8), i.WellFormed ∧ i.bytes ++ rest = file ∧
      t.alphabet.Decoded i.texts := by
  obtain ⟨rest, hdecode⟩ := Transducer.load_eq_ok_iff.1 h
  obtain ⟨_, ⟨i, hi, rfl, rfl⟩, hfile⟩ := (reads_decode _ _ _).1 hdecode
  have hlength := ((Image.wellFormed_iff i).1 hi).2.1
  have hlt := (Header.ofBytes i.header).symbolCount.toNat_lt
  have hmax : noSymbol.toNat = 65535 := rfl
  exact ⟨i, rest.pending, hi, (congrArg Stream.pending hfile).symm,
    Alphabet.decoded_ofTexts (by omega)⟩

/-- The analyses of a loaded transducer show texts of its file: those of the symbols that the path
puts out on which the analysis was found, in order, without epsilon, flags, what only looks like a
flag, empty texts and ids that are no symbols. -/
theorem shows_path_of_ofBytes {file : List UInt8} (h : Transducer.ofBytes file = .ok t) :
    ∃ (i : Image) (rest : List UInt8), i.WellFormed ∧ i.bytes ++ rest = file ∧
      ∀ (limits : Limits) (text : String) (k : Nat) (a : Analysis),
        ((t.withLimits limits).analyze text)[k]? = some a →
        ∃ tokens turns s, t.tokenize text = some tokens ∧ turns < limits.maxSteps ∧
          s = run (t.withLimits limits) turns (begin t tokens) ∧
          FindsNext (t.withLimits limits) tokens s k a ∧
          (∀ symbol ∈ a.symbols, symbol ≠ "" ∧ Flag.isShaped symbol.toList = false ∧
            ∃ id ∈ pathOutputs t s.frames, 1 ≤ id.toNat ∧ i.texts[id.toNat]? = some symbol) ∧
          t.alphabet.Shown i.texts (pathOutputs t s.frames) a.symbols := by
  obtain ⟨i, rest, hi, hfile, hdecoded⟩ := exists_image_of_ofBytes h
  refine ⟨i, rest, hi, hfile, fun limits text k a ha => ?_⟩
  obtain ⟨tokens, turns, htokens, hlt, hfinds, hsymbols⟩ := exists_findsNext ha
  have hshown : t.alphabet.Shown i.texts
      (pathOutputs t (run (t.withLimits limits) turns (begin t tokens)).frames) a.symbols := by
    rw [hsymbols]
    exact Alphabet.shown_text? hdecoded _
  refine ⟨tokens, turns, _, htokens, hlt, rfl, hfinds, fun symbol hsymbol => ?_, hshown⟩
  obtain ⟨id, hid, hvisible, htext⟩ := hshown.of_mem hsymbol
  obtain ⟨hne, text', htext', hempty, hkind⟩ := Alphabet.text?_of_not_hidden hdecoded hvisible
  obtain rfl := Option.some.inj (htext.symm.trans htext')
  exact ⟨hempty, hkind.1, id, hid, Nat.pos_of_ne_zero (Alphabet.ne_epsilonId hne), htext⟩

/-- A lookup that is cut off after six turns. Its analysis is found by the last of them, on a path
through a flag that puts out epsilon and a transition that puts out `a`. -/
theorem shows_path_of_ofBytes_small :
    Transducer.ofBytes Transducer.smallFile = .ok Transducer.small ∧
    ((Transducer.small.withLimits ⟨1, 6⟩).analyze "a")[0]? = some ⟨["a"], .one⟩ ∧
    pathOutputs Transducer.small
      (run (Transducer.small.withLimits ⟨1, 6⟩) 5 (begin Transducer.small [1])).frames = [0, 1] ∧
    ∃ (i : Image) (rest : List UInt8), i.WellFormed ∧ i.bytes ++ rest = Transducer.smallFile ∧
      ∃ (turns : Nat) (s : State), turns < 6 ∧
        s = run (Transducer.small.withLimits ⟨1, 6⟩) turns (begin Transducer.small [1]) ∧
        FindsNext (Transducer.small.withLimits ⟨1, 6⟩) [1] s 0 ⟨["a"], .one⟩ ∧
        Transducer.small.alphabet.Shown i.texts (pathOutputs Transducer.small s.frames) ["a"] := by
  have ha : ((Transducer.small.withLimits ⟨1, 6⟩).analyze "a")[0]? = some ⟨["a"], .one⟩ := by
    decide +kernel
  have htokens : Transducer.small.tokenize "a" = some [1] := by decide +kernel
  obtain ⟨i, rest, hi, hfile, hshows⟩ := shows_path_of_ofBytes Transducer.ofBytes_smallFile
  obtain ⟨tokens, turns, s, htokens', hturns, hs, hfinds, -, hshown⟩ := hshows _ _ _ _ ha
  obtain rfl := Option.some.inj (htokens.symm.trans htokens')
  exact ⟨Transducer.ofBytes_smallFile, ha, by decide +kernel, i, rest, hi, hfile, turns, s, hturns,
    hs, hfinds, hshown⟩

end Search

end TransducerLookup
