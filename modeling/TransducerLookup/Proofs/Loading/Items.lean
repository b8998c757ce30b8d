import Mathlib.Logic.Relation
import TransducerLookup.Proofs.Loading.Reads
import TransducerLookup.Transducer

/-!
# Which item decides

A file is a row of items, of which each says where the next one starts and what
it is. `Step` passes one item: its bytes are complete and, if it is a symbol,
they are text. Steps are determined by the bytes, so every file has one item
that cannot be passed, or none. Loading passes the same items (`Tracks`), so it
fails if and only if there is such an item, with the error of that item.
-/

namespace TransducerLookup

/-! ## Items -/

/-- What is read of a file in one go. The items behind the header proper depend on its bytes. -/
inductive Item where
  /-- The bytes that tell whether there is a preamble. -/
  | opening
  | preambleLength
  | preambleBody (size : Nat)
  /-- The first bytes of the header proper behind a preamble. -/
  | reopening
  | headerRest (head : List UInt8)
  | symbol (header : List UInt8) (id : Nat)
  | indexTable (header : List UInt8)
  | transitionTable (header : List UInt8)

namespace Item

def part : Item → Section
  | opening | reopening | headerRest _ => .header
  | preambleLength | preambleBody _ => .preamble
  | symbol _ _ => .alphabet
  | indexTable _ => .indexTable
  | transitionTable _ => .transitionTable

/-- The bytes of an item that does not end in a NUL. -/
def size? : Item → Option Nat
  | opening | reopening => some 5
  | preambleLength => some 2
  | preambleBody size => some size
  | headerRest _ => some 51
  | symbol _ _ => none
  | indexTable header => some (Record.field header 4 4 * 6)
  | transitionTable header =>
    some (Record.field header 8 4 * if Record.field header 20 4 = 0 then 8 else 12)

/-- Its size was itself read from the file. -/
def IsBlock : Item → Prop
  | preambleBody _ | indexTable _ | transitionTable _ => True
  | _ => False

def Completes (item : Item) (bytes : List UInt8) : Prop :=
  match item.size? with
  | some size => bytes.length = size
  | none => ∃ text, 0 ∉ text ∧ bytes = text ++ [0]

/-- The bytes of a symbol are text. -/
def Valid (bytes : List UInt8) : Item → Prop
  | symbol _ _ => ∃ text, bytes = Utf8.encode text ++ [0]
  | _ => True

/-- The symbol with this id, or the table behind the symbols. -/
def symbolOrTable (header : List UInt8) (id : Nat) : Item :=
  if id < Record.field header 2 2 then symbol header id else indexTable header

/-- What comes after the item with these bytes, `none` at the end. -/
def next (bytes : List UInt8) : Item → Option Item
  | opening => if bytes = Header.magic then some preambleLength else some (headerRest bytes)
  | preambleLength => some (preambleBody (littleEndian bytes + 1))
  | preambleBody _ => some reopening
  | reopening => some (headerRest bytes)
  | headerRest head => some (symbolOrTable (head ++ bytes) 0)
  | symbol header id => some (symbolOrTable header (id + 1))
  | indexTable header => some (transitionTable header)
  | transitionTable _ => none

/-- Why loading fails, when bytes run out inside an item. -/
inductive Lacks : Item → Ending → LoadError → Prop
  | atEnd {item : Item} : Lacks item .endOfData (.truncated item.part)
  | unexpectedEnd {item : Item} {f : Fault} :
      ¬ item.IsBlock → f.kind = .unexpectedEnd → Lacks item (.fault f) (.truncated item.part)
  | otherFault {item : Item} {f : Fault} :
      item.IsBlock ∨ f.kind ≠ .unexpectedEnd → Lacks item (.fault f) (.streamFault f.text)

/-- The item cannot be passed with these bytes left, and loading fails with this error. -/
inductive Fails : Item → List UInt8 → Ending → LoadError → Prop
  | short {item : Item} {rest : List UInt8} {ending : Ending} {e : LoadError} :
      (∀ bytes, bytes <+: rest → ¬ item.Completes bytes) → item.Lacks ending e →
      Fails item rest ending e
  | invalid {header : List UInt8} {id : Nat} {bytes rest : List UInt8} {ending : Ending} :
      (symbol header id).Completes bytes → ¬ (symbol header id).Valid bytes →
      Fails (symbol header id) (bytes ++ rest) ending (.invalidSymbol id)

inductive Step : Option Item × List UInt8 → Option Item × List UInt8 → Prop
  | pass {item : Item} {bytes : List UInt8} (rest : List UInt8) :
      item.Completes bytes → item.Valid bytes →
      Step (some item, bytes ++ rest) (item.next bytes, rest)

/-- On the way through a file, `rest` is left at `item`; at `none`, all items have been passed. -/
abbrev Reached (file : List UInt8) (item : Option Item) (rest : List UInt8) : Prop :=
  Relation.ReflTransGen Step (some .opening, file) (item, rest)

/-! ## One way through a file -/

theorem Completes.unique {item : Item} {bytes bytes' rest rest' : List UInt8}
    (h : item.Completes bytes) (h' : item.Completes bytes')
    (heq : bytes ++ rest = bytes' ++ rest') : bytes = bytes' ∧ rest = rest' := by
  unfold Completes at h h'
  cases hsize : item.size? with
  | some size =>
    rw [hsize] at h h'
    exact List.append_inj heq (h.trans h'.symm)
  | none =>
    rw [hsize] at h h'
    obtain ⟨text, htext, rfl⟩ := h
    obtain ⟨text', htext', rfl⟩ := h'
    rw [← List.append_cons, ← List.append_cons] at heq
    obtain ⟨rfl, rfl⟩ := append_zero_inj htext htext' heq
    exact ⟨rfl, rfl⟩

theorem Lacks.unique {item : Item} {ending : Ending} {e e' : LoadError}
    (h : item.Lacks ending e) (h' : item.Lacks ending e') : e = e' := by
  cases h with
  | atEnd => cases h'; rfl
  | unexpectedEnd hblock hkind =>
    cases h' with
    | unexpectedEnd => rfl
    | otherFault h => exact (h.elim hblock fun hne => hne hkind).elim
  | otherFault h =>
    cases h' with
    | unexpectedEnd hblock hkind => exact (h.elim hblock fun hne => hne hkind).elim
    | otherFault => rfl

theorem Fails.unique {item : Item} {rest : List UInt8} {ending : Ending} {e e' : LoadError}
    (h : item.Fails rest ending e) (h' : item.Fails rest ending e') : e = e' := by
  cases h with
  | short hshort he =>
    cases h' with
    | short _ he' => exact he.unique he'
    | invalid hcomplete => exact (hshort _ (List.prefix_append _ _) hcomplete).elim
  | @invalid header id bytes rest ending hcomplete =>
    generalize hrest : bytes ++ rest = rest' at h'
    cases h' with
    | short hshort => exact (hshort bytes (hrest ▸ List.prefix_append _ _) hcomplete).elim
    | invalid => rfl

theorem Fails.not_step {item : Item} {rest : List UInt8} {ending : Ending} {e : LoadError}
    (h : item.Fails rest ending e) (c : Option Item × List UInt8) : ¬ Step (some item, rest) c := by
  intro hstep
  generalize hsource : (some item, rest) = source at hstep
  obtain @⟨item', bytes, rest', hcomplete, hvalid⟩ := hstep
  obtain ⟨hitem, hrest⟩ := Prod.mk.inj hsource
  obtain rfl := Option.some.inj hitem
  cases h with
  | short hshort => exact hshort bytes (hrest ▸ List.prefix_append _ _) hcomplete
  | invalid hcomplete' hinvalid =>
    obtain ⟨rfl, -⟩ := hcomplete.unique hcomplete' hrest.symm
    exact hinvalid hvalid

theorem not_step_none (rest : List UInt8) (c : Option Item × List UInt8) :
    ¬ Step (none, rest) c := nofun

theorem Step.unique {c d d' : Option Item × List UInt8} (h : Step c d) (h' : Step c d') :
    d = d' := by
  obtain @⟨item, bytes, rest, hcomplete, -⟩ := h
  generalize hsource : (some item, bytes ++ rest) = source at h'
  obtain @⟨item', bytes', rest', hcomplete', -⟩ := h'
  obtain ⟨hitem, hbytes⟩ := Prod.mk.inj hsource
  obtain rfl := Option.some.inj hitem
  obtain ⟨rfl, rfl⟩ := hcomplete.unique hcomplete' hbytes
  rfl

/-- There is one place where a file can go no further. -/
theorem Reached.unique {file : List UInt8} {item item' : Option Item} {rest rest' : List UInt8}
    (h : Reached file item rest) (h' : Reached file item' rest')
    (hstuck : ∀ c, ¬ Step (item, rest) c) (hstuck' : ∀ c, ¬ Step (item', rest') c) :
    item = item' ∧ rest = rest' := by
  have hunique : Relator.RightUnique Step := fun _ _ _ => Step.unique
  -- One way goes on from the end of the other, where there is no step.
  rcases Relation.ReflTransGen.total_of_right_unique hunique h h' with hon | hon
  · rcases hon.cases_head with heq | ⟨c, hc, -⟩
    · exact Prod.mk.inj heq
    · exact (hstuck c hc).elim
  · rcases hon.cases_head with heq | ⟨c, hc, -⟩
    · exact Prod.mk.inj heq.symm
    · exact (hstuck' c hc).elim

theorem Fails.unique_of_reached {file : List UInt8} {item item' : Item} {rest rest' : List UInt8}
    {ending : Ending} {e e' : LoadError} (hfails : item.Fails rest ending e)
    (hfails' : item'.Fails rest' ending e') (h : Reached file (some item) rest)
    (h' : Reached file (some item') rest') : item = item' ∧ rest = rest' ∧ e = e' := by
  obtain ⟨hitem, rfl⟩ := h.unique h' hfails.not_step hfails'.not_step
  obtain rfl := Option.some.inj hitem
  exact ⟨rfl, rfl, hfails.unique hfails'⟩

theorem Fails.not_reached_none {file : List UInt8} {item : Item} {rest rest' : List UInt8}
    {ending : Ending} {e : LoadError} (hfails : item.Fails rest ending e)
    (h : Reached file (some item) rest) : ¬ Reached file none rest' := by
  intro hend
  obtain ⟨hitem, -⟩ := h.unique hend hfails.not_step (not_step_none rest')
  cases hitem

end Item

/-! ## Decoders go through the items -/

namespace Decoder

open Item (Step symbolOrTable)

/-- A decoder that starts at `item` has passed some items, or has met one that it could not. -/
inductive Tracked {α : Type} (item : Option Item) (After : α → Option Item → Prop) (s : Stream) :
    EStateM.Result LoadError Stream α → Prop
  | passed {a : α} {item' : Option Item} {rest : List UInt8} : After a item' →
      Relation.ReflTransGen Step (item, s.pending) (item', rest) →
      Tracked item After s (.ok a ⟨rest, s.ending⟩)
  | failed {e : LoadError} {s' : Stream} {item' : Item} {rest : List UInt8} :
      Relation.ReflTransGen Step (item, s.pending) (some item', rest) →
      item'.Fails rest s.ending e → Tracked item After s (.error e s')

/-- Started at `item`, the decoder passes items up to one that `After` allows for its result. -/
def Tracks {α : Type} (d : Decoder α) (item : Option Item) (After : α → Option Item → Prop) :
    Prop :=
  ∀ s, Tracked item After s (d s)

variable {α β : Type} {item : Option Item} {After : α → Option Item → Prop}

/-- What was tracked from some item is tracked from an item before it. -/
theorem Tracked.after {s : Stream} {item' : Option Item} {rest : List UInt8}
    {r : EStateM.Result LoadError Stream α} (h : Tracked item' After ⟨rest, s.ending⟩ r)
    (hsteps : Relation.ReflTransGen Step (item, s.pending) (item', rest)) :
    Tracked item After s r := by
  cases h with
  | passed hafter hsteps' => exact .passed hafter (hsteps.trans hsteps')
  | failed hsteps' hfails => exact .failed (hsteps.trans hsteps') hfails

namespace Tracks

variable {d : Decoder α}

theorem pure {a : α} (h : After a item) : Tracks (pure a) item After :=
  fun _ => .passed h .refl

theorem bind {f : α → Decoder β} {After' : β → Option Item → Prop} (h : Tracks d item After)
    (hf : ∀ a item', After a item' → Tracks (f a) item' After') :
    Tracks (d >>= f) item After' := by
  intro s
  show Tracked item After' s (EStateM.bind d f s)
  unfold EStateM.bind
  have hd := h s
  generalize d s = r at hd
  cases hd with
  | failed hsteps hfails => exact .failed hsteps hfails
  | @passed a item' rest hafter hsteps => exact (hf a item' hafter ⟨rest, s.ending⟩).after hsteps

theorem mono {After' : α → Option Item → Prop} (h : Tracks d item After)
    (hmono : ∀ a item', After a item' → After' a item') : Tracks d item After' := by
  intro s
  have hd := h s
  generalize d s = r at hd ⊢
  cases hd with
  | failed hsteps hfails => exact .failed hsteps hfails
  | passed hafter hsteps => exact .passed (hmono _ _ hafter) hsteps

end Tracks

theorem tracks_take {item : Item} {n : Nat} {onShort : Ending → LoadError}
    (hsize : item.size? = some n) (hshort : ∀ ending, item.Lacks ending (onShort ending)) :
    Tracks (take n onShort) (some item) fun bytes item' =>
      bytes.length = n ∧ item' = item.next bytes := by
  have hcompletes (bytes : List UInt8) : item.Completes bytes ↔ bytes.length = n := by
    rw [Item.Completes, hsize]
  intro s
  rcases take_cases n onShort s with ⟨bytes, rest, hlen, hs, hok⟩ | ⟨hlt, herror⟩
  · have hvalid : item.Valid bytes := by
      cases item with
      | symbol header id => cases hsize
      | _ => trivial
    rw [hok]
    refine .passed ⟨hlen, rfl⟩ (.single ?_)
    rw [hs]
    exact .pass rest ((hcompletes bytes).2 hlen) hvalid
  · rw [herror]
    refine .failed .refl (.short (fun bytes hfront hcomplete => ?_) (hshort s.ending))
    have hle := hfront.length_le
    rw [(hcompletes bytes).1 hcomplete] at hle
    omega

theorem lacks_fixedError {item : Item} (h : ¬ item.IsBlock) (ending : Ending) :
    item.Lacks ending (ending.fixedError item.part) := by
  cases ending with
  | endOfData => exact .atEnd
  | fault f =>
    show item.Lacks _ (if f.kind = .unexpectedEnd then _ else _)
    split
    · next hkind => exact .unexpectedEnd h hkind
    · next hkind => exact .otherFault (.inr hkind)

theorem lacks_blockError {item : Item} (h : item.IsBlock) (ending : Ending) :
    item.Lacks ending (ending.blockError item.part) := by
  cases ending with
  | endOfData => exact .atEnd
  | fault f => exact .otherFault (.inl h)

end Decoder

/-! ## Loading -/

open Decoder (Tracks tracks_take lacks_fixedError lacks_blockError)
open Item (symbolOrTable)

theorem tracks_decodeRest {head : List UInt8} (hhead : head.length = 5) :
    Tracks (Header.decodeRest head) (some (.headerRest head)) fun h item =>
      ∃ bytes, h = Header.ofBytes bytes ∧ item = some (symbolOrTable bytes 0) := by
  unfold Header.decodeRest
  rw [hhead]
  refine .bind (tracks_take rfl (lacks_fixedError not_false)) fun rest item' hitem => ?_
  obtain ⟨-, rfl⟩ := hitem
  exact .pure ⟨head ++ rest, rfl, rfl⟩

theorem tracks_decodePreamble :
    Tracks Header.decodePreamble (some .preambleLength) fun _ item => item = some .reopening := by
  have hlength : Tracks (Decoder.word16 .preamble) (some .preambleLength)
      fun length item => item = some (.preambleBody (length.toNat + 1)) := by
    refine .bind (tracks_take rfl (lacks_fixedError not_false)) fun bytes item' hitem => .pure ?_
    obtain ⟨hlen, rfl⟩ := hitem
    rw [toNat_littleEndian16 hlen]
    rfl
  refine .bind hlength fun length item' hitem => ?_
  subst hitem
  refine .bind (tracks_take rfl (lacks_blockError trivial)) fun body item' hitem => .pure ?_
  exact hitem.2

theorem tracks_header :
    Tracks Header.decode (some .opening) fun h item =>
      ∃ bytes preamble, h = { Header.ofBytes bytes with preamble } ∧
        item = some (symbolOrTable bytes 0) := by
  refine .bind (tracks_take rfl (lacks_fixedError not_false)) fun head item' hitem => ?_
  obtain ⟨hhead, rfl⟩ := hitem
  unfold Item.next
  by_cases hmagic : head = Header.magic
  · rw [if_pos hmagic, if_pos hmagic]
    refine .bind tracks_decodePreamble fun properties item' hitem => ?_
    subst hitem
    refine .bind (tracks_take rfl (lacks_fixedError not_false)) fun head' item' hitem => ?_
    obtain ⟨hhead', rfl⟩ := hitem
    refine .bind (tracks_decodeRest hhead') fun h item' hitem => .pure ?_
    obtain ⟨bytes, rfl, rfl⟩ := hitem
    exact ⟨bytes, some properties, rfl, rfl⟩
  · rw [if_neg hmagic, if_neg hmagic]
    refine (tracks_decodeRest hhead).mono fun h item' hitem => ?_
    obtain ⟨bytes, rfl, rfl⟩ := hitem
    exact ⟨bytes, none, rfl, rfl⟩

theorem symbol_cases (header : List UInt8) (id : Nat) (s : Stream) :
    (∃ text rest, Decoder.untilNul .alphabet s = .ok (Utf8.encode text) ⟨rest, s.ending⟩ ∧
      Item.Step (some (.symbol header id), s.pending)
        (some (symbolOrTable header (id + 1)), rest)) ∨
    (∃ bytes rest, Decoder.untilNul .alphabet s = .ok bytes ⟨rest, s.ending⟩ ∧
      Utf8.decode? bytes = none ∧
      (Item.symbol header id).Fails s.pending s.ending (.invalidSymbol id)) ∨
    ∃ e s', Decoder.untilNul .alphabet s = .error e s' ∧
      (Item.symbol header id).Fails s.pending s.ending e := by
  rcases Decoder.untilNul_cases .alphabet s with ⟨bytes, rest, hbytes, hs, hok⟩ | ⟨hbytes, herror⟩
  · have hpending : s.pending = (bytes ++ [0]) ++ rest := by
      rw [hs, List.append_cons]
    have hcomplete : (Item.symbol header id).Completes (bytes ++ [0]) := ⟨bytes, hbytes, rfl⟩
    rw [hpending]
    cases htext : Utf8.decode? bytes with
    | some text =>
      obtain rfl := Utf8.decode?_eq_some_iff.1 htext
      exact .inl ⟨text, rest, hok, .pass rest hcomplete ⟨text, rfl⟩⟩
    | none =>
      refine .inr (.inl ⟨bytes, rest, hok, htext, .invalid hcomplete fun hvalid => ?_⟩)
      obtain ⟨text, heq⟩ := hvalid
      rw [List.append_cancel_right heq, Utf8.decode?_encode] at htext
      cases htext
  · have hfixed : ¬ (Item.symbol header id).IsBlock := not_false
    refine .inr (.inr ⟨_, _, herror, .short (fun bytes hfront hcomplete => ?_)
      (lacks_fixedError hfixed s.ending)⟩)
    obtain ⟨text, -, rfl⟩ := hcomplete
    exact hbytes (hfront.subset (List.mem_append_right text List.mem_cons_self))

theorem tracks_decodeTexts {header : List UInt8} {count : Nat} (texts : Array String)
    (h : texts.size + count = Record.field header 2 2) :
    Tracks (Alphabet.decodeTexts count texts) (some (symbolOrTable header texts.size))
      fun _ item => item = some (.indexTable header) := by
  induction count generalizing texts with
  | zero =>
    refine .pure ?_
    rw [symbolOrTable, if_neg (by omega)]
  | succ count ih =>
    rw [symbolOrTable, if_pos (by omega)]
    intro s
    show Decoder.Tracked _ _ s (EStateM.bind _ _ s)
    unfold EStateM.bind
    rcases symbol_cases header texts.size s with ⟨text, rest, hok, hstep⟩ |
      ⟨bytes, rest, hok, htext, hfails⟩ | ⟨e, s', herror, hfails⟩
    · have hrec := ih (texts.push text) (by rw [Array.size_push]; omega) ⟨rest, s.ending⟩
      rw [Array.size_push] at hrec
      rw [hok]
      dsimp only
      rw [Utf8.decode?_encode]
      exact hrec.after (.single hstep)
    · rw [hok]
      dsimp only
      rw [htext]
      exact .failed .refl hfails
    · rw [herror]
      exact .failed .refl hfails

theorem tracks_alphabet (header : List UInt8) :
    Tracks (Alphabet.decode (Header.ofBytes header).symbolCount.toNat)
      (some (symbolOrTable header 0)) fun _ item => item = some (.indexTable header) := by
  refine .bind (tracks_decodeTexts #[] ?_) fun _ _ hitem => .pure hitem
  exact (Nat.zero_add _).trans (Header.toNat_symbolCount header)

theorem tracks_index (header : List UInt8) :
    Tracks (IndexTable.decode (Header.ofBytes header).indexTableSize.toNat)
      (some (.indexTable header)) fun _ item => item = some (.transitionTable header) := by
  refine .bind (tracks_take ?_ (lacks_blockError trivial)) fun _ _ hitem => .pure hitem.2
  rw [Item.size?, ← Header.toNat_indexTableSize]
  rfl

theorem tracks_transitions (header : List UInt8) :
    Tracks (TransitionTable.decode (Header.ofBytes header).transitionTableSize.toNat
      (Header.ofBytes header).weighted) (some (.transitionTable header))
      fun _ item => item = none := by
  refine .bind (tracks_take ?_ (lacks_blockError trivial)) fun _ _ hitem => .pure hitem.2
  have hsize : TransitionTable.cellSize (Header.ofBytes header).weighted =
      if Record.field header 20 4 = 0 then 8 else 12 := by
    rw [TransitionTable.cellSize, Header.weighted_eq]
    by_cases h : Record.field header 20 4 = 0 <;> simp [h]
  rw [Item.size?, ← hsize, ← Header.toNat_transitionTableSize]

theorem tracks_decode : Tracks Transducer.decode (some .opening) fun _ item => item = none := by
  refine .bind tracks_header fun header item hitem => ?_
  obtain ⟨bytes, preamble, rfl, rfl⟩ := hitem
  refine .bind (tracks_alphabet bytes) fun alphabet item hitem => ?_
  subst hitem
  refine .bind (tracks_index bytes) fun index item hitem => ?_
  subst hitem
  exact .bind (tracks_transitions bytes) fun transitions item hitem => .pure hitem

/-- Loading a stream, faulty or not, fails if and only if it reaches an item that cannot be
passed, with the error of that item, and there is at most one such item. It succeeds if and only
if all items can be passed, whatever comes behind them. -/
theorem Transducer.load_iff_reached (s : Stream) :
    (∀ e, load s = .error e ↔
      ∃ item rest, Item.Reached s.pending (some item) rest ∧ item.Fails rest s.ending e) ∧
    (∀ item item' rest rest' e e', Item.Reached s.pending (some item) rest →
      item.Fails rest s.ending e → Item.Reached s.pending (some item') rest' →
      item'.Fails rest' s.ending e' → item = item' ∧ rest = rest' ∧ e = e') ∧
    ((∃ t, load s = .ok t) ↔ ∃ rest, Item.Reached s.pending none rest) := by
  have hone : ∀ item item' rest rest' e e', Item.Reached s.pending (some item) rest →
      item.Fails rest s.ending e → Item.Reached s.pending (some item') rest' →
      item'.Fails rest' s.ending e' → item = item' ∧ rest = rest' ∧ e = e' :=
    fun _ _ _ _ _ _ h hfails h' hfails' => hfails.unique_of_reached hfails' h h'
  have htracked := tracks_decode s
  generalize hdecode : decode s = r at htracked
  cases htracked with
  | @passed t item rest hafter hsteps =>
    subst hafter
    rw [load_of_decode_eq_ok hdecode]
    refine ⟨fun e => ⟨fun h => ?_, ?_⟩, hone, ⟨fun _ => ⟨rest, hsteps⟩, fun _ => ⟨t, rfl⟩⟩⟩
    · cases h
    · rintro ⟨item, rest', hreached, hfails⟩
      exact (hfails.not_reached_none hreached hsteps).elim
  | @failed e s' item rest hsteps hfails =>
    rw [load_of_decode_eq_error hdecode]
    refine ⟨fun e' => ⟨fun h => ?_, ?_⟩, hone, ⟨fun h => ?_, ?_⟩⟩
    · obtain rfl := Except.error.inj h
      exact ⟨item, rest, hsteps, hfails⟩
    · rintro ⟨item', rest', hreached, hfails'⟩
      obtain ⟨-, -, rfl⟩ := hfails.unique_of_reached hfails' hsteps hreached
      rfl
    · obtain ⟨t, ht⟩ := h
      cases ht
    · rintro ⟨rest', hend⟩
      exact (hfails.not_reached_none hsteps hend).elim

end TransducerLookup
