import Mathlib.Data.List.Basic
import TransducerLookup.Proofs.Loading.Alphabet
import TransducerLookup.Proofs.Loading.Reads
import TransducerLookup.Transducer

/-!
# Images of transducer files

An `Image` is a file taken apart: the body of the preamble, the header proper,
the texts of the symbols and the two tables. `Image.bytes` puts the parts
together again. Decoding reads the bytes of well-formed images and nothing else
(`reads_decode`), a file has at most one image in front (`bytes_append_inj`),
and the transducer holds the numbers that the image spells (`Image.Holds`).
-/

namespace TransducerLookup

/-- A number in two bytes, least significant byte first. -/
def bytes16 (n : Nat) : List UInt8 := [UInt8.ofNat n, UInt8.ofNat (n / 256)]

theorem littleEndian_bytes16 {n : Nat} (h : n < 65536) : littleEndian (bytes16 n) = n := by
  have hlow : (UInt8.ofNat n).toNat = n % 256 := UInt8.toNat_ofNat'
  have hhigh : (UInt8.ofNat (n / 256)).toNat = n / 256 % 256 := UInt8.toNat_ofNat'
  show (UInt8.ofNat n).toNat + 256 * ((UInt8.ofNat (n / 256)).toNat + 256 * 0) = n
  omega

/-- A number in `width` bytes, least significant byte first. -/
def numberBytes : Nat → Nat → List UInt8
  | 0, _ => []
  | width + 1, n => UInt8.ofNat n :: numberBytes width (n / 256)

theorem numberBytes_littleEndian (bytes : List UInt8) :
    numberBytes bytes.length (littleEndian bytes) = bytes := by
  induction bytes with
  | nil => rfl
  | cons b bytes ih =>
    have hb := b.toNat_lt
    have hfirst : UInt8.ofNat (littleEndian (b :: bytes)) = b := by
      rw [← UInt8.toNat_inj, UInt8.toNat_ofNat', littleEndian_cons]
      omega
    have hrest : littleEndian (b :: bytes) / 256 = littleEndian bytes := by
      rw [littleEndian_cons]
      omega
    rw [List.length_cons, numberBytes, hfirst, hrest, ih]

theorem bytes16_littleEndian {bytes : List UInt8} (h : bytes.length = 2) :
    bytes16 (littleEndian bytes) = bytes := by
  have hbytes := numberBytes_littleEndian bytes
  rw [h] at hbytes
  exact hbytes

structure Image where
  /-- The body of the preamble, if the file has one. -/
  preamble : Option (List UInt8)
  header : List UInt8
  texts : List String
  index : List UInt8
  transitions : List UInt8
  deriving DecidableEq, Repr

namespace Image

/-- The length that a preamble states is one less than that of its body. -/
def preambleBytes : Option (List UInt8) → List UInt8
  | none => []
  | some body => Header.magic ++ bytes16 (body.length - 1) ++ body

def textBytes (text : String) : List UInt8 := Utf8.encode text ++ [0]

def pairBytes (pair : String × String) : List UInt8 := textBytes pair.1 ++ textBytes pair.2

def bytes (i : Image) : List UInt8 :=
  preambleBytes i.preamble ++ i.header ++ i.texts.flatMap textBytes ++ i.index ++ i.transitions

def number (i : Image) (offset width : Nat) : Nat := Record.field i.header offset width

def truth (i : Image) (n : Nat) : Bool := i.number (20 + 4 * n) 4 ≠ 0

def transitionSize (i : Image) : Nat := if i.truth 0 then 12 else 8

/-- The parts in front of the texts are what they are taken for. -/
structure Opens (preamble : Option (List UInt8)) (header : List UInt8) : Prop where
  size : header.length = 56
  /-- A file without preamble starts with the header proper. -/
  not_magic : preamble = none → ¬ Header.magic <+: header
  body : ∀ body, preamble = some body → 0 < body.length ∧ body.length ≤ 65536

structure WellFormed (i : Image) : Prop where
  opens : Opens i.preamble i.header
  texts : i.texts.length = i.number 2 2
  texts_zero : ∀ text ∈ i.texts, 0 ∉ Utf8.encode text
  index : i.index.length = i.number 4 4 * 6
  transitions : i.transitions.length = i.number 8 4 * i.transitionSize

def headerOf (preamble : Option (List UInt8)) (proper : List UInt8) : Header :=
  { Header.ofBytes proper with
    preamble := preamble.map fun body => Properties.ofBytes body.tail }

def transducer (i : Image) : Transducer :=
  let header := headerOf i.preamble i.header
  { header
    alphabet := .ofTexts i.texts.toArray
    index := .ofBytes header.indexTableSize.toNat i.index
    transitions := .ofBytes header.weighted header.transitionTableSize.toNat i.transitions }

/-- A number of a cell of the index table; past the end of the table, `absent`. -/
def indexNumber (i : Image) (pos offset width absent : Nat) : Nat :=
  if pos < i.number 4 4 then Record.field i.index (pos * 6 + offset) width else absent

def transitionNumber (i : Image) (pos offset width absent : Nat) : Nat :=
  if pos < i.number 8 4 then Record.field i.transitions (pos * i.transitionSize + offset) width
  else absent

/-- The transducer has the values that the image spells, and an alphabet of its texts. -/
structure Holds (i : Image) (t : Transducer) : Prop where
  counts : [t.header.inputSymbolCount.toNat, t.header.symbolCount.toNat,
      t.header.indexTableSize.toNat, t.header.transitionTableSize.toNat,
      t.header.stateCount.toNat, t.header.transitionCount.toNat] =
    [i.number 0 2, i.number 2 2, i.number 4 4, i.number 8 4, i.number 12 4, i.number 16 4]
  truths : [t.header.weighted, t.header.deterministic, t.header.inputDeterministic,
      t.header.minimized, t.header.cyclic, t.header.hasEpsilonEpsilonTransitions,
      t.header.hasInputEpsilonTransitions, t.header.hasInputEpsilonCycles,
      t.header.hasUnweightedInputEpsilonCycles] = (List.range 9).map i.truth
  hasPreamble : t.header.hasPreamble = i.preamble.isSome
  noProperties : i.preamble = none → t.header.properties = []
  properties : ∀ first pairs, i.preamble = some (first :: pairs.flatMap pairBytes) →
    (∀ pair ∈ pairs, pair.1 ≠ "" ∧ 0 ∉ Utf8.encode pair.1 ∧ 0 ∉ Utf8.encode pair.2) →
    t.header.properties = pairs
  alphabet : t.alphabet = .ofTexts i.texts.toArray
  texts : t.alphabet.texts =
    (i.texts.map fun text => if Flag.isShaped text.toList then "" else text).set 0 ""
  sizes : t.index.size = i.number 4 4 ∧ t.transitions.size = i.number 8 4
  indexInput : ∀ pos, (t.index.input pos).toNat = i.indexNumber pos 0 2 0xFFFF
  indexTarget : ∀ pos, (t.index.target pos).toNat = i.indexNumber pos 2 4 0xFFFFFFFF
  finalWeight : ∀ pos, (t.index.finalWeight pos).bits.toNat = i.indexNumber pos 2 4 0xFFFFFFFF
  input : ∀ pos, (t.transitions.input pos).toNat = i.transitionNumber pos 0 2 0xFFFF
  output : ∀ pos, (t.transitions.output pos).toNat = i.transitionNumber pos 2 2 0xFFFF
  target : ∀ pos, (t.transitions.target pos).toNat = i.transitionNumber pos 4 4 0xFFFFFFFF
  weight : ∀ pos, (t.transitions.weight pos).bits.toNat =
    if i.truth 0 then i.transitionNumber pos 8 4 0 else 0
  limits : t.limits = {}

/-- The sizes in the header that decoding reads are the numbers of the image. -/
theorem wellFormed_iff (i : Image) :
    i.WellFormed ↔ Opens i.preamble i.header ∧
      i.texts.length = (Header.ofBytes i.header).symbolCount.toNat ∧
      (∀ text ∈ i.texts, 0 ∉ Utf8.encode text) ∧
      i.index.length = (Header.ofBytes i.header).indexTableSize.toNat * 6 ∧
      i.transitions.length = (Header.ofBytes i.header).transitionTableSize.toNat *
        if (Header.ofBytes i.header).weighted then 12 else 8 := by
  rw [Header.toNat_symbolCount, Header.toNat_indexTableSize, Header.toNat_transitionTableSize,
    Header.weighted_eq]
  constructor
  · rintro ⟨hopens, htexts, hzero, hindex, htransitions⟩
    exact ⟨hopens, htexts, hzero, hindex, htransitions⟩
  · rintro ⟨hopens, htexts, hzero, hindex, htransitions⟩
    exact ⟨hopens, htexts, hzero, hindex, htransitions⟩

end Image

open Decoder (Reads reads_pure reads_throw reads_take reads_untilNul)
open Image (preambleBytes textBytes headerOf Opens)

/-! ## Decoding reads images -/

theorem reads_decodePreamble :
    Reads Header.decodePreamble fun bytes properties => ∃ body,
      (0 < body.length ∧ body.length ≤ 65536) ∧ bytes = bytes16 (body.length - 1) ++ body ∧
        Properties.ofBytes body.tail = properties := by
  have hlength : Reads (Decoder.word16 .preamble) fun bytes n =>
      bytes.length = 2 ∧ littleEndian bytes = n.toNat := by
    refine (Reads.map_take 2 _ fun bytes => (littleEndian bytes).toUInt16).congr fun bytes n => ?_
    constructor
    · rintro ⟨hlen, rfl⟩
      exact ⟨hlen, (toNat_littleEndian16 hlen).symm⟩
    · rintro ⟨hlen, hn⟩
      refine ⟨hlen, ?_⟩
      rw [hn]
      exact UInt16.ofNat_toNat
  refine (hlength.bind fun _ n _ => Reads.map_take (n.toNat + 1) _ _).congr
    fun bytes properties => ?_
  constructor
  · rintro ⟨n, front, body, ⟨hfront, hn⟩, ⟨hbody, rfl⟩, rfl⟩
    have hlt := n.toNat_lt
    refine ⟨body, ⟨by omega, by omega⟩, ?_, rfl⟩
    rw [hbody, Nat.add_sub_cancel, ← hn, bytes16_littleEndian hfront]
  · rintro ⟨body, hbody, rfl, rfl⟩
    have hlt : body.length - 1 < 65536 := by omega
    refine ⟨UInt16.ofNat (body.length - 1), _, body, ⟨rfl, ?_⟩, ⟨?_, rfl⟩, rfl⟩
    · rw [littleEndian_bytes16 hlt, UInt16.toNat_ofNat_of_lt' hlt]
    · rw [UInt16.toNat_ofNat_of_lt' hlt]
      omega

theorem reads_decodeRest {head : List UInt8} (hhead : head.length = 5) :
    Reads (Header.decodeRest head) fun bytes header =>
      (head ++ bytes).length = 56 ∧ Header.ofBytes (head ++ bytes) = header := by
  have hsize : Header.size = 56 := rfl
  refine (Reads.map_take _ _ fun rest => Header.ofBytes (head ++ rest)).congr fun bytes header => ?_
  rw [List.length_append, hhead]
  exact and_congr_left' (by omega)

theorem reads_reopened (properties : Properties) :
    Reads (do
      let header ← Header.decodeRest (← Decoder.fixed 5 .header)
      return { header with preamble := some properties }) fun bytes header =>
        bytes.length = 56 ∧
          { Header.ofBytes bytes with preamble := some properties } = header := by
  refine Reads.take_bind (fun bytes header h => by omega) fun head hhead => ?_
  refine ((reads_decodeRest hhead).map _).congr fun bytes header => ?_
  constructor
  · rintro ⟨_, ⟨hlen, rfl⟩, hheader⟩
    exact ⟨hlen, hheader⟩
  · rintro ⟨hlen, hheader⟩
    exact ⟨_, ⟨hlen, rfl⟩, hheader⟩

theorem reads_opened {head : List UInt8} (hhead : head.length = 5) :
    Reads (if head = Header.magic then do
        let properties ← Header.decodePreamble
        let header ← Header.decodeRest (← Decoder.fixed 5 .header)
        return { header with preamble := some properties }
      else Header.decodeRest head) fun bytes header => ∃ preamble proper,
        Opens preamble proper ∧ head ++ bytes = preambleBytes preamble ++ proper ∧
          headerOf preamble proper = header := by
  by_cases hmagic : head = Header.magic
  · rw [if_pos hmagic]
    subst hmagic
    refine (reads_decodePreamble.bind fun _ properties _ => reads_reopened properties).congr
      fun bytes header => ?_
    constructor
    · rintro ⟨_, _, proper, ⟨body, hbody, rfl, rfl⟩, ⟨hsize, rfl⟩, rfl⟩
      refine ⟨some body, proper, ⟨hsize, nofun, ?_⟩, ?_, rfl⟩
      · rintro _ ⟨⟩
        exact hbody
      · simp only [preambleBytes, List.append_assoc]
    · rintro ⟨preamble, proper, ⟨hsize, hnone, hbody⟩, hbytes, rfl⟩
      cases preamble with
      | none => exact (hnone rfl ⟨bytes, hbytes⟩).elim
      | some body =>
        refine ⟨_, _, proper, ⟨body, hbody body rfl, rfl, rfl⟩, ⟨hsize, rfl⟩, ?_⟩
        simp only [preambleBytes, List.append_assoc] at hbytes ⊢
        exact List.append_cancel_left hbytes
  · rw [if_neg hmagic]
    refine (reads_decodeRest hhead).congr fun bytes header => ?_
    constructor
    · rintro ⟨hsize, rfl⟩
      refine ⟨none, head ++ bytes, ⟨hsize, fun _ hstart => hmagic ?_, nofun⟩, rfl, rfl⟩
      obtain ⟨rest, hrest⟩ := hstart
      exact (List.append_inj hrest hhead.symm).1.symm
    · rintro ⟨preamble, proper, ⟨hsize, -, -⟩, hbytes, rfl⟩
      cases preamble with
      | none =>
        obtain rfl : head ++ bytes = proper := hbytes
        exact ⟨hsize, rfl⟩
      | some body =>
        simp only [preambleBytes, List.append_assoc] at hbytes
        exact (hmagic (List.append_inj hbytes hhead).1).elim

theorem reads_header :
    Reads Header.decode fun bytes header => ∃ preamble proper, Opens preamble proper ∧
      bytes = preambleBytes preamble ++ proper ∧ headerOf preamble proper = header := by
  refine Reads.take_bind (fun bytes header => ?_) fun head hhead => reads_opened hhead
  rintro ⟨preamble, proper, hopens, rfl, -⟩
  have hsize := hopens.size
  rw [List.length_append]
  omega

theorem reads_elim {α : Type} (front : List UInt8) (e : LoadError) {f : String → Decoder α}
    {spells : String → List UInt8 → α → Prop} (h : ∀ text, Reads (f text) (spells text)) :
    Reads ((Utf8.decode? front).elim (throw e) f) fun bytes a =>
      ∃ text, front = Utf8.encode text ∧ spells text bytes a := by
  cases htext : Utf8.decode? front with
  | some text =>
    refine (h text).congr fun bytes a => ⟨fun ha => ?_, ?_⟩
    · exact ⟨text, Utf8.decode?_eq_some_iff.1 htext, ha⟩
    · rintro ⟨text', rfl, ha⟩
      rw [Utf8.decode?_encode] at htext
      obtain rfl := Option.some.inj htext
      exact ha
  | none =>
    refine (reads_throw e).congr fun bytes a => ⟨False.elim, ?_⟩
    rintro ⟨text, rfl, -⟩
    rw [Utf8.decode?_encode] at htext
    cases htext

theorem reads_decodeTexts (count : Nat) (texts : Array String) :
    Reads (Alphabet.decodeTexts count texts) fun bytes texts' => ∃ more : List String,
      more.length = count ∧ (∀ text ∈ more, 0 ∉ Utf8.encode text) ∧
        bytes = more.flatMap textBytes ∧ texts ++ more.toArray = texts' := by
  induction count generalizing texts with
  | zero =>
    refine (reads_pure texts).congr fun bytes texts' => ?_
    constructor
    · rintro ⟨rfl, rfl⟩
      exact ⟨[], rfl, nofun, rfl, Array.append_empty⟩
    · rintro ⟨more, hlen, -, rfl, rfl⟩
      obtain rfl := List.eq_nil_of_length_eq_zero hlen
      exact ⟨rfl, Array.append_empty.symm⟩
  | succ count ih =>
    rw [Alphabet.decodeTexts_succ]
    refine ((reads_untilNul .alphabet).bind fun _ front _ =>
      reads_elim front _ fun text => ih (texts.push text)).congr fun bytes texts' => ?_
    constructor
    · rintro ⟨_, _, _, ⟨hzero, rfl⟩, ⟨text, rfl, more, hlen, hmore, rfl, rfl⟩, rfl⟩
      refine ⟨text :: more, by rw [List.length_cons, hlen], ?_, rfl, ?_⟩
      · rw [List.forall_mem_cons]
        exact ⟨hzero, hmore⟩
      · rw [Array.push_eq_append, Array.append_assoc, ← List.toArray_cons]
    · rintro ⟨more, hlen, hmore, rfl, rfl⟩
      obtain ⟨text, more, rfl⟩ := List.exists_cons_of_length_eq_add_one hlen
      rw [List.forall_mem_cons] at hmore
      refine ⟨Utf8.encode text, textBytes text, more.flatMap textBytes, ⟨hmore.1, rfl⟩,
        ⟨text, rfl, more, Nat.succ.inj hlen, hmore.2, rfl, ?_⟩, rfl⟩
      rw [Array.push_eq_append, Array.append_assoc, ← List.toArray_cons]

theorem reads_alphabet (count : Nat) :
    Reads (Alphabet.decode count) fun bytes alphabet => ∃ texts : List String,
      texts.length = count ∧ (∀ text ∈ texts, 0 ∉ Utf8.encode text) ∧
        bytes = texts.flatMap textBytes ∧ .ofTexts texts.toArray = alphabet := by
  refine ((reads_decodeTexts count #[]).map Alphabet.ofTexts).congr fun bytes alphabet => ?_
  constructor
  · rintro ⟨_, ⟨texts, hlen, htexts, rfl, rfl⟩, rfl⟩
    exact ⟨texts, hlen, htexts, rfl, by rw [Array.empty_append]⟩
  · rintro ⟨texts, hlen, htexts, rfl, rfl⟩
    exact ⟨_, ⟨texts, hlen, htexts, rfl, rfl⟩, by rw [Array.empty_append]⟩

theorem reads_index (count : Nat) :
    Reads (IndexTable.decode count) fun bytes index =>
      bytes.length = count * 6 ∧ .ofBytes count bytes = index :=
  Reads.map_take (count * 6) _ (IndexTable.ofBytes count)

theorem reads_transitions (count : Nat) (weighted : Bool) :
    Reads (TransitionTable.decode count weighted) fun bytes transitions =>
      bytes.length = count * (if weighted then 12 else 8) ∧
        .ofBytes weighted count bytes = transitions :=
  Reads.map_take (count * if weighted then 12 else 8) _ (TransitionTable.ofBytes weighted count)

theorem reads_decode :
    Reads Transducer.decode fun bytes t =>
      ∃ i : Image, i.WellFormed ∧ bytes = i.bytes ∧ i.transducer = t := by
  refine (reads_header.bind fun _ header _ => (reads_alphabet header.symbolCount.toNat).bind
    fun _ alphabet _ => (reads_index header.indexTableSize.toNat).bind fun _ index _ =>
      (reads_transitions header.transitionTableSize.toNat header.weighted).map _).congr
        fun bytes t => ?_
  constructor
  · rintro ⟨_, _, _, ⟨preamble, header, hopens, rfl, rfl⟩, ⟨_, _, _,
      ⟨texts, hlen, htexts, rfl, rfl⟩, ⟨_, index, transitions, ⟨hindex, rfl⟩,
      ⟨_, ⟨htransitions, rfl⟩, rfl⟩, rfl⟩, rfl⟩, rfl⟩
    refine ⟨⟨preamble, header, texts, index, transitions⟩, (Image.wellFormed_iff _).2
      ⟨hopens, hlen, htexts, hindex, htransitions⟩, ?_, rfl⟩
    simp only [Image.bytes, List.append_assoc]
  · rintro ⟨i, hi, rfl, rfl⟩
    obtain ⟨hopens, hlen, htexts, hindex, htransitions⟩ := (Image.wellFormed_iff i).1 hi
    refine ⟨_, _, _, ⟨i.preamble, i.header, hopens, rfl, rfl⟩, ⟨_, _, _,
      ⟨i.texts, hlen, htexts, rfl, rfl⟩, ⟨_, i.index, i.transitions, ⟨hindex, rfl⟩,
      ⟨_, ⟨htransitions, rfl⟩, rfl⟩, rfl⟩, rfl⟩, ?_⟩
    simp only [Image.bytes, List.append_assoc]

/-! ## A file has one image -/

namespace Image

theorem Opens.ne_magic_append {header rest rest' : List UInt8} (h : Opens none header) :
    header ++ rest ≠ Header.magic ++ rest' := by
  intro heq
  refine h.not_magic rfl (List.prefix_of_prefix_length_le (List.prefix_append _ rest')
    (heq ▸ List.prefix_append header rest) ?_)
  rw [h.size]
  decide

theorem preambleBytes_append_inj {preamble preamble' : Option (List UInt8)}
    {header header' rest rest' : List UInt8} (h : Opens preamble header)
    (h' : Opens preamble' header') (heq : preambleBytes preamble ++ (header ++ rest) =
      preambleBytes preamble' ++ (header' ++ rest')) :
    preamble = preamble' ∧ header = header' ∧ rest = rest' := by
  have hsize : header.length = header'.length := h.size.trans h'.size.symm
  cases preamble with
  | none =>
    cases preamble' with
    | none => exact ⟨rfl, List.append_inj heq hsize⟩
    | some body' =>
      rw [preambleBytes, preambleBytes, List.append_assoc, List.append_assoc] at heq
      exact (h.ne_magic_append heq).elim
  | some body =>
    cases preamble' with
    | none =>
      rw [preambleBytes, preambleBytes, List.append_assoc, List.append_assoc] at heq
      exact (h'.ne_magic_append heq.symm).elim
    | some body' =>
      simp only [preambleBytes, List.append_assoc] at heq
      -- The stated lengths agree, so the bodies end at the same place.
      obtain ⟨hlength, hbodies⟩ := List.append_inj (List.append_cancel_left heq) rfl
      have hbody := h.body body rfl
      have hbody' := h'.body body' rfl
      have hnumber := congrArg littleEndian hlength
      rw [littleEndian_bytes16 (by omega), littleEndian_bytes16 (by omega)] at hnumber
      obtain ⟨rfl, hheaders⟩ := List.append_inj hbodies (by omega)
      exact ⟨rfl, List.append_inj hheaders hsize⟩

/-- A file has one image in front. -/
theorem bytes_append_inj {i i' : Image} {rest rest' : List UInt8} (h : i.WellFormed)
    (h' : i'.WellFormed) (heq : i.bytes ++ rest = i'.bytes ++ rest') : i = i' ∧ rest = rest' := by
  obtain ⟨preamble, header, texts, index, transitions⟩ := i
  obtain ⟨preamble', header', texts', index', transitions'⟩ := i'
  simp only [bytes, List.append_assoc] at heq
  obtain ⟨rfl, rfl, hrest⟩ := preambleBytes_append_inj h.opens h'.opens heq
  -- The headers agree, and with them the sizes of all that follows.
  have htexts : texts'.length = texts.length := h'.texts.trans h.texts.symm
  obtain ⟨harray, -, htables⟩ := (reads_decodeTexts texts.length #[]).unique
    ⟨texts, rfl, h.texts_zero, rfl, rfl⟩ ⟨texts', htexts, h'.texts_zero, rfl, rfl⟩ hrest
  rw [Array.empty_append, Array.empty_append] at harray
  obtain rfl := List.toArray_inj harray
  obtain ⟨rfl, htransitions⟩ := List.append_inj htables (h.index.trans h'.index.symm)
  obtain ⟨rfl, hend⟩ := List.append_inj htransitions (h.transitions.trans h'.transitions.symm)
  exact ⟨rfl, hend⟩

/-! ## What the transducer holds -/

theorem splitOn_textBytes_append {text : String} (h : 0 ∉ Utf8.encode text) (rest : List UInt8) :
    (textBytes text ++ rest).splitOn 0 = Utf8.encode text :: rest.splitOn 0 := by
  rw [textBytes, ← List.append_cons, List.splitOn_append_cons_self_of_not_mem h]

/-- Pairs written one after the other are read back, whatever follows them. -/
theorem ofBytes_flatMap_pairBytes_append {pairs : Properties} (h : ∀ pair ∈ pairs,
    pair.1 ≠ "" ∧ 0 ∉ Utf8.encode pair.1 ∧ 0 ∉ Utf8.encode pair.2) (rest : List UInt8) :
    Properties.ofBytes (pairs.flatMap pairBytes ++ rest) = pairs ++ Properties.ofBytes rest := by
  induction pairs with
  | nil => rfl
  | cons pair pairs ih =>
    rw [List.forall_mem_cons] at h
    obtain ⟨⟨hkey, hkey0, hvalue0⟩, hpairs⟩ := h
    have hfields : ((pair :: pairs).flatMap pairBytes ++ rest).splitOn 0 =
        Utf8.encode pair.1 :: Utf8.encode pair.2 ::
          (pairs.flatMap pairBytes ++ rest).splitOn 0 := by
      rw [List.flatMap_cons, pairBytes, List.append_assoc, List.append_assoc,
        splitOn_textBytes_append hkey0, splitOn_textBytes_append hvalue0]
    rw [Properties.ofBytes, hfields, List.map_cons, List.map_cons, Utf8.decodeLossy_encode,
      Utf8.decodeLossy_encode, Properties.ofFields, if_neg hkey]
    exact congrArg (pair :: ·) (ih hpairs)

theorem ofBytes_flatMap_pairBytes {pairs : Properties} (h : ∀ pair ∈ pairs,
    pair.1 ≠ "" ∧ 0 ∉ Utf8.encode pair.1 ∧ 0 ∉ Utf8.encode pair.2) :
    Properties.ofBytes (pairs.flatMap pairBytes) = pairs := by
  have hread := ofBytes_flatMap_pairBytes_append h []
  rw [List.append_nil] at hread
  exact hread.trans (List.append_nil pairs)

variable (i : Image)

theorem index_transducer_cell (pos : Nat) : i.transducer.index.cell pos =
    if pos < i.number 4 4 then .ofBytes ((i.index.drop (pos * 6)).take 6) else .absent := by
  have hcount : i.transducer.header.indexTableSize.toNat = i.number 4 4 :=
    Header.toNat_indexTableSize i.header
  rw [← hcount]
  exact Record.getD_collect 6 IndexCell.ofBytes _ i.index pos .absent

theorem transitions_transducer_cell (pos : Nat) : i.transducer.transitions.cell pos =
    if pos < i.number 8 4 then
      .ofBytes (i.truth 0) ((i.transitions.drop (pos * i.transitionSize)).take i.transitionSize)
    else .absent := by
  have hcount : i.transducer.header.transitionTableSize.toNat = i.number 8 4 :=
    Header.toNat_transitionTableSize i.header
  have hweighted : i.transducer.header.weighted = i.truth 0 := Header.weighted_eq i.header
  rw [← hcount, transitionSize, ← hweighted]
  exact Record.getD_collect _ (TransitionCell.ofBytes _) _ i.transitions pos .absent

/-- A value of a cell is the number that the file has there, or the value of absent cells. -/
theorem value_index_cell (pos offset width : Nat) (value : IndexCell → Nat)
    (hwidth : offset + width ≤ 6)
    (hvalue : ∀ record, value (.ofBytes record) = Record.field record offset width) :
    value (i.transducer.index.cell pos) = i.indexNumber pos offset width (value .absent) := by
  rw [index_transducer_cell, indexNumber]
  split
  · rw [hvalue, Record.field_take_drop hwidth]
  · rfl

theorem value_transitions_cell (pos offset width : Nat) (value : TransitionCell → Nat)
    (hwidth : offset + width ≤ i.transitionSize)
    (hvalue : ∀ record, value (.ofBytes (i.truth 0) record) = Record.field record offset width) :
    value (i.transducer.transitions.cell pos) =
      i.transitionNumber pos offset width (value .absent) := by
  rw [transitions_transducer_cell, transitionNumber]
  split
  · rw [hvalue, Record.field_take_drop hwidth]
  · rfl

theorem le_transitionSize : 8 ≤ i.transitionSize := by
  unfold transitionSize
  split <;> decide

theorem toNat_weight (pos : Nat) : (i.transducer.transitions.weight pos).bits.toNat =
    if i.truth 0 then i.transitionNumber pos 8 4 0 else 0 := by
  by_cases h : i.truth 0 = true
  · have hsize : i.transitionSize = 12 := if_pos h
    rw [if_pos h]
    refine i.value_transitions_cell pos 8 4 (fun cell => cell.weight.bits.toNat) (by omega)
      fun record => ?_
    rw [TransitionCell.ofBytes, if_pos h, Record.toNat_field32]
  · rw [if_neg h, TransitionTable.weight, transitions_transducer_cell]
    split
    · rw [TransitionCell.ofBytes, if_neg h]
      rfl
    · rfl

theorem holds_transducer : i.Holds i.transducer := by
  have h16 (offset : Nat) : (Record.field16 i.header offset).toNat = i.number offset 2 :=
    Record.toNat_field16 i.header offset
  have h32 (offset : Nat) : (Record.field32 i.header offset).toNat = i.number offset 4 :=
    Record.toNat_field32 i.header offset
  have hflag (n : Nat) : Record.flag i.header (20 + 4 * n) = i.truth n :=
    Record.flag_eq i.header (20 + 4 * n)
  have hwide := i.le_transitionSize
  refine {
    counts := ?_
    truths := ?_
    hasPreamble := Option.isSome_map
    noProperties := fun h => ?_
    properties := fun first pairs h hpairs => ?_
    alphabet := rfl
    texts := Alphabet.texts_ofTexts i.texts
    sizes := ⟨?_, ?_⟩
    indexInput := fun pos => i.value_index_cell pos 0 2 (fun cell => cell.input.toNat)
      (by decide) fun _ => Record.toNat_field16 _ _
    indexTarget := fun pos => i.value_index_cell pos 2 4 (fun cell => cell.target.toNat)
      (by decide) fun _ => Record.toNat_field32 _ _
    finalWeight := fun pos => i.value_index_cell pos 2 4 (fun cell => cell.target.toNat)
      (by decide) fun _ => Record.toNat_field32 _ _
    input := fun pos => i.value_transitions_cell pos 0 2 (fun cell => cell.input.toNat)
      (by omega) fun _ => Record.toNat_field16 _ _
    output := fun pos => i.value_transitions_cell pos 2 2 (fun cell => cell.output.toNat)
      (by omega) fun _ => Record.toNat_field16 _ _
    target := fun pos => i.value_transitions_cell pos 4 4 (fun cell => cell.target.toNat)
      (by omega) fun _ => Record.toNat_field32 _ _
    weight := i.toNat_weight
    limits := rfl }
  · show [(Record.field16 i.header 0).toNat, (Record.field16 i.header 2).toNat,
      (Record.field32 i.header 4).toNat, (Record.field32 i.header 8).toNat,
      (Record.field32 i.header 12).toNat, (Record.field32 i.header 16).toNat] = _
    simp only [h16, h32]
  · show (List.range 9).map (fun n => Record.flag i.header (20 + 4 * n)) = _
    simp only [hflag]
  · rw [Header.properties, transducer, h]
    rfl
  · rw [Header.properties, transducer, h]
    exact ofBytes_flatMap_pairBytes hpairs
  · exact (Record.size_collect _ _ _ _).trans (Header.toNat_indexTableSize i.header)
  · exact (Record.size_collect _ _ _ _).trans (Header.toNat_transitionTableSize i.header)

end Image

namespace Transducer

theorem ofBytes_image {i : Image} (h : i.WellFormed) (rest : List UInt8) :
    ofBytes (i.bytes ++ rest) = .ok i.transducer :=
  load_eq_ok_iff.2 ⟨.ofBytes rest, (reads_decode _ _ _).2 ⟨i.bytes, ⟨i, h, rfl, rfl⟩, rfl⟩⟩

/-- Loading accepts the files that have a well-formed image in front, whatever follows it. The
image is unique, and the transducer, which is the same for all that may follow, holds what the
image spells. -/
theorem ofBytes_iff_image (file : List UInt8) :
    ((∃ t, ofBytes file = .ok t) ↔
      ∃ (i : Image) (rest : List UInt8), i.WellFormed ∧ i.bytes ++ rest = file) ∧
    ∀ (i : Image) (rest : List UInt8), i.WellFormed → i.bytes ++ rest = file →
      (∀ (i' : Image) (rest' : List UInt8), i'.WellFormed → i'.bytes ++ rest' = file →
        i' = i ∧ rest' = rest) ∧
      ∃ t, i.Holds t ∧ ∀ rest', ofBytes (i.bytes ++ rest') = .ok t := by
  refine ⟨⟨fun h => ?_, fun h => ?_⟩, fun i rest h hfile => ⟨fun i' rest' h' hfile' => ?_,
    i.transducer, i.holds_transducer, ofBytes_image h⟩⟩
  · obtain ⟨t, ht⟩ := h
    obtain ⟨s, hdecode⟩ := load_eq_ok_iff.1 ht
    obtain ⟨_, ⟨i, hi, rfl, -⟩, hs⟩ := (reads_decode _ _ _).1 hdecode
    exact ⟨i, s.pending, hi, (congrArg Stream.pending hs).symm⟩
  · obtain ⟨i, rest, hi, rfl⟩ := h
    exact ⟨i.transducer, ofBytes_image hi rest⟩
  · exact Image.bytes_append_inj h' h (hfile'.trans hfile.symm)

end Transducer

/-- A weighted transducer with a property, one symbol, and one cell in each table. -/
def Image.small : Image where
  preamble := some (0 :: Image.pairBytes ("type", "lookup"))
  header := [1, 0, 1, 0, 1, 0, 0, 0, 1, 0, 0, 0] ++ List.replicate 8 0 ++ [0, 0, 1] ++
    List.replicate 33 0
  texts := ["@0@"]
  index := [255, 255, 0, 0, 0, 63]
  transitions := [255, 255, 255, 255, 1, 0, 0, 0, 0, 0, 128, 63]

theorem Transducer.ofBytes_iff_image_small :
    Image.small.WellFormed ∧ ∃ t, ofBytes (Image.small.bytes ++ [1, 2]) = .ok t ∧
      t.header.properties = [("type", "lookup")] ∧ t.header.weighted = true ∧
      (t.transitions.weight 0).bits.toNat = 0x3F800000 ∧
      (t.transitions.weight 1).bits.toNat = 0 := by
  have hsmall : Image.small.WellFormed := by
    refine ⟨⟨by decide, nofun, ?_⟩, by decide, by decide +kernel, by decide, by decide⟩
    rintro _ ⟨⟩
    decide +kernel
  obtain ⟨-, himage⟩ := ofBytes_iff_image Image.small.bytes
  obtain ⟨-, t, ht, hload⟩ := himage Image.small [] hsmall (List.append_nil _)
  refine ⟨hsmall, t, hload [1, 2], ?_, ?_, ?_, ?_⟩
  · refine ht.properties 0 [("type", "lookup")] (by decide +kernel) ?_
    decide +kernel
  · exact (List.cons.inj ht.truths).1.trans (by decide)
  · rw [ht.weight]
    decide
  · rw [ht.weight]
    decide

end TransducerLookup
