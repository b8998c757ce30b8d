import TransducerLookup.Proofs.Loading.Image
import TransducerLookup.Proofs.Search.TurnLimit

/-!
# Transparent preambles

Decoding a file behind a preamble is decoding the file and then noting the
properties (`Transducer.decode_behind`), whatever the preamble says: the header
proper is read as before, and nothing behind it depends on the properties.
-/

namespace TransducerLookup

variable {file : List UInt8}

/-! ## The header -/

namespace Header

def withPreamble (properties : Properties) (h : Header) : Header :=
  { h with preamble := some properties }

/-- A file that does not open with the magic bytes has its header proper in front. -/
theorem decodeRest_eq_decode (hfile : ¬ magic <+: file) (ending : Ending) :
    (Decoder.fixed 5 .header >>= decodeRest) ⟨file, ending⟩ = decode ⟨file, ending⟩ := by
  refine Decoder.bind_congr_of_ok fun head s hhead => ?_
  obtain ⟨bytes, ⟨-, rfl⟩, hs⟩ := (Decoder.reads_take 5 _ _ head s).1 hhead
  have hne : bytes ≠ magic := by
    rintro rfl
    exact hfile ⟨s.pending, (congrArg Stream.pending hs).symm⟩
  rw [if_neg hne]

theorem decode_behind (hfile : ¬ magic <+: file) {body : List UInt8} {length : Nat}
    (hlength : length ≤ 65535) (hbody : body.length = length + 1) (ending : Ending) :
    decode ⟨magic ++ (bytes16 length ++ body ++ file), ending⟩ =
      (withPreamble (.ofBytes body.tail) <$> decode) ⟨file, ending⟩ := by
  have hmagic : Decoder.fixed 5 .header ⟨magic ++ (bytes16 length ++ body ++ file), ending⟩ =
      .ok magic ⟨bytes16 length ++ body ++ file, ending⟩ :=
    Decoder.take_append (show magic.length = 5 from rfl) _ _ ending
  have hpreamble : decodePreamble ⟨bytes16 length ++ body ++ file, ending⟩ =
      .ok (.ofBytes body.tail) ⟨file, ending⟩ := by
    refine (reads_decodePreamble _ _ _).2 ⟨bytes16 length ++ body, ⟨body, ?_, ?_, rfl⟩, rfl⟩
    · omega
    · rw [hbody, Nat.add_sub_cancel]
  have hdecode : decode ⟨magic ++ (bytes16 length ++ body ++ file), ending⟩ =
      (Decoder.fixed 5 .header >>= fun head => decodeRest head >>= fun header =>
        pure (header.withPreamble (.ofBytes body.tail))) ⟨file, ending⟩ := by
    unfold decode
    rw [Decoder.bind_of_ok hmagic, if_pos rfl, Decoder.bind_of_ok hpreamble]
    rfl
  rw [hdecode, ← bind_assoc, map_eq_pure_bind]
  exact Decoder.bind_eq_bind (decodeRest_eq_decode hfile ending) _

end Header

namespace Transducer

def withPreamble (properties : Properties) (t : Transducer) : Transducer :=
  { t with header := t.header.withPreamble properties, trie_eq := t.trie_eq }

theorem decode_behind (hfile : ¬ Header.magic <+: file) {body : List UInt8} {length : Nat}
    (hlength : length ≤ 65535) (hbody : body.length = length + 1) (ending : Ending) :
    decode ⟨Header.magic ++ (bytes16 length ++ body ++ file), ending⟩ =
      (withPreamble (.ofBytes body.tail) <$> decode) ⟨file, ending⟩ := by
  unfold decode
  rw [Decoder.bind_eq_bind (Header.decode_behind hfile hlength hbody ending), bind_map_left]
  -- What stands behind the header is read without regard to the properties.
  simp only [map_bind, map_pure]
  rfl

theorem load_of_decode_eq_map {s s' : Stream} {f : Transducer → Transducer}
    (h : decode s = (f <$> decode) s') : load s = (load s').map f := by
  rw [show (f <$> decode) s' = EStateM.map f decode s' from rfl, EStateM.map] at h
  cases hdecode : decode s' with
  | ok t s₁ =>
    rw [hdecode] at h
    rw [load_of_decode_eq_ok h, load_of_decode_eq_ok hdecode, Except.map]
  | error e s₁ =>
    rw [hdecode] at h
    rw [load_of_decode_eq_error h, load_of_decode_eq_error hdecode, Except.map]

theorem preamble_of_load {ending : Ending} {t : Transducer} (hfile : ¬ Header.magic <+: file)
    (h : load ⟨file, ending⟩ = .ok t) : t.header.preamble = none := by
  obtain ⟨s, hdecode⟩ := load_eq_ok_iff.1 h
  obtain ⟨_, ⟨i, -, rfl, rfl⟩, hs⟩ := (reads_decode _ _ _).1 hdecode
  cases hpreamble : i.preamble with
  | none =>
    show Option.map _ i.preamble = none
    rw [hpreamble]
    rfl
  | some body =>
    refine (hfile ?_).elim
    rw [show file = i.bytes ++ s.pending from congrArg Stream.pending hs, Image.bytes, hpreamble,
      Image.preambleBytes]
    simp only [List.append_assoc]
    exact List.prefix_append _ _

theorem analyze_withPreamble (properties : Properties) (t : Transducer) (limits : Limits)
    (text : String) : ((t.withPreamble properties).withLimits limits).analyze text =
      (t.withLimits limits).analyze text :=
  Search.analyze_congr rfl rfl (fun _ => rfl) rfl

/-- A preamble is transparent. Behind one, whatever its body says, loading a file has the same
outcome as without: the same error, or a transducer that differs in nothing but the properties
and so finds the same analyses. -/
theorem load_behind {file body : List UInt8} {length : Nat} (hfile : ¬ Header.magic <+: file)
    (hlength : length ≤ 65535) (hbody : body.length = length + 1) (ending : Ending) :
    load ⟨Header.magic ++ bytes16 length ++ body ++ file, ending⟩ =
      (load ⟨file, ending⟩).map (withPreamble (.ofBytes body.tail)) ∧
    ∀ t u, load ⟨file, ending⟩ = .ok t →
      load ⟨Header.magic ++ bytes16 length ++ body ++ file, ending⟩ = .ok u →
      (t.header.hasPreamble = false ∧ t.header.properties = []) ∧
      (u.header.hasPreamble = true ∧ u.header.properties = .ofBytes body.tail) ∧
      ∀ limits text,
        (u.withLimits limits).analyze text = (t.withLimits limits).analyze text := by
  have hload : load ⟨Header.magic ++ bytes16 length ++ body ++ file, ending⟩ =
      (load ⟨file, ending⟩).map (withPreamble (.ofBytes body.tail)) := by
    rw [List.append_assoc, List.append_assoc, ← List.append_assoc (bytes16 length)]
    exact load_of_decode_eq_map (decode_behind hfile hlength hbody ending)
  refine ⟨hload, fun t u ht hu => ?_⟩
  rw [hload, ht] at hu
  obtain rfl : t.withPreamble (.ofBytes body.tail) = u := Except.ok.inj hu
  have hnone := preamble_of_load hfile ht
  refine ⟨⟨?_, ?_⟩, ⟨rfl, rfl⟩, analyze_withPreamble _ t⟩
  · rw [Header.hasPreamble, hnone]
    rfl
  · rw [Header.properties, hnone]
    rfl

/-- A body with a pair of which the value is no UTF-8, and with a key that has no value. -/
theorem load_behind_small :
    ∃ u, load (.ofBytes (Header.magic ++ bytes16 5 ++ [7, 107, 0, 255, 0, 97] ++ smallFile)) =
        .ok u ∧ u.header.properties = [("k", "\uFFFD")] ∧
      (u.withLimits ⟨1, 100⟩).analyze "a" = [⟨["a"], .one⟩, ⟨["b"], .one⟩] := by
  have hfile : ¬ Header.magic <+: smallFile := by decide
  have hlength : 5 ≤ 65535 := by decide
  have hbody : ([7, 107, 0, 255, 0, 97] : List UInt8).length = 5 + 1 := rfl
  obtain ⟨hmap, hsame⟩ := load_behind hfile hlength hbody .endOfData
  have hsmall : load ⟨smallFile, .endOfData⟩ = .ok small := ofBytes_smallFile
  have hload := hmap
  rw [hsmall, Except.map] at hload
  obtain ⟨-, ⟨-, hproperties⟩, hanalyze⟩ := hsame small _ hsmall hload
  refine ⟨_, hload, hproperties.trans ?_, (hanalyze ⟨1, 100⟩ "a").trans ?_⟩
  · decide +kernel
  · decide +kernel

end Transducer

end TransducerLookup
