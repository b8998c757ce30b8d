import TransducerLookup.Proofs.Loading.Image

/-!
# Reads take a stream apart

Any reads may follow each other on one stream. Each of them either delivers a
value, whose bytes it takes from the front, or fails and leaves nothing
(`Read.perform_ends`). So what is delivered before the first failure is a first
part of the stream, and after it only reads of no bytes are left to succeed.
-/

namespace TransducerLookup

/-- What a read delivers. -/
inductive Delivery where
  | byte (b : UInt8)
  | word16 (n : UInt16)
  | word32 (n : UInt32)
  /-- Bytes that a NUL ended. -/
  | terminated (bytes : List UInt8)
  /-- As many bytes as were asked for. -/
  | counted (bytes : List UInt8)
  deriving DecidableEq, Repr

/-- The bytes that spell it on a stream. -/
def Delivery.spelling : Delivery → List UInt8
  | byte b => [b]
  | word16 n => numberBytes 2 n.toNat
  | word32 n => numberBytes 4 n.toNat
  | terminated bytes => bytes ++ [0]
  | counted bytes => bytes

/-- A read, for the section that its errors name. -/
inductive Read where
  | byte (part : Section)
  | word16 (part : Section)
  | word32 (part : Section)
  | untilNul (part : Section)
  | fixed (n : Nat) (part : Section)
  | block (n : Nat) (part : Section)
  deriving DecidableEq, Repr

namespace Read

def decoder : Read → Decoder Delivery
  | byte part => do return .byte (← Decoder.byte part)
  | word16 part => do return .word16 (← Decoder.word16 part)
  | word32 part => do return .word32 (← Decoder.word32 part)
  | untilNul part => do return .terminated (← Decoder.untilNul part)
  | fixed n part => do return .counted (← Decoder.fixed n part)
  | block n part => do return .counted (← Decoder.block n part)

/-- What the read ends in, and the stream that it leaves. -/
def perform (r : Read) (s : Stream) : Except LoadError Delivery × Stream :=
  match r.decoder s with
  | .ok v s' => (.ok v, s')
  | .error e s' => (.error e, s')

/-- How many bytes the read takes, if that is known beforehand. -/
def size? : Read → Option Nat
  | byte _ => some 1
  | word16 _ => some 2
  | word32 _ => some 4
  | untilNul _ => none
  | fixed n _ | block n _ => some n

/-- The bytes that are left are enough for the read. -/
def Fits (r : Read) (left : List UInt8) : Prop :=
  match r.size? with
  | some n => n ≤ left.length
  | none => 0 ∈ left

/-- The value is one that the read can deliver. -/
def Delivers : Read → Delivery → Prop
  | byte _, .byte _ | word16 _, .word16 _ | word32 _, .word32 _ => True
  | untilNul _, .terminated bytes => 0 ∉ bytes
  | fixed n _, .counted bytes | block n _, .counted bytes => bytes.length = n
  | _, _ => False

def error (ending : Ending) : Read → LoadError
  | byte part | word16 part | word32 part | untilNul part | fixed _ part => ending.fixedError part
  | block _ part => ending.blockError part

/-! ## One read -/

theorem length_numberBytes (width n : Nat) : (numberBytes width n).length = width := by
  induction width generalizing n with
  | zero => rfl
  | succ width ih => rw [numberBytes, List.length_cons, ih]

theorem fits_of_delivers {r : Read} {v : Delivery} (h : r.Delivers v) (rest : List UInt8) :
    r.Fits (v.spelling ++ rest) := by
  cases r <;> cases v <;> try exact h.elim
  all_goals simp_all [Fits, Delivers, size?, Delivery.spelling, length_numberBytes]

theorem fits_nil_iff (r : Read) : r.Fits [] ↔ r.size? = some 0 := by
  cases r <;> simp [Fits, size?]

/-- The two ways in which a read ends. -/
inductive Ends (r : Read) (s : Stream) : Except LoadError Delivery × Stream → Prop where
  | delivered {v : Delivery} {rest : List UInt8} :
      r.Delivers v → s.pending = v.spelling ++ rest → Ends r s (.ok v, ⟨rest, s.ending⟩)
  | failed : ¬ r.Fits s.pending → Ends r s (.error (r.error s.ending), s.exhausted)

variable {r : Read} {s s' : Stream}

theorem perform_of_ok {v : Delivery} (h : r.decoder s = .ok v s') : r.perform s = (.ok v, s') := by
  rw [perform, h]

theorem perform_of_error {e : LoadError} (h : r.decoder s = .error e s') :
    r.perform s = (.error e, s') := by
  rw [perform, h]

theorem ends_of_take {n : Nat} {onShort : Ending → LoadError} {f : List UInt8 → Delivery}
    (hdecoder : r.decoder = do return f (← Decoder.take n onShort)) (hsize : r.size? = some n)
    (herror : onShort s.ending = r.error s.ending)
    (hf : ∀ bytes, bytes.length = n → r.Delivers (f bytes) ∧ (f bytes).spelling = bytes) :
    Ends r s (r.perform s) := by
  rcases Decoder.take_cases n onShort s with ⟨bytes, rest, hlen, hs, hok⟩ | ⟨hlt, hshort⟩
  · obtain ⟨hdelivers, hspelling⟩ := hf bytes hlen
    rw [perform_of_ok (hdecoder ▸ Decoder.bind_of_ok hok _)]
    refine .delivered hdelivers ?_
    rw [hspelling]
    exact congrArg Stream.pending hs
  · rw [perform_of_error (hdecoder ▸ Decoder.bind_of_error hshort _), herror]
    refine .failed ?_
    rw [Fits, hsize]
    exact Nat.not_le_of_lt hlt

theorem spelling_byte {bytes : List UInt8} (h : bytes.length = 1) :
    (Delivery.byte (littleEndian bytes).toUInt8).spelling = bytes := by
  have hbytes := numberBytes_littleEndian bytes
  rw [h] at hbytes
  exact hbytes

theorem spelling_word16 {bytes : List UInt8} (h : bytes.length = 2) :
    (Delivery.word16 (littleEndian bytes).toUInt16).spelling = bytes := by
  have hbytes := numberBytes_littleEndian bytes
  rw [h] at hbytes
  rw [Delivery.spelling, toNat_littleEndian16 h, hbytes]

theorem spelling_word32 {bytes : List UInt8} (h : bytes.length = 4) :
    (Delivery.word32 (littleEndian bytes).toUInt32).spelling = bytes := by
  have hbytes := numberBytes_littleEndian bytes
  have hlt := littleEndian_lt bytes
  rw [h] at hbytes hlt
  have hnat : (littleEndian bytes).toUInt32.toNat = littleEndian bytes :=
    UInt32.toNat_ofNat_of_lt' hlt
  rw [Delivery.spelling, hnat, hbytes]

theorem untilNul_ends (part : Section) (s : Stream) :
    Ends (untilNul part) s ((untilNul part).perform s) := by
  rcases Decoder.untilNul_cases part s with ⟨bytes, rest, hbytes, hs, hok⟩ | ⟨hnone, herror⟩
  · have hdecoder : (untilNul part).decoder s = .ok (.terminated bytes) ⟨rest, s.ending⟩ :=
      Decoder.bind_of_ok hok _
    rw [perform_of_ok hdecoder]
    refine .delivered hbytes ?_
    rw [Delivery.spelling, ← List.append_cons]
    exact congrArg Stream.pending hs
  · have hdecoder : (untilNul part).decoder s = .error (s.ending.fixedError part) s.exhausted :=
      Decoder.bind_of_error herror _
    rw [perform_of_error hdecoder]
    exact .failed hnone

theorem perform_ends (r : Read) (s : Stream) : Ends r s (r.perform s) := by
  cases r with
  | byte part =>
    have hdecoder : (byte part).decoder =
        do return .byte (littleEndian (← Decoder.fixed 1 part)).toUInt8 := by
      simp only [decoder, Decoder.byte, bind_assoc, pure_bind]
    exact ends_of_take hdecoder rfl rfl fun bytes hlen => ⟨trivial, spelling_byte hlen⟩
  | word16 part =>
    have hdecoder : (word16 part).decoder =
        do return .word16 (littleEndian (← Decoder.fixed 2 part)).toUInt16 := by
      simp only [decoder, Decoder.word16, bind_assoc, pure_bind]
    exact ends_of_take hdecoder rfl rfl fun bytes hlen => ⟨trivial, spelling_word16 hlen⟩
  | word32 part =>
    have hdecoder : (word32 part).decoder =
        do return .word32 (littleEndian (← Decoder.fixed 4 part)).toUInt32 := by
      simp only [decoder, Decoder.word32, bind_assoc, pure_bind]
    exact ends_of_take hdecoder rfl rfl fun bytes hlen => ⟨trivial, spelling_word32 hlen⟩
  | untilNul part => exact untilNul_ends part s
  | fixed n part => exact ends_of_take rfl rfl rfl fun bytes hlen => ⟨hlen, rfl⟩
  | block n part => exact ends_of_take rfl rfl rfl fun bytes hlen => ⟨hlen, rfl⟩

theorem perform_ok_iff : (∃ v, (r.perform s).1 = .ok v) ↔ r.Fits s.pending := by
  have hends := perform_ends r s
  generalize r.perform s = result at hends
  cases hends with
  | delivered hdelivers hs => exact ⟨fun _ => hs ▸ fits_of_delivers hdelivers _, fun _ => ⟨_, rfl⟩⟩
  | failed hfits => exact ⟨nofun, fun h => (hfits h).elim⟩

theorem of_perform_ok {v : Delivery} (h : (r.perform s).1 = .ok v) :
    r.Delivers v ∧ v.spelling ++ (r.perform s).2.pending = s.pending := by
  have hends := perform_ends r s
  generalize r.perform s = result at h hends
  cases hends with
  | delivered hdelivers hs =>
    obtain rfl := Except.ok.inj h
    exact ⟨hdelivers, hs.symm⟩
  | failed => cases h

theorem ending_perform : (r.perform s).2.ending = s.ending := by
  have hends := perform_ends r s
  generalize r.perform s = result at hends
  cases hends <;> rfl

theorem error_endOfData (r : Read) : ∃ part, r.error .endOfData = .truncated part := by
  cases r <;> exact ⟨_, rfl⟩

/-- The two families of reads of a given length differ in how they report a fault. -/
theorem perform_fixed_eq_block (n : Nat) (part : Section) (h : s.ending = .endOfData) :
    (fixed n part).perform s = (block n part).perform s := by
  have herror : s.ending.fixedError part = s.ending.blockError part := by
    rw [h]
    rfl
  have hdecoder : (fixed n part).decoder s = (block n part).decoder s := by
    refine Decoder.bind_eq_bind ?_ _
    rw [Decoder.fixed, Decoder.block, Decoder.take, Decoder.take, herror]
  rw [perform, perform, hdecoder]

end Read

/-! ## Any reads -/

namespace Stream

/-- What the reads end in, one after the other. Also behind one that failed the next is tried. -/
def results (s : Stream) : List Read → List (Except LoadError Delivery)
  | [] => []
  | r :: reads => (r.perform s).1 :: results (r.perform s).2 reads

def after (s : Stream) (reads : List Read) : Stream := reads.foldl (fun s r => (r.perform s).2) s

theorem after_cons (s : Stream) (r : Read) (reads : List Read) :
    s.after (r :: reads) = (r.perform s).2.after reads := rfl

/-- What is delivered before the first failure. -/
def deliveries : List (Except LoadError Delivery) → List Delivery
  | .ok v :: results => v :: deliveries results
  | _ => []

theorem ending_after (s : Stream) (reads : List Read) : (s.after reads).ending = s.ending := by
  induction reads generalizing s with
  | nil => rfl
  | cons r reads ih => rw [after_cons, ih, Read.ending_perform]

/-- No read brings anything back. -/
theorem pending_after_of_nil {s : Stream} (h : s.pending = []) (reads : List Read) :
    (s.after reads).pending = [] := by
  induction reads generalizing s with
  | nil => exact h
  | cons r reads ih =>
    rw [after_cons]
    refine ih ?_
    have hends := r.perform_ends s
    generalize r.perform s = result at hends
    cases hends with
    | delivered _ hs => exact (List.append_eq_nil_iff.1 (hs.symm.trans h)).2
    | failed => rfl

theorem pending_after_of_error {s : Stream} {reads : List Read} {e : LoadError}
    (h : .error e ∈ s.results reads) : (s.after reads).pending = [] := by
  induction reads generalizing s with
  | nil => cases h
  | cons r reads ih =>
    rw [after_cons]
    rcases List.mem_cons.1 h with heq | hmem
    · refine pending_after_of_nil ?_ reads
      have hends := r.perform_ends s
      generalize r.perform s = result at heq hends
      cases hends with
      | delivered => cases heq
      | failed => rfl
    · exact ih hmem

/-- What is delivered before the first failure is spelled by a first part of the stream. The rest
is left, or, behind a failure, nothing. -/
theorem spelling_deliveries (s : Stream) (reads : List Read) : ∃ rest,
    (deliveries (s.results reads)).flatMap Delivery.spelling ++ rest = s.pending ∧
      ((∀ e, .error e ∉ s.results reads) → (s.after reads).pending = rest) := by
  induction reads generalizing s with
  | nil => exact ⟨s.pending, rfl, fun _ => rfl⟩
  | cons r reads ih =>
    rw [results, after_cons]
    have hends := r.perform_ends s
    generalize r.perform s = result at hends
    cases hends with
    | @delivered v left hdelivers hs =>
      obtain ⟨rest, hspelling, hafter⟩ := ih ⟨left, s.ending⟩
      refine ⟨rest, ?_, fun h => hafter fun e he => h e (List.mem_cons_of_mem _ he)⟩
      rw [deliveries, List.flatMap_cons, List.append_assoc, hspelling, hs]
    | failed => exact ⟨s.pending, rfl, fun h => (h _ List.mem_cons_self).elim⟩

theorem truncated_of_endOfData {s : Stream} (h : s.ending = .endOfData) {reads : List Read}
    {e : LoadError} (he : .error e ∈ s.results reads) : ∃ part, e = .truncated part := by
  induction reads generalizing s with
  | nil => cases he
  | cons r reads ih =>
    have hending : (r.perform s).2.ending = .endOfData := Read.ending_perform.trans h
    rcases List.mem_cons.1 he with heq | hmem
    · have hends := r.perform_ends s
      generalize r.perform s = result at heq hends
      cases hends with
      | delivered => cases heq
      | failed =>
        obtain rfl := Except.error.inj heq
        rw [h]
        exact r.error_endOfData
    · exact ih hending hmem

/-- Reads take a stream apart. What they deliver before the first failure is spelled, in their
order, by a first part of the stream, and the rest is left. After any reads, the next one succeeds
if and only if enough bytes are left, and takes those that spell what it delivers. A failure leaves
nothing, so behind it only reads of no bytes succeed. Where the data just ends, this is what every
failure reports, and the two reads of a given length do the same. -/
theorem reads_partition (s : Stream) (reads : List Read) :
    (∃ rest, (deliveries (s.results reads)).flatMap Delivery.spelling ++ rest = s.pending ∧
      ((∀ e, .error e ∉ s.results reads) → (s.after reads).pending = rest)) ∧
    (∀ next : Read,
      ((∃ v, (next.perform (s.after reads)).1 = .ok v) ↔ next.Fits (s.after reads).pending) ∧
      ∀ v, (next.perform (s.after reads)).1 = .ok v → next.Delivers v ∧
        v.spelling ++ (next.perform (s.after reads)).2.pending = (s.after reads).pending) ∧
    (∀ e, .error e ∈ s.results reads → (s.after reads).pending = [] ∧
      ∀ next : Read, (∃ v, (next.perform (s.after reads)).1 = .ok v) ↔ next.size? = some 0) ∧
    (s.ending = .endOfData → (∀ e, .error e ∈ s.results reads → ∃ part, e = .truncated part) ∧
      ∀ n part, (Read.fixed n part).perform (s.after reads) =
        (Read.block n part).perform (s.after reads)) := by
  refine ⟨spelling_deliveries s reads, fun next => ⟨Read.perform_ok_iff, fun v hv => ?_⟩,
    fun e he => ?_, fun hend => ⟨fun e he => truncated_of_endOfData hend he, fun n part => ?_⟩⟩
  · exact Read.of_perform_ok hv
  · have hnil := pending_after_of_error he
    refine ⟨hnil, fun next => ?_⟩
    rw [Read.perform_ok_iff, hnil, Read.fits_nil_iff]
  · exact Read.perform_fixed_eq_block n part ((ending_after s reads).trans hend)

/-- A stream with a fault in the middle of a word. -/
def faulty : Stream := ⟨[5, 7, 0, 1], .fault ⟨.permissionDenied, "gone"⟩⟩

def faultyReads : List Read :=
  [.byte .header, .untilNul .header, .word32 .header, .fixed 0 .header]

theorem reads_partition_faulty :
    faulty.results faultyReads = [.ok (.byte 5), .ok (.terminated [7]),
      .error (.streamFault "gone"), .ok (.counted [])] ∧
    (∃ rest, (deliveries (faulty.results faultyReads)).flatMap Delivery.spelling ++ rest =
      faulty.pending) ∧
    (faulty.after faultyReads).pending = [] ∧
    ¬ ∃ v, ((Read.byte .header).perform (faulty.after faultyReads)).1 = .ok v := by
  have hresults : faulty.results faultyReads = [.ok (.byte 5), .ok (.terminated [7]),
      .error (.streamFault "gone"), .ok (.counted [])] := by decide +kernel
  obtain ⟨⟨rest, hrest, -⟩, -, hfailed, -⟩ := reads_partition faulty faultyReads
  obtain ⟨hnil, hnext⟩ := hfailed (.streamFault "gone") (by rw [hresults]; decide)
  refine ⟨hresults, ⟨rest, hrest⟩, hnil, fun hv => ?_⟩
  cases (hnext (.byte .header)).1 hv

end Stream

end TransducerLookup
