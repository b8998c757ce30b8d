import TransducerLookup.Proofs.Checked.Spelling
import TransducerLookup.Proofs.Loading.WellFormed

/-!
# Reading headers and alphabets with every operation checked

A `CheckedDecoder` may end in a trap besides ending in an error of loading.
`Agrees` says that on a stream it does not: it has the result or the error of
the plain decoder. The header and the alphabet are read with checked accesses
to their bytes, on streams with any content.
-/

namespace TransducerLookup.Checked

abbrev CheckedDecoder := ExceptT Trap Decoder

instance : MonadLift Checked CheckedDecoder := ⟨fun x => ExceptT.mk (pure x)⟩

/-- From this stream, the checked decoder does what the plain one does. -/
def Agrees {α : Type} (x : CheckedDecoder α) (y : Decoder α) (s : Stream) : Prop :=
  x.run s = match y s with
    | .ok a s' => .ok (.ok a) s'
    | .error e s' => .error e s'

variable {α β : Type} {s : Stream}

theorem Agrees.bind {x : CheckedDecoder α} {y : Decoder α} {f : α → CheckedDecoder β}
    {g : α → Decoder β} (h : Agrees x y s) (hf : ∀ a s', y s = .ok a s' → Agrees (f a) (g a) s') :
    Agrees (x >>= f) (y >>= g) s := by
  unfold Agrees at h ⊢
  show EStateM.bind x.run (ExceptT.bindCont f) s = match EStateM.bind y g s with
    | .ok b s' => _
    | .error e s' => _
  unfold EStateM.bind
  rw [h]
  cases hy : y s with
  | ok a s' => exact hf a s' hy
  | error e s' => rfl

theorem agrees_lift (y : Decoder α) (s : Stream) : Agrees (liftM y) y s := by
  show EStateM.map Except.ok y s = _
  unfold EStateM.map
  cases y s <;> rfl

theorem agrees_pure (a : α) (s : Stream) : Agrees (pure a) (pure a) s := rfl

/-- A checked operation that succeeds is no step of the plain decoder. -/
theorem Agrees.checked {x : Checked α} {a : α} (hx : x = .ok a) {f : α → CheckedDecoder β}
    {y : Decoder β} (h : Agrees (f a) y s) : Agrees (liftM x >>= f) y s := by
  subst hx
  exact h

theorem length_of_take {n : Nat} {onShort : Ending → LoadError} {bytes : List UInt8} {s' : Stream}
    (h : Decoder.take n onShort s = .ok bytes s') : bytes.length = n := by
  unfold Decoder.take at h
  split at h
  · next hle => cases h; rw [List.length_take]; omega
  · cases h

/-! ## Headers -/

def bytesAt (bytes : Array UInt8) (pos : Nat) : Nat → Checked (List UInt8)
  | 0 => return []
  | width + 1 => do return (← get bytes pos) :: (← bytesAt bytes (pos + 1) width)

def word16 (bytes : Array UInt8) (pos : Nat) : Checked UInt16 := do
  return (littleEndian (← bytesAt bytes pos 2)).toUInt16

def word32 (bytes : Array UInt8) (pos : Nat) : Checked UInt32 := do
  return (littleEndian (← bytesAt bytes pos 4)).toUInt32

/-- The truth value with this number, behind the numbers of the header. -/
def flag (bytes : Array UInt8) (n : Nat) : Checked Bool := do
  return decide ((← word32 bytes (20 + 4 * n)) ≠ 0)

def headerOf (bytes : Array UInt8) : Checked Header := do
  return {
    inputSymbolCount := ← word16 bytes 0
    symbolCount := ← word16 bytes 2
    indexTableSize := ← word32 bytes 4
    transitionTableSize := ← word32 bytes 8
    stateCount := ← word32 bytes 12
    transitionCount := ← word32 bytes 16
    weighted := ← flag bytes 0
    deterministic := ← flag bytes 1
    inputDeterministic := ← flag bytes 2
    minimized := ← flag bytes 3
    cyclic := ← flag bytes 4
    hasEpsilonEpsilonTransitions := ← flag bytes 5
    hasInputEpsilonTransitions := ← flag bytes 6
    hasInputEpsilonCycles := ← flag bytes 7
    hasUnweightedInputEpsilonCycles := ← flag bytes 8 }

def decodePreamble : CheckedDecoder Properties := do
  let length ← Decoder.word16 .preamble
  let body ← Decoder.block (← (increment length.toNat : Checked Nat)) .preamble
  return Properties.ofBytes (← (suffix body.toArray 1 : Checked (Array UInt8))).toList

def decodeRest (head : List UInt8) : CheckedDecoder Header := do
  let rest ← Decoder.fixed (← (minus Header.size head.length : Checked Nat)) .header
  headerOf (head ++ rest).toArray

def decodeHeader : CheckedDecoder Header := do
  let head ← Decoder.fixed 5 .header
  if head = Header.magic then
    let properties ← decodePreamble
    let header ← decodeRest (← Decoder.fixed 5 .header)
    return { header with preamble := some properties }
  else
    decodeRest head

theorem bytesAt_eq {bytes : List UInt8} {pos width : Nat} (h : pos + width ≤ bytes.length) :
    bytesAt bytes.toArray pos width = .ok ((bytes.drop pos).take width) := by
  induction width generalizing pos with
  | zero => rfl
  | succ width ih =>
    have hlt : pos < bytes.length := by omega
    have hget : get bytes.toArray pos = .ok bytes[pos] := get_eq_ok (by simp [hlt])
    rw [bytesAt, hget, ok_bind, ih (by omega), ok_bind, List.drop_eq_getElem_cons hlt,
      List.take_succ_cons]
    rfl

theorem headerOf_eq {bytes : List UInt8} (h : bytes.length = Header.size) :
    headerOf bytes.toArray = .ok (Header.ofBytes bytes) := by
  have hsize : Header.size = 56 := rfl
  have h16 (pos : Nat) (hpos : pos ≤ 54) :
      word16 bytes.toArray pos = .ok (Record.field16 bytes pos) := by
    rw [word16, bytesAt_eq (by omega)]; rfl
  have h32 (pos : Nat) (hpos : pos ≤ 52) :
      word32 bytes.toArray pos = .ok (Record.field32 bytes pos) := by
    rw [word32, bytesAt_eq (by omega)]; rfl
  have hflag (n : Nat) (hn : n ≤ 8) :
      flag bytes.toArray n = .ok (Record.flag bytes (20 + 4 * n)) := by
    rw [flag, h32 _ (by omega)]; rfl
  unfold headerOf
  simp only [h16 0 (by omega), h16 2 (by omega), h32 4 (by omega), h32 8 (by omega),
    h32 12 (by omega), h32 16 (by omega), hflag 0 (by omega), hflag 1 (by omega),
    hflag 2 (by omega), hflag 3 (by omega), hflag 4 (by omega), hflag 5 (by omega),
    hflag 6 (by omega), hflag 7 (by omega), hflag 8 (by omega), ok_bind]
  rfl

theorem decodePreamble_agrees (s : Stream) : Agrees decodePreamble Header.decodePreamble s := by
  refine (agrees_lift _ s).bind fun length s₁ _ => ?_
  have hlength := length.toNat_lt
  refine .checked (show increment length.toNat = .ok _ from if_pos (by omega)) ?_
  refine (agrees_lift _ s₁).bind fun body s₂ hbody => ?_
  have hlen := length_of_take hbody
  have hsuffix : suffix body.toArray 1 = .ok body.tail.toArray := by
    unfold suffix
    have hle : body.tail.length ≤ body.length - 1 := Nat.le_of_eq List.length_tail
    rw [if_pos (by simp; omega)]
    simp [List.take_of_length_le hle]
  exact .checked hsuffix (agrees_pure _ s₂)

theorem decodeRest_agrees {head : List UInt8} (h : head.length = 5) (s : Stream) :
    Agrees (decodeRest head) (Header.decodeRest head) s := by
  have hminus : minus Header.size head.length = .ok (Header.size - head.length) :=
    if_pos (by rw [h]; decide)
  refine .checked hminus ((agrees_lift _ s).bind fun rest s₁ hrest => ?_)
  have hlen : (head ++ rest).length = Header.size := by
    rw [List.length_append, length_of_take hrest, h]; rfl
  show Agrees (liftM (headerOf (head ++ rest).toArray)) (pure _) s₁
  rw [headerOf_eq hlen]
  exact agrees_pure _ s₁

theorem decodeHeader_agrees (s : Stream) : Agrees decodeHeader Header.decode s := by
  refine (agrees_lift _ s).bind fun head s₁ hhead => ?_
  split
  · refine (decodePreamble_agrees s₁).bind fun properties s₂ _ => ?_
    refine (agrees_lift _ s₂).bind fun head' s₃ hhead' => ?_
    exact (decodeRest_agrees (length_of_take hhead') s₃).bind fun header s₄ _ => agrees_pure _ s₄
  · exact decodeRest_agrees (length_of_take hhead) s₁

/-! ## Alphabets -/

def decodeSymbols : Nat → Alphabet → CheckedDecoder Alphabet
  | 0, a => return a
  | count + 1, a => do
    let bytes ← Decoder.untilNul .alphabet
    match Utf8.decode? bytes with
    | some text =>
      let (symbol, names) ← (symbolOf a.names text : Checked (Symbol × Flag.Names))
      decodeSymbols count { symbols := a.symbols.push symbol, names }
    | none => (throw (.invalidSymbol a.size) : Decoder Alphabet)

def decodeAlphabet (count : Nat) : CheckedDecoder Alphabet := do
  let a ← decodeSymbols count { symbols := #[], names := .initial }
  return { a with symbols := a.symbols.setIfInBounds 0 .epsilon }

/-- The alphabet of these texts, before symbol 0 becomes epsilon. -/
def ofTexts (texts : Array String) : Alphabet :=
  texts.foldl Alphabet.addText { symbols := #[], names := .initial }

theorem ofTexts_push (texts : Array String) (text : String) :
    ofTexts (texts.push text) = (ofTexts texts).addText text :=
  Array.foldl_push

theorem size_ofTexts (texts : Array String) : (ofTexts texts).size = texts.size := by
  rw [← (Alphabet.interned_ofTexts texts).2]
  exact (Array.size_setIfInBounds ..).symm

/-- Making symbols while reading is making them from all texts read. -/
theorem decodeSymbols_agrees (count : Nat) (texts : Array String) (s : Stream) :
    Agrees (decodeSymbols count (ofTexts texts))
      (do return ofTexts (← Alphabet.decodeTexts count texts)) s := by
  induction count generalizing texts s with
  | zero => exact agrees_pure _ s
  | succ count ih =>
    rw [Alphabet.decodeTexts, bind_assoc]
    refine (agrees_lift _ s).bind fun bytes s₁ _ => ?_
    cases Utf8.decode? bytes with
    | none =>
      dsimp only
      rw [size_ofTexts]
      rfl
    | some text =>
      refine .checked (symbolOf_eq (ofTexts texts).names text) ?_
      have h := ih (texts.push text) s₁
      rwa [ofTexts_push] at h

theorem decodeAlphabet_agrees (count : Nat) (s : Stream) :
    Agrees (decodeAlphabet count) (Alphabet.decode count) s := by
  have h := (decodeSymbols_agrees count #[] s).bind
    (f := fun a => pure { a with symbols := a.symbols.setIfInBounds 0 .epsilon })
    (g := fun a => pure { a with symbols := a.symbols.setIfInBounds 0 .epsilon })
    fun a s' _ => agrees_pure _ s'
  rw [bind_assoc] at h
  exact h

end TransducerLookup.Checked
