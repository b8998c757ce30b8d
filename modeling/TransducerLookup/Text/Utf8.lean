/-!
# Text from bytes

`decode?` accepts well-formed UTF-8 and nothing else. `decodeLossy` accepts
every byte sequence: where no character starts, the longest piece that begins
some well-formed character (or else a single byte) becomes one U+FFFD.
-/

namespace TransducerLookup.Utf8

def encode (text : String) : List UInt8 := text.toList.flatMap String.utf8EncodeChar

def decode? (bytes : List UInt8) : Option String := String.fromUTF8? bytes.toByteArray

/-- The character that starts at the front. -/
def char? (bytes : List UInt8) : Option Char := (bytes.take 4).toByteArray.utf8DecodeChar? 0

def isContinuation (b : UInt8) : Bool := 0x80 ≤ b && b ≤ 0xBF

/-- Whether `lead` and `next` begin a well-formed character of three or four bytes. -/
def opensLongChar (lead next : UInt8) : Bool :=
  if lead = 0xE0 then 0xA0 ≤ next && next ≤ 0xBF
  else if lead = 0xED then 0x80 ≤ next && next ≤ 0x9F
  else if lead = 0xF0 then 0x90 ≤ next && next ≤ 0xBF
  else if lead = 0xF4 then 0x80 ≤ next && next ≤ 0x8F
  else 0xE1 ≤ lead && lead ≤ 0xF3 && isContinuation next

/-- The length of the piece that stands for one U+FFFD, where no character starts. -/
def brokenLength : List UInt8 → Nat
  | lead :: next :: rest =>
    if opensLongChar lead next then
      if 0xF0 ≤ lead && rest.head?.any isContinuation then 3 else 2
    else 1
  | _ => 1

def decodeLossyInto (text : String) (bytes : List UInt8) : String :=
  match bytes with
  | [] => text
  | b :: rest =>
    match char? (b :: rest) with
    | some c => decodeLossyInto (text.push c) (rest.drop (c.utf8Size - 1))
    | none => decodeLossyInto (text.push '\uFFFD') (rest.drop (brokenLength (b :: rest) - 1))
  termination_by bytes.length
  decreasing_by all_goals simp only [List.length_drop, List.length_cons]; omega

def decodeLossy (bytes : List UInt8) : String := decodeLossyInto "" bytes

/-! ## Encoded text reads back -/

theorem decode?_encode (text : String) : decode? (encode text) = some text := by
  have h : (encode text).toByteArray = text.toByteArray := String.utf8Encode_toList
  rw [decode?, h, String.fromUTF8?, dif_pos text.isValidUTF8]
  rfl

theorem decode?_eq_some_iff {bytes : List UInt8} {text : String} :
    decode? bytes = some text ↔ bytes = encode text := by
  constructor
  · intro h
    rw [decode?, String.fromUTF8?] at h
    split at h
    · next hvalid =>
      obtain rfl := Option.some.inj h
      have henc : (encode (String.fromUTF8 bytes.toByteArray hvalid)).toByteArray =
          bytes.toByteArray := String.utf8Encode_toList
      exact (List.toByteArray_inj.1 henc).symm
    · cases h
  · rintro rfl
    exact decode?_encode text

theorem char?_encode_append (c : Char) (rest : List UInt8) :
    char? (String.utf8EncodeChar c ++ rest) = some c := by
  have hlen : (String.utf8EncodeChar c).length ≤ 4 := by
    rw [String.length_utf8EncodeChar]
    exact c.utf8Size_le_four
  rw [char?, List.take_append, List.take_of_length_le hlen, List.toByteArray_append]
  exact ByteArray.utf8DecodeChar?_utf8EncodeChar_append

theorem decodeLossyInto_encode_append (text : String) (c : Char) (rest : List UInt8) :
    decodeLossyInto text (String.utf8EncodeChar c ++ rest) =
      decodeLossyInto (text.push c) rest := by
  have hchar := char?_encode_append c rest
  have hlen := String.length_utf8EncodeChar c
  cases hbytes : String.utf8EncodeChar c with
  | nil =>
    have := c.utf8Size_pos
    rw [hbytes, List.length_nil] at hlen
    omega
  | cons b bytes =>
    rw [hbytes] at hchar hlen
    rw [List.cons_append] at hchar ⊢
    rw [decodeLossyInto, hchar]
    show decodeLossyInto (text.push c) ((bytes ++ rest).drop (c.utf8Size - 1)) = _
    rw [← hlen, List.length_cons, Nat.add_sub_cancel, List.drop_left]

theorem decodeLossy_encode (text : String) : decodeLossy (encode text) = text := by
  have h (cs : List Char) (start : String) :
      decodeLossyInto start (cs.flatMap String.utf8EncodeChar) = start ++ String.ofList cs := by
    induction cs generalizing start with
    | nil => simp [decodeLossyInto]
    | cons c cs ih =>
      rw [List.flatMap_cons, decodeLossyInto_encode_append, ih, String.ofList_cons,
        ← String.append_assoc, String.append_singleton]
  rw [decodeLossy, encode, h, String.ofList_toList]
  exact String.empty_append

theorem length_le_decodeLossyInto (text : String) (bytes : List UInt8) :
    text.length ≤ (decodeLossyInto text bytes).length := by
  fun_induction decodeLossyInto text bytes with
  | case1 text => exact Nat.le_refl _
  | case2 text b rest c hchar ih =>
    rw [String.length_push] at ih
    omega
  | case3 text b rest hchar ih =>
    rw [String.length_push] at ih
    omega

theorem decodeLossy_ne_empty {bytes : List UInt8} (h : bytes ≠ []) : decodeLossy bytes ≠ "" := by
  have hpush (c : Char) (rest : List UInt8) : decodeLossyInto ("".push c) rest ≠ "" := by
    intro hempty
    have hle := length_le_decodeLossyInto ("".push c) rest
    rw [hempty, String.length_push] at hle
    exact Nat.not_succ_le_zero _ hle
  cases bytes with
  | nil => exact (h rfl).elim
  | cons b rest =>
    rw [decodeLossy, decodeLossyInto]
    split
    · exact hpush _ _
    · exact hpush _ _

end TransducerLookup.Utf8
