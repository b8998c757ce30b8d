/-!
# Records of little-endian numbers

The header and the cells of the tables are records of fixed size, whose fields
are little-endian numbers at fixed offsets.
-/

namespace TransducerLookup

/-- The number that the bytes spell, least significant byte first. -/
def littleEndian (bytes : List UInt8) : Nat :=
  bytes.foldr (fun b n => b.toNat + 256 * n) 0

theorem littleEndian_cons (b : UInt8) (bytes : List UInt8) :
    littleEndian (b :: bytes) = b.toNat + 256 * littleEndian bytes := rfl

theorem littleEndian_lt (bytes : List UInt8) :
    littleEndian bytes < Nat.pow 256 bytes.length := by
  induction bytes with
  | nil => decide
  | cons b bytes ih =>
    have hb := b.toNat_lt
    show b.toNat + 256 * littleEndian bytes < Nat.pow 256 bytes.length * 256
    omega

theorem toNat_littleEndian16 {bytes : List UInt8} (h : bytes.length = 2) :
    (littleEndian bytes).toUInt16.toNat = littleEndian bytes := by
  have hlt := littleEndian_lt bytes
  rw [h] at hlt
  exact UInt16.toNat_ofNat_of_lt' hlt

namespace Record

/-- The number in `width` bytes at `offset`. -/
def field (record : List UInt8) (offset width : Nat) : Nat :=
  littleEndian ((record.drop offset).take width)

def field16 (record : List UInt8) (offset : Nat) : UInt16 := (field record offset 2).toUInt16

def field32 (record : List UInt8) (offset : Nat) : UInt32 := (field record offset 4).toUInt32

/-- A truth value of four bytes: any nonzero word is true. -/
def flag (record : List UInt8) (offset : Nat) : Bool := field32 record offset ≠ 0

theorem field_lt (record : List UInt8) (offset width : Nat) :
    field record offset width < Nat.pow 256 width :=
  Nat.lt_of_lt_of_le (littleEndian_lt _)
    (Nat.pow_le_pow_right (by decide) (List.length_take_le _ _))

theorem toNat_field16 (record : List UInt8) (offset : Nat) :
    (field16 record offset).toNat = field record offset 2 :=
  UInt16.toNat_ofNat_of_lt' (field_lt record offset 2)

theorem toNat_field32 (record : List UInt8) (offset : Nat) :
    (field32 record offset).toNat = field record offset 4 :=
  UInt32.toNat_ofNat_of_lt' (field_lt record offset 4)

theorem flag_eq (record : List UInt8) (offset : Nat) :
    flag record offset = decide (field record offset 4 ≠ 0) := by
  refine decide_eq_decide.2 (not_congr ?_)
  rw [← UInt32.toNat_inj, toNat_field32]
  exact Iff.rfl

theorem field_take_drop {start size offset width : Nat} (h : offset + width ≤ size)
    (bytes : List UInt8) :
    field ((bytes.drop start).take size) offset width = field bytes (start + offset) width := by
  rw [field, field, List.drop_take, List.take_take, List.drop_drop,
    Nat.min_eq_left (Nat.le_sub_of_add_le (Nat.add_comm width offset ▸ h))]

/-- Adds to `cells` the next records of `size` bytes each, as `read` reads them. -/
def collect (size : Nat) (read : List UInt8 → α) : Nat → List UInt8 → Array α → Array α
  | 0, _, cells => cells
  | count + 1, bytes, cells =>
    collect size read count (bytes.drop size) (cells.push (read (bytes.take size)))

theorem collect_eq_append (size : Nat) (read : List UInt8 → α) (count : Nat) (bytes : List UInt8)
    (cells : Array α) :
    collect size read count bytes cells = cells ++ collect size read count bytes #[] := by
  induction count generalizing bytes cells with
  | zero => simp [collect]
  | succ count ih =>
    rw [collect, collect, ih, ih _ (#[].push _)]
    simp

theorem size_collect (size : Nat) (read : List UInt8 → α) (count : Nat) (bytes : List UInt8) :
    (collect size read count bytes #[]).size = count := by
  induction count generalizing bytes with
  | zero => rfl
  | succ count ih =>
    rw [collect, collect_eq_append, Array.size_append, ih]
    exact Nat.add_comm _ _

/-- Record `i` lies at `i * size`. -/
theorem getElem?_collect (size : Nat) (read : List UInt8 → α) (count : Nat) (bytes : List UInt8)
    {i : Nat} (h : i < count) :
    (collect size read count bytes #[])[i]? =
      some (read ((bytes.drop (i * size)).take size)) := by
  induction count generalizing bytes i with
  | zero => omega
  | succ count ih =>
    rw [collect, collect_eq_append]
    cases i with
    | zero =>
      rw [Array.getElem?_append]
      simp
    | succ i =>
      rw [Array.getElem?_append_right (by simp)]
      have := ih (bytes.drop size) (show i < count by omega)
      rw [List.drop_drop, Nat.add_comm size, ← Nat.succ_mul] at this
      simpa using this

theorem getD_collect (size : Nat) (read : List UInt8 → α) (count : Nat) (bytes : List UInt8)
    (i : Nat) (absent : α) :
    (collect size read count bytes #[])[i]?.getD absent =
      if i < count then read ((bytes.drop (i * size)).take size) else absent := by
  by_cases h : i < count
  · rw [getElem?_collect size read count bytes h, if_pos h, Option.getD_some]
  · rw [Array.getElem?_eq_none (by rw [size_collect]; omega), if_neg h, Option.getD_none]

end Record

end TransducerLookup
