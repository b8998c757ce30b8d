import TransducerLookup.Flag.Stack
import TransducerLookup.Proofs.Checked.Basic

/-!
# The flattened flag stack

The rows of a flag stack lie in one array, the bottom row first, so that every
operation on the top row computes where that row begins. `FlatStack.Represents`
relates the array to the stack of rows. While it holds no operation on the array
fails, and both sides stay related. Stacks without features are all one array.
-/

namespace TransducerLookup.Checked

open TransducerLookup.Flag (Row Operation Verdict)

structure FlatStack where
  /-- The length of a row. -/
  featureCount : Nat
  values : Array Int32
  deriving DecidableEq, Repr

/-- The verdict on a flag, where a negative value is computed in a word. -/
def verdict (o : Operation) (current : Int32) : Checked Verdict :=
  match o.operator with
  | .negativeSet => do return .update (← negate o.value)
  | _ => return o.check current

namespace FlatStack

def start (featureCount : Nat) : FlatStack := ⟨featureCount, .replicate featureCount Flag.neutral⟩

def top (f : FlatStack) : Checked Nat := minus f.values.size f.featureCount

def current (f : FlatStack) : Checked Row := do suffix f.values (← f.top)

/-- The number of rows; one if there are no features. -/
def depth (f : FlatStack) : Nat :=
  if f.featureCount = 0 then 1 else f.values.size / f.featureCount

/-- The array with another copy of the top row, which begins at `top`. -/
def extended (f : FlatStack) (top : Nat) : Checked (Array Int32) := do
  return f.values ++ (← suffix f.values top)

def push? (f : FlatStack) (o : Operation) : Checked (Option FlatStack) := do
  let feature := o.feature.toNat
  if f.featureCount ≤ feature then return none
  let top ← f.top
  match ← verdict o (← get f.values (top + feature)) with
  | .reject => return none
  | .accept => return some { f with values := ← f.extended top }
  | .update value =>
    let values ← f.extended top
    return some { f with values := ← set values (top + f.featureCount + feature) value }

def pop (f : FlatStack) : Checked FlatStack :=
  if 1 < f.depth then do return { f with values := f.values.take (← f.top) } else return f

/-! ## Rows in the array -/

/-- The array of these rows, which come top first. -/
def flatten : List Row → Array Int32
  | [] => #[]
  | row :: rows => flatten rows ++ row

structure Represents (f : FlatStack) (s : Flag.Stack) : Prop where
  size : ∀ row ∈ s.rows, row.size = f.featureCount
  values : f.values = flatten s.rows

theorem size_flatten {rows : List Row} {n : Nat} (h : ∀ row ∈ rows, row.size = n) :
    (flatten rows).size = rows.length * n := by
  induction rows with
  | nil => simp [flatten]
  | cons row rows ih =>
    rw [flatten, Array.size_append, ih fun r hr => h r (List.mem_cons_of_mem _ hr),
      h row List.mem_cons_self, List.length_cons, Nat.succ_mul]

theorem represents_start (featureCount : Nat) :
    (start featureCount).Represents (.start featureCount) where
  size row hrow := by
    rw [List.mem_singleton.1 hrow]
    exact Array.size_replicate
  values := by simp [start, Flag.Stack.start, Flag.Stack.rows, flatten, Flag.Row.neutral]

namespace Represents

variable {f : FlatStack} {s : Flag.Stack} (h : f.Represents s)
include h

theorem size_top : s.top.size = f.featureCount := h.size _ List.mem_cons_self

theorem values_eq : f.values = flatten s.below ++ s.top := h.values

theorem top_eq : f.top = .ok (flatten s.below).size := by
  rw [top, h.values_eq, Array.size_append, h.size_top, minus_add]

theorem suffix_eq : suffix f.values (flatten s.below).size = .ok s.top := by
  unfold suffix
  rw [h.values_eq, if_pos (by rw [Array.size_append]; omega)]
  simp

theorem current_eq : f.current = .ok s.top := by
  rw [current, h.top_eq, ok_bind, h.suffix_eq]

theorem extended_eq : f.extended (flatten s.below).size = .ok (flatten s.rows ++ s.top) := by
  rw [extended, h.suffix_eq, ok_bind, h.values]
  rfl

theorem cons {row : Row} (hrow : row.size = f.featureCount) :
    Represents { f with values := flatten s.rows ++ row } ⟨row, s.rows⟩ where
  size r hr := by
    rcases List.mem_cons.1 hr with rfl | hr
    · exact hrow
    · exact h.size r hr
  values := rfl

omit h in
theorem verdict_eq {o : Operation} (ho : o.operator = .negativeSet → o.value ≠ Int32.minValue)
    (current : Int32) : verdict o current = .ok (o.check current) := by
  unfold verdict Flag.Operation.check
  cases hop : o.operator with
  | negativeSet => simp only [negate, if_neg (ho hop), ok_bind]; rfl
  | _ => rfl

theorem get_eq {i : Nat} {current : Int32} (hi : s.top[i]? = some current) :
    get f.values ((flatten s.below).size + i) = .ok current := by
  refine get_eq_ok ?_
  rw [h.values_eq, Array.getElem?_append_right (by omega), Nat.add_sub_cancel_left, hi]

theorem set_eq {i : Nat} (hi : i < f.featureCount) (value : Int32) :
    set (flatten s.rows ++ s.top) ((flatten s.below).size + f.featureCount + i) value =
      .ok (flatten s.rows ++ s.top.setIfInBounds i value) := by
  have hsize : (flatten s.below).size + f.featureCount = (flatten s.rows).size := by
    rw [Flag.Stack.rows, flatten, Array.size_append, h.size_top]
  have htop := h.size_top
  unfold set
  rw [hsize, if_pos (by rw [Array.size_append]; omega), Array.setIfInBounds_append_right (by omega),
    Nat.add_sub_cancel_left]

/-- A push never fails, and does what it does on the rows. -/
theorem push?_eq {o : Operation} (ho : o.operator = .negativeSet → o.value ≠ Int32.minValue) :
    ∃ r, f.push? o = .ok r ∧ Option.Rel Represents r (s.push? o) := by
  have htop := h.size_top
  unfold push? Flag.Stack.push? Flag.Row.after?
  by_cases hfeature : f.featureCount ≤ o.feature.toNat
  · have hnone : s.top[o.feature.toNat]? = none := Array.getElem?_eq_none (by omega)
    rw [if_pos hfeature, hnone]
    exact ⟨none, rfl, .none⟩
  · have hlt : o.feature.toNat < s.top.size := by omega
    have hcurrent : s.top[o.feature.toNat]? = some s.top[o.feature.toNat] :=
      Array.getElem?_eq_getElem hlt
    rw [if_neg hfeature, hcurrent]
    simp only [h.top_eq, ok_bind, h.get_eq hcurrent, verdict_eq ho, h.extended_eq]
    cases o.check s.top[o.feature.toNat] with
    | reject => exact ⟨none, rfl, .none⟩
    | accept => exact ⟨_, rfl, .some (h.cons htop)⟩
    | update value =>
      simp only [ok_bind, h.set_eq (show o.feature.toNat < f.featureCount by omega)]
      exact ⟨_, rfl, .some (h.cons (by rw [Array.size_setIfInBounds, htop]))⟩

theorem depth_eq (hfeatures : f.featureCount ≠ 0) : f.depth = s.rows.length := by
  unfold depth
  rw [if_neg hfeatures, h.values, size_flatten h.size,
    Nat.mul_div_cancel _ (Nat.pos_of_ne_zero hfeatures)]

theorem pop_eq : ∃ f', f.pop = .ok f' ∧ f'.Represents s.pop := by
  obtain ⟨row, below⟩ := s
  unfold pop
  by_cases hfeatures : f.featureCount = 0
  · -- Rows without features take no place in the array.
    have hempty {rows : List Row} (hrows : ∀ r ∈ rows, r.size = f.featureCount) :
        flatten rows = #[] := Array.eq_empty_of_size_eq_zero (by
          rw [size_flatten hrows, hfeatures, Nat.mul_zero])
    refine ⟨f, if_neg (by simp [depth, hfeatures]), ?_⟩
    cases below with
    | nil => exact h
    | cons row' rows =>
      have hrest : ∀ r ∈ row' :: rows, r.size = f.featureCount := fun r hr =>
        h.size r (List.mem_cons_of_mem _ hr)
      exact ⟨hrest, by rw [h.values, hempty h.size]; exact (hempty hrest).symm⟩
  · rw [h.depth_eq hfeatures]
    cases below with
    | nil => exact ⟨f, if_neg (by simp [Flag.Stack.rows]), h⟩
    | cons row' rows =>
      rw [if_pos (by simp [Flag.Stack.rows]), h.top_eq, ok_bind]
      refine ⟨_, rfl, fun r hr => h.size r (List.mem_cons_of_mem _ hr), ?_⟩
      show f.values.take _ = _
      rw [h.values_eq]
      simp [Flag.Stack.pop, Flag.Stack.rows]

end Represents

end FlatStack

end TransducerLookup.Checked
