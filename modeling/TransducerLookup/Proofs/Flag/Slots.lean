import Mathlib.Logic.Basic
import TransducerLookup.Flag.Stack

/-!
# The slots of a row

An operation reads and writes the slot of its own feature and no other. So a
run of operations does to each slot what the operations on its feature do alone
(`foldlM_after?_eq_some_iff`), and the slot holds what the last of them that
sets a value gave it (`slotAfter?_eq_some`).
-/

namespace TransducerLookup.Flag

/-- Whether the operator sets a value, and does not only test one. -/
def Operator.sets : Operator → Bool
  | require => false
  | disallow => false
  | _ => true

namespace Operation

/-- The value of the feature after the operation, `none` if the operation is rejected. -/
def slot? (o : Operation) (current : Int32) : Option Int32 :=
  match o.check current with
  | .reject => none
  | .accept => some current
  | .update value => some value

def given (o : Operation) : Int32 :=
  match o.operator with
  | .negativeSet => -o.value
  | .clear => neutral
  | _ => o.value

theorem slot?_eq (o : Operation) (current : Int32) : o.slot? current =
    if o.check current = .reject then none
    else some (if o.operator.sets then o.given else current) := by
  unfold slot? check given
  cases o.operator with
  | require =>
    dsimp only
    cases o.requirementHolds current <;> rfl
  | disallow =>
    dsimp only
    cases o.requirementHolds current <;> rfl
  | unify =>
    dsimp only
    by_cases h : current = neutral ∨ current = o.value ∨ current < 0
    · rw [if_pos h]
      rfl
    · rw [if_neg h]
      rfl
  | _ => rfl

theorem isSome_slot?_iff {o : Operation} {current : Int32} :
    (o.slot? current).isSome ↔ o.check current ≠ .reject := by
  rw [slot?_eq]
  split <;> simp_all

end Operation

/-! ## One operation on a row -/

namespace Row

variable {row row' : Row} {o : Operation}

theorem after?_eq (row : Row) (o : Operation) : row.after? o =
    row[o.feature.toNat]?.bind fun current =>
      (o.slot? current).map (row.setIfInBounds o.feature.toNat) := by
  unfold after? Operation.slot?
  cases hcurrent : row[o.feature.toNat]? with
  | none => rfl
  | some current =>
    simp only [Option.bind_some]
    cases o.check current with
    | reject => rfl
    | update value => rfl
    | accept =>
      refine congrArg some (Array.ext_getElem? fun i => ?_)
      rw [Array.getElem?_setIfInBounds]
      by_cases hi : o.feature.toNat = i
      · subst hi
        rw [if_pos rfl, if_pos (Array.getElem?_eq_some_iff.1 hcurrent).1, hcurrent]
      · rw [if_neg hi]

theorem isSome_after?_iff : (row.after? o).isSome ↔
    ∃ current, row[o.feature.toNat]? = some current ∧ o.check current ≠ .reject := by
  rw [after?_eq]
  cases row[o.feature.toNat]? with
  | none => simp
  | some current => simp [Operation.isSome_slot?_iff]

theorem getElem?_of_after? (h : row.after? o = some row') (i : Nat) :
    row'[i]? = if o.feature.toNat = i then row[i]?.bind o.slot? else row[i]? := by
  rw [after?_eq] at h
  obtain ⟨current, hcurrent, h⟩ := Option.bind_eq_some_iff.1 h
  obtain ⟨value, hvalue, rfl⟩ := Option.map_eq_some_iff.1 h
  rw [Array.getElem?_setIfInBounds]
  by_cases hi : o.feature.toNat = i
  · subst hi
    rw [if_pos rfl, if_pos rfl, if_pos (Array.getElem?_eq_some_iff.1 hcurrent).1, hcurrent,
      Option.bind_some, hvalue]
  · rw [if_neg hi, if_neg hi]

end Row

/-! ## Runs of operations -/

def onFeature (ops : List Operation) (feature : Nat) : List Operation :=
  ops.filter (·.feature.toNat = feature)

/-- The value of a feature after these operations on it, `none` if one of them is rejected. -/
def slotAfter? (ops : List Operation) (current : Int32) : Option Int32 :=
  ops.foldlM (fun current o => o.slot? current) current

theorem onFeature_cons (o : Operation) (ops : List Operation) (feature : Nat) :
    onFeature (o :: ops) feature =
      if o.feature.toNat = feature then o :: onFeature ops feature else onFeature ops feature := by
  simp only [onFeature, List.filter_cons, decide_eq_true_eq]

theorem onFeature_onFeature (ops : List Operation) (feature other : Nat) :
    onFeature (onFeature ops feature) other = if other = feature then onFeature ops feature else [] := by
  unfold onFeature
  rw [List.filter_filter]
  split
  · next h => subst h; simp
  · next h =>
    refine List.filter_eq_nil_iff.2 fun o _ => ?_
    simp only [Bool.and_eq_true, decide_eq_true_eq, not_and]
    rintro rfl
    exact h

/-- Operations on different features can stand in any order. -/
theorem onFeature_swap (before after : List Operation) {a b : Operation}
    (hne : a.feature ≠ b.feature) (feature : Nat) :
    onFeature (before ++ a :: b :: after) feature = onFeature (before ++ b :: a :: after) feature := by
  unfold onFeature
  rw [List.filter_append, List.filter_append]
  refine congrArg (before.filter (·.feature.toNat = feature) ++ ·) ?_
  by_cases ha : a.feature.toNat = feature
  · have hb : b.feature.toNat ≠ feature := fun hb => hne (UInt16.toNat_inj.1 (ha.trans hb.symm))
    simp [ha, hb]
  · simp [List.filter_cons, ha]

namespace Row

variable {row row' : Row} {o : Operation}

theorem bind_slotAfter?_of_after? (h : row.after? o = some row') (ops : List Operation) (i : Nat) :
    row'[i]?.bind (slotAfter? (onFeature ops i)) =
      row[i]?.bind (slotAfter? (onFeature (o :: ops) i)) := by
  rw [getElem?_of_after? h, onFeature_cons]
  split
  · rw [Option.bind_assoc]
    rfl
  · rfl

/-- A run leaves in every slot what the operations on its feature leave there. -/
theorem foldlM_after?_eq_some_iff {ops : List Operation}
    (hops : ∀ o ∈ ops, o.feature.toNat < row.size) :
    ops.foldlM after? row = some row' ↔ row'.size = row.size ∧
      ∀ i < row.size, row'[i]? = row[i]?.bind (slotAfter? (onFeature ops i)) := by
  induction ops generalizing row with
  | nil =>
    have hslots (i : Nat) : row[i]?.bind (slotAfter? (onFeature [] i)) = row[i]? := by
      cases row[i]? <;> rfl
    simp only [hslots, List.foldlM_nil]
    constructor
    · intro h
      obtain rfl := Option.some.inj h
      exact ⟨rfl, fun i _ => rfl⟩
    · rintro ⟨hsize, h⟩
      refine congrArg some (Array.ext hsize.symm fun i hi hi' => ?_)
      have := h i hi
      rw [Array.getElem?_eq_getElem hi, Array.getElem?_eq_getElem hi'] at this
      exact (Option.some.inj this).symm
  | cons o ops ih =>
    have hlt : o.feature.toNat < row.size := hops o List.mem_cons_self
    have htail {next : Row} (h : row.after? o = some next) :
        ∀ o ∈ ops, o.feature.toNat < next.size :=
      fun o ho => size_of_after? h ▸ hops o (List.mem_cons_of_mem _ ho)
    rw [List.foldlM_cons]
    constructor
    · intro h
      obtain ⟨next, hnext, h⟩ := Option.bind_eq_some_iff.1 h
      obtain ⟨hsize, hslots⟩ := (ih (htail hnext)).1 h
      rw [size_of_after? hnext] at hsize hslots
      exact ⟨hsize, fun i hi => by rw [hslots i hi, bind_slotAfter?_of_after? hnext]⟩
    · rintro ⟨hsize, hslots⟩
      -- The slot of the first operation tells that it is accepted.
      have hslot := hslots _ hlt
      rw [onFeature_cons, if_pos rfl, Array.getElem?_eq_getElem hlt,
        Array.getElem?_eq_getElem (hsize ▸ hlt), Option.bind_some] at hslot
      obtain ⟨value, hvalue, -⟩ := Option.bind_eq_some_iff.1 hslot.symm
      have haccepted : (row.after? o).isSome := isSome_after?_iff.2
        ⟨_, Array.getElem?_eq_getElem hlt, Operation.isSome_slot?_iff.1 (Option.isSome_of_eq_some hvalue)⟩
      obtain ⟨next, hnext⟩ := Option.isSome_iff_exists.1 haccepted
      refine Option.bind_eq_some_iff.2 ⟨next, hnext, (ih (htail hnext)).2 ?_⟩
      rw [size_of_after? hnext]
      exact ⟨hsize, fun i hi => by rw [hslots i hi, bind_slotAfter?_of_after? hnext]⟩

/-- A run is accepted if and only if on every feature it is. -/
theorem isSome_foldlM_after?_iff {ops : List Operation}
    (hops : ∀ o ∈ ops, o.feature.toNat < row.size) :
    (ops.foldlM after? row).isSome ↔
      ∀ i < row.size, (row[i]?.bind (slotAfter? (onFeature ops i))).isSome := by
  rw [Option.isSome_iff_exists]
  constructor
  · rintro ⟨row', h⟩ i hi
    obtain ⟨hsize, hslots⟩ := (foldlM_after?_eq_some_iff hops).1 h
    rw [← hslots i hi, Array.getElem?_eq_getElem (hsize ▸ hi)]
    rfl
  · intro h
    refine ⟨.ofFn fun i : Fin row.size => (row[i]?.bind (slotAfter? (onFeature ops i))).get (h i i.isLt),
      (foldlM_after?_eq_some_iff hops).2 ⟨Array.size_ofFn, fun i hi => ?_⟩⟩
    rw [Array.getElem?_ofFn, dif_pos hi, Option.some_get]
    rfl

end Row

/-! ## The last value -/

/-- The last operation on the feature that sets a value. -/
def lastSetting? (ops : List Operation) (feature : Nat) : Option Operation :=
  ((onFeature ops feature).filter (·.operator.sets)).getLast?

/-- The value of a feature after this last setting. -/
def valueOf (last : Option Operation) : Int32 := last.elim neutral Operation.given

/-- A feature holds what it was last given. -/
theorem slotAfter?_eq_some {ops : List Operation} {current value : Int32}
    (h : slotAfter? ops current = some value) :
    value = (ops.filter (·.operator.sets)).getLast?.elim current Operation.given := by
  induction ops generalizing current with
  | nil => exact (Option.some.inj h).symm
  | cons o ops ih =>
    obtain ⟨next, hnext, h⟩ := Option.bind_eq_some_iff.1 h
    have hnext := (o.slot?_eq current).symm.trans hnext
    split at hnext
    · cases hnext
    · obtain rfl := Option.some.inj hnext
      rw [ih h, List.filter_cons]
      cases hsets : o.operator.sets with
      | false => rfl
      | true =>
        rw [if_pos rfl, if_pos rfl, List.getLast?_cons]
        cases (ops.filter (·.operator.sets)).getLast? <;> rfl

/-! ## Pushing in order -/

namespace Stack

variable {s s' : Stack} {ops : List Operation}

/-- The stack after these flags, `none` if one of them is refused. -/
def pushAll? (s : Stack) (ops : List Operation) : Option Stack := ops.foldlM push? s

/-- The stack after these flags, of which those that are refused change nothing. -/
def pushEach (s : Stack) (ops : List Operation) : Stack :=
  ops.foldl (fun s o => (s.push? o).getD s) s

def accepted (s : Stack) : List Operation → List Operation
  | [] => []
  | o :: ops =>
    match s.push? o with
    | none => s.accepted ops
    | some s' => o :: s'.accepted ops

theorem accepted_sublist (s : Stack) (ops : List Operation) : (s.accepted ops).Sublist ops := by
  induction ops generalizing s with
  | nil => exact .slnil
  | cons o ops ih =>
    unfold accepted
    split
    · exact (ih s).cons o
    · exact (ih _).cons_cons o

theorem pushAll?_accepted (s : Stack) (ops : List Operation) :
    s.pushAll? (s.accepted ops) = some (s.pushEach ops) := by
  induction ops generalizing s with
  | nil => rfl
  | cons o ops ih =>
    unfold accepted pushEach
    rw [List.foldl_cons]
    cases hpush : s.push? o with
    | none => exact ih s
    | some s' =>
      rw [pushAll?, List.foldlM_cons, hpush]
      exact ih s'

theorem accepted_of_pushAll? (h : s.pushAll? ops = some s') : s.accepted ops = ops := by
  induction ops generalizing s with
  | nil => rfl
  | cons o ops ih =>
    obtain ⟨next, hnext, h⟩ := Option.bind_eq_some_iff.1 h
    rw [accepted, hnext]
    exact congrArg (o :: ·) (ih h)

theorem isSome_push?_iff {o : Operation} : (s.push? o).isSome ↔
    ∃ current, s.top[o.feature.toNat]? = some current ∧ o.check current ≠ .reject := by
  rw [push?, Option.isSome_map]
  exact Row.isSome_after?_iff

theorem map_top_pushAll? (s : Stack) (ops : List Operation) :
    (s.pushAll? ops).map top = ops.foldlM Row.after? s.top := by
  unfold pushAll?
  induction ops generalizing s with
  | nil => rfl
  | cons o ops ih =>
    rw [List.foldlM_cons, List.foldlM_cons, push?]
    cases s.top.after? o with
    | none => rfl
    | some row => exact ih ⟨row, s.rows⟩

theorem size_top_start (n : Nat) : (start n).top.size = n := Array.size_replicate

theorem getElem?_top_start {n i : Nat} (hi : i < n) : (start n).top[i]? = some neutral := by
  show (Array.replicate n neutral)[i]? = some neutral
  rw [Array.getElem?_replicate, if_pos hi]

variable {n : Nat} (hops : ∀ o ∈ ops, o.feature.toNat < n)
include hops

/-- Flags are all accepted if and only if those on each feature are. -/
theorem isSome_pushAll?_iff : ((start n).pushAll? ops).isSome ↔
    ∀ i < n, (slotAfter? (onFeature ops i) neutral).isSome := by
  rw [← size_top_start n] at hops
  rw [← Option.isSome_map, map_top_pushAll?, Row.isSome_foldlM_after?_iff hops, size_top_start]
  refine forall₂_congr fun i hi => ?_
  rw [getElem?_top_start hi, Option.bind_some]

theorem getElem?_top_of_pushAll? (h : (start n).pushAll? ops = some s) {i : Nat} (hi : i < n) :
    s.top[i]? = slotAfter? (onFeature ops i) neutral := by
  rw [← size_top_start n] at hops
  have hrow : ops.foldlM Row.after? (start n).top = some s.top := by
    rw [← map_top_pushAll?, h]
    rfl
  obtain ⟨-, hslots⟩ := (Row.foldlM_after?_eq_some_iff hops).1 hrow
  rw [size_top_start] at hslots
  rw [hslots i hi, getElem?_top_start hi, Option.bind_some]

omit hops in
theorem lt_of_mem_onFeature {i : Nat} (hi : i < n) :
    ∀ o ∈ onFeature ops i, o.feature.toNat < n := by
  intro o ho
  rw [of_decide_eq_true (List.mem_filter.1 ho).2]
  exact hi

omit hops in
theorem isSome_pushAll?_onFeature_iff {i : Nat} (hi : i < n) :
    ((start n).pushAll? (onFeature ops i)).isSome ↔ (slotAfter? (onFeature ops i) neutral).isSome := by
  rw [isSome_pushAll?_iff (lt_of_mem_onFeature hi)]
  constructor
  · intro h
    have hslot := h i hi
    rwa [onFeature_onFeature, if_pos rfl] at hslot
  · intro h j _
    rw [onFeature_onFeature]
    split
    · exact h
    · rfl

theorem exists_pushAll?_onFeature (h : (start n).pushAll? ops = some s) {i : Nat} (hi : i < n) :
    ∃ alone, (start n).pushAll? (onFeature ops i) = some alone ∧ s.top[i]? = alone.top[i]? := by
  have haccepted := (isSome_pushAll?_iff hops).1 (Option.isSome_of_eq_some h) i hi
  obtain ⟨alone, halone⟩ :=
    Option.isSome_iff_exists.1 ((isSome_pushAll?_onFeature_iff hi).2 haccepted)
  refine ⟨alone, halone, ?_⟩
  rw [getElem?_top_of_pushAll? hops h hi,
    getElem?_top_of_pushAll? (lt_of_mem_onFeature hi) halone hi, onFeature_onFeature, if_pos rfl]

theorem map_top_pushAll?_congr {ops' : List Operation} (hops' : ∀ o ∈ ops', o.feature.toNat < n)
    (h : ∀ i, onFeature ops i = onFeature ops' i) :
    ((start n).pushAll? ops).map top = ((start n).pushAll? ops').map top := by
  rw [← size_top_start n] at hops hops'
  refine Option.ext fun row => ?_
  rw [map_top_pushAll?, map_top_pushAll?, Row.foldlM_after?_eq_some_iff hops,
    Row.foldlM_after?_eq_some_iff hops']
  simp only [h]

/-- What a feature holds is decided by the last setting of it. -/
theorem getElem?_top_eq_valueOf (h : (start n).pushAll? ops = some s) {i : Nat} (hi : i < n) :
    s.top[i]? = some (valueOf (lastSetting? ops i)) := by
  have haccepted := (isSome_pushAll?_iff hops).1 (Option.isSome_of_eq_some h) i hi
  obtain ⟨value, hvalue⟩ := Option.isSome_iff_exists.1 haccepted
  rw [getElem?_top_of_pushAll? hops h hi, hvalue, slotAfter?_eq_some hvalue]
  rfl

end Stack

/-! ## Tests -/

namespace Operation

variable {o : Operation} {current : Int32}

theorem check_require (ho : o.operator = .require) : o.check current ≠ .reject ↔
    if o.value = neutral then current ≠ neutral else current = o.value := by
  simp only [check, ho, requirementHolds]
  split <;> simp

theorem check_disallow (ho : o.operator = .disallow) : o.check current ≠ .reject ↔
    ¬ ({ o with operator := .require } : Operation).check current ≠ .reject := by
  simp only [check, ho]
  change _ ↔ ¬ (if o.requirementHolds current then Verdict.accept else Verdict.reject) ≠ .reject
  cases o.requirementHolds current <;> decide

theorem check_unify (ho : o.operator = .unify) : o.check current = .reject ↔
    0 < current ∧ current ≠ o.value := by
  have hsign : 0 < current ↔ current ≠ neutral ∧ ¬ current < 0 := by
    simp only [neutral, ne_eq, ← Int32.toInt_inj, Int32.lt_iff_toInt_lt, Int32.toInt_zero]
    omega
  simp only [check, ho, hsign]
  split
  · next h =>
    exact iff_of_false nofun fun ⟨⟨hneutral, hnonneg⟩, hne⟩ =>
      h.elim hneutral fun h => h.elim hne hnonneg
  · next h =>
    exact iff_of_true rfl
      ⟨⟨fun e => h (.inl e), fun e => h (.inr (.inr e))⟩, fun e => h (.inr (.inl e))⟩

end Operation

theorem mem_of_lastSetting? {ops : List Operation} {feature : Nat} {p : Operation}
    (h : lastSetting? ops feature = some p) : p ∈ ops ∧ p.operator.sets := by
  obtain ⟨hmem, hsets⟩ := List.mem_filter.1 (List.mem_of_getLast? h)
  exact ⟨(List.mem_filter.1 hmem).1, hsets⟩

/-- No value is the negated other one, except the neutral value. -/
theorem neg_ne {p value : Int32} (hp : 0 ≤ p) (hvalue : 0 ≤ value) (hne : value ≠ neutral) :
    -p ≠ value := by
  have hlt := p.toInt_lt
  rw [Int32.le_iff_toInt_le, Int32.toInt_zero] at hp hvalue
  rw [neutral, ne_eq, ← Int32.toInt_inj, Int32.toInt_zero] at hne
  rw [ne_eq, ← Int32.toInt_inj, Int32.toInt_neg, Int.bmod_eq_of_le (by omega) (by omega)]
  omega

/-- A feature has a value, and not a neutral one, if and only if this value was set or unified
last. -/
theorem valueOf_eq_iff {ops : List Operation} (hvalues : ∀ o ∈ ops, 0 ≤ o.value) {feature : Nat}
    {value : Int32} (hvalue : 0 ≤ value) (hne : value ≠ neutral) :
    valueOf (lastSetting? ops feature) = value ↔ ∃ p, lastSetting? ops feature = some p ∧
      (p.operator = .positiveSet ∨ p.operator = .unify) ∧ p.value = value := by
  cases hlast : lastSetting? ops feature with
  | none => simpa [valueOf] using hne.symm
  | some p =>
    obtain ⟨hmem, hsets⟩ := mem_of_lastSetting? hlast
    simp only [valueOf, Option.elim_some, Operation.given, Option.some.injEq, exists_eq_left']
    cases hop : p.operator with
    | positiveSet => simp
    | unify => simp
    | clear => simpa using hne.symm
    | negativeSet => simpa using neg_ne (hvalues p hmem) hvalue hne
    | require => rw [hop] at hsets; cases hsets
    | disallow => rw [hop] at hsets; cases hsets

end TransducerLookup.Flag
