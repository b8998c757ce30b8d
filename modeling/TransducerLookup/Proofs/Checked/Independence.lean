import TransducerLookup.Proofs.Checked.FlagRows

/-!
# Features are independent

Flags pushed in order on a stack with many features are accepted if and only if
those on each feature are when they are pushed alone, and they leave in its slot
what these leave there. A flag that tests a feature looks at its last setting
only.
-/

namespace TransducerLookup.Checked

open TransducerLookup.Flag (Operation Stack onFeature lastSetting? valueOf)

namespace FlatStack

/-- Pushes flags in order up to the first that is refused. -/
def pushAll? (f : FlatStack) : List Operation → Checked (Option FlatStack)
  | [] => return some f
  | o :: ops => do
    match ← f.push? o with
    | none => return none
    | some f => f.pushAll? ops

theorem Holds.pushAll? {f : FlatStack} {s : Stack} (h : f.Holds s) {ops : List Operation}
    (hops : ∀ o ∈ ops, (Action.push o).Allowed) :
    ∃ r, f.pushAll? ops = .ok r ∧ Option.Rel Holds r (s.pushAll? ops) := by
  induction ops generalizing f s with
  | nil => exact ⟨some f, rfl, .some h⟩
  | cons o ops ih =>
    obtain ⟨r, hr, hrel⟩ := h.push (hops o List.mem_cons_self)
    rw [FlatStack.pushAll?, hr, ok_bind, Stack.pushAll?, List.foldlM_cons]
    generalize s.push? o = pushed at hrel
    cases hrel with
    | none => exact ⟨none, rfl, .none⟩
    | some hf => exact ih hf fun o ho => hops o (List.mem_cons_of_mem _ ho)

end FlatStack

/-- On this stack the last setting of its feature decides whether the flag is accepted. -/
structure Tests (s : Stack) (o : Operation) (last : Option Operation) : Prop where
  slot : s.top[o.feature.toNat]? = some (valueOf last)
  accepted : (s.push? o).isSome ↔ o.check (valueOf last) ≠ .reject
  require_value : o.operator = .require → o.value ≠ Flag.neutral → ((s.push? o).isSome ↔
    ∃ p, last = some p ∧ (p.operator = .positiveSet ∨ p.operator = .unify) ∧ p.value = o.value)
  require_any : o.operator = .require → o.value = Flag.neutral →
    ((s.push? o).isSome ↔ valueOf last ≠ Flag.neutral)
  disallow : o.operator = .disallow →
    ((s.push? o).isSome ↔ ¬ (s.push? { o with operator := .require }).isSome)
  unify : o.operator = .unify → (s.push? o = none ↔ 0 < valueOf last ∧ valueOf last ≠ o.value)

theorem tests_of_pushAll? {n : Nat} {ops : List Operation} {s : Stack}
    (hfeatures : ∀ o ∈ ops, o.feature.toNat < n) (hvalues : ∀ o ∈ ops, 0 ≤ o.value)
    (hs : (Stack.start n).pushAll? ops = some s) {o : Operation} (ho : o.feature.toNat < n)
    (hvalue : 0 ≤ o.value) : Tests s o (lastSetting? ops o.feature.toNat) := by
  have hslot := Stack.getElem?_top_eq_valueOf hfeatures hs ho
  have haccepted (o' : Operation) (ho' : o'.feature = o.feature) :
      (s.push? o').isSome ↔ o'.check (valueOf (lastSetting? ops o.feature.toNat)) ≠ .reject := by
    rw [Stack.isSome_push?_iff, ho', hslot]
    simp
  refine ⟨hslot, haccepted o rfl, fun hop hne => ?_, fun hop heq => ?_, fun hop => ?_, fun hop => ?_⟩
  · rw [haccepted o rfl, Operation.check_require hop, if_neg hne]
    exact Flag.valueOf_eq_iff hvalues hvalue hne
  · rw [haccepted o rfl, Operation.check_require hop, if_pos heq]
  · rw [haccepted o rfl, haccepted { o with operator := .require } rfl, Operation.check_disallow hop]
  · rw [← Operation.check_unify hop, ← not_iff_not]
    exact Option.isSome_iff_ne_none.symm.trans (haccepted o rfl)

/-- Flags pushed in order are all accepted if and only if on every feature they are alone, and
leave in its slot what these leave. Two flags next to each other on different features can change
places. After any flags, accepted or not, whether one more is accepted depends on the last setting
of its feature only. The stack in one array does the same. -/
theorem features_independent {n : Nat} {ops : List Operation}
    (hfeatures : ∀ o ∈ ops, o.feature.toNat < n) (hvalues : ∀ o ∈ ops, 0 ≤ o.value) :
    (((Stack.start n).pushAll? ops).isSome ↔
      ∀ i < n, ((Stack.start n).pushAll? (onFeature ops i)).isSome) ∧
    (∀ s, (Stack.start n).pushAll? ops = some s →
      (Stack.start n).pushEach ops = s ∧ (Stack.start n).accepted ops = ops ∧
      ∀ i < n, ∃ alone, (Stack.start n).pushAll? (onFeature ops i) = some alone ∧
        s.top[i]? = alone.top[i]?) ∧
    (∀ before a b after, ops = before ++ a :: b :: after → a.feature ≠ b.feature →
      ((Stack.start n).pushAll? ops).map (·.top) =
        ((Stack.start n).pushAll? (before ++ b :: a :: after)).map (·.top)) ∧
    (∀ o : Operation, o.feature.toNat < n → 0 ≤ o.value → Tests ((Stack.start n).pushEach ops) o
      (lastSetting? ((Stack.start n).accepted ops) o.feature.toNat)) ∧
    ∃ r, (FlatStack.start n).pushAll? ops = .ok r ∧
      Option.Rel FlatStack.Holds r ((Stack.start n).pushAll? ops) := by
  refine ⟨?_, fun s hs => ?_, ?_, fun o ho hvalue => ?_, ?_⟩
  · rw [Stack.isSome_pushAll?_iff hfeatures]
    exact forall₂_congr fun i hi => (Stack.isSome_pushAll?_onFeature_iff hi).symm
  · have haccepted := Stack.accepted_of_pushAll? hs
    have heach := Stack.pushAll?_accepted (.start n) ops
    rw [haccepted, hs] at heach
    exact ⟨(Option.some.inj heach).symm, haccepted,
      fun i hi => Stack.exists_pushAll?_onFeature hfeatures hs hi⟩
  · rintro before a b after rfl hne
    refine Stack.map_top_pushAll?_congr hfeatures (fun o ho => hfeatures o ?_)
      (Flag.onFeature_swap before after hne)
    exact ((List.Perm.swap a b after).append_left before).mem_iff.1 ho
  · have hsublist := Stack.accepted_sublist (.start n) ops
    exact tests_of_pushAll? (fun o ho => hfeatures o (hsublist.subset ho))
      (fun o ho => hvalues o (hsublist.subset ho)) (Stack.pushAll?_accepted (.start n) ops) ho hvalue
  · refine (FlatStack.holds_start n).pushAll? fun o ho _ hmin => ?_
    have hvalue := hvalues o ho
    rw [hmin] at hvalue
    exact absurd hvalue (by decide)

/-- Two features in turn: the first is set and unified, the second is set to anything but a value. -/
def inTurn : List Operation := [⟨.positiveSet, 0, 1⟩, ⟨.negativeSet, 1, 2⟩, ⟨.unify, 0, 1⟩]

theorem features_independent_small :
    (∀ o ∈ inTurn, o.feature.toNat < 2) ∧ (∀ o ∈ inTurn, 0 ≤ o.value) ∧
    ((Stack.start 2).pushAll? inTurn).map (·.top) = ((Stack.start 2).pushAll?
      [⟨.negativeSet, 1, 2⟩, ⟨.positiveSet, 0, 1⟩, ⟨.unify, 0, 1⟩]).map (·.top) ∧
    (((Stack.start 2).pushEach inTurn).push? ⟨.require, 0, 1⟩).isSome := by
  have hfeatures : ∀ o ∈ inTurn, o.feature.toNat < 2 := by decide
  have hvalues : ∀ o ∈ inTurn, 0 ≤ o.value := by decide
  obtain ⟨-, -, hswap, htests, -⟩ := features_independent hfeatures hvalues
  have hrequire := htests ⟨.require, 0, 1⟩ (by decide) (by decide)
  have hlast : lastSetting? ((Stack.start 2).accepted inTurn) 0 = some ⟨.unify, 0, 1⟩ := by decide
  exact ⟨hfeatures, hvalues, hswap [] _ _ _ rfl (by decide),
    (hrequire.require_value rfl (by decide)).2 ⟨_, hlast, .inr rfl, rfl⟩⟩

end TransducerLookup.Checked
