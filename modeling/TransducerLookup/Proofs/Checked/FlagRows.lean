import Mathlib.Data.List.Infix
import TransducerLookup.Proofs.Checked.History
import TransducerLookup.Proofs.Flag.Slots

/-!
# The rows of the flag stack

Whatever was done with a lookup state, its flags are a stack of rows in one
array, with the neutral row at the bottom (`FlatStack.Holds`). A turn of a
search changes the flags at most by one accepted push or one pop, and so do
pushes and pops by hand. As long as these do not go below some row, this row
and those under it stay as they are (`suffix_rows_of_foldlM`).
-/

namespace TransducerLookup.Checked

namespace FlatStack

/-- The array holds these rows, the bottom row all neutral. Without features there is one row. -/
structure Holds (f : FlatStack) (s : Flag.Stack) : Prop extends Represents f s where
  bottom : s.rows.getLast? = some (.neutral f.featureCount)
  single : f.featureCount = 0 → s.below = []

/-- What can happen to the flags at once. -/
inductive Step (f : FlatStack) : FlatStack → Prop where
  | same : Step f f
  | push {o : Flag.Operation} {f' : FlatStack} : f.push? o = .ok (some f') → Step f f'
  | pop {f' : FlatStack} : f.pop = .ok f' → Step f f'

theorem holds_start (featureCount : Nat) : (start featureCount).Holds (.start featureCount) where
  toRepresents := represents_start featureCount
  bottom := rfl
  single _ := rfl

namespace Holds

variable {f f' : FlatStack} {s s' : Flag.Stack} (h : f.Holds s)
include h

theorem depth_eq_depth : f.depth = s.depth := by
  by_cases hfeatures : f.featureCount = 0
  · rw [depth, if_pos hfeatures, Flag.Stack.depth, Flag.Stack.rows, h.single hfeatures]
    rfl
  · exact h.depth_eq hfeatures

theorem flat_unique (h' : f'.Holds s) : f = f' := by
  have hcount : f.featureCount = f'.featureCount := h.size_top.symm.trans h'.size_top
  have hvalues : f.values = f'.values := h.values.trans h'.values.symm
  obtain ⟨count, values⟩ := f
  cases hcount
  cases hvalues
  rfl

theorem featureCount_eq (h' : f'.Represents s') {row : Flag.Row} (hrow : row ∈ s.rows)
    (hrow' : row ∈ s'.rows) : f'.featureCount = f.featureCount :=
  (h'.size row hrow').symm.trans (h.size row hrow)

theorem push {o : Flag.Operation} (ho : (Action.push o).Allowed) :
    ∃ r, f.push? o = .ok r ∧ Option.Rel Holds r (s.push? o) := by
  obtain ⟨r, hr, hrel⟩ := h.push?_eq ho
  refine ⟨r, hr, ?_⟩
  cases hs : s.push? o with
  | none =>
    rw [hs] at hrel
    cases hrel
    exact .none
  | some s' =>
    rw [hs] at hrel
    obtain @⟨f', _, hrep⟩ := hrel
    have hrows := Flag.Stack.rows_of_push? hs
    have htop : s.top ∈ s'.rows := by rw [hrows]; simp [Flag.Stack.rows]
    have hcount := h.featureCount_eq hrep List.mem_cons_self htop
    refine .some ⟨hrep, ?_, fun hzero => ?_⟩
    · rw [hrows, hcount, ← h.bottom]
      rfl
    · -- Without features no flag is accepted.
      rw [hcount] at hzero
      have hnone : s.top[o.feature.toNat]? = none :=
        Array.getElem?_eq_none (by rw [h.size_top, hzero]; exact Nat.zero_le _)
      rw [Flag.Stack.push?, Flag.Row.after?, hnone] at hs
      cases hs

theorem pop : ∃ f', f.pop = .ok f' ∧ f'.Holds s.pop := by
  obtain ⟨f', hf', hrep⟩ := h.pop_eq
  obtain ⟨top, below⟩ := s
  cases below with
  | nil =>
    have hcount := h.featureCount_eq hrep List.mem_cons_self List.mem_cons_self
    exact ⟨f', hf', hrep, by rw [hcount]; exact h.bottom, fun _ => rfl⟩
  | cons row rows =>
    have hcount := h.featureCount_eq hrep (List.mem_cons_of_mem _ List.mem_cons_self)
      List.mem_cons_self
    refine ⟨f', hf', hrep, by rw [hcount]; exact h.bottom, fun hzero => ?_⟩
    cases h.single (hcount ▸ hzero)

end Holds

/-- A flag that is accepted has a value that can be negated if it is to be. -/
theorem allowed_of_push? {f f' : FlatStack} {o : Flag.Operation}
    (h : f.push? o = .ok (some f')) : (Action.push o).Allowed := by
  intro hop hvalue
  unfold push? at h
  dsimp only at h
  split at h
  · cases h
  · obtain ⟨top, -, h⟩ := bind_eq_ok h
    obtain ⟨current, -, h⟩ := bind_eq_ok h
    obtain ⟨v, hverdict, -⟩ := bind_eq_ok h
    rw [verdict, hop, hvalue] at hverdict
    cases hverdict

theorem exists_of_rel_some {f : FlatStack} {pushed : Option Flag.Stack}
    (h : Option.Rel Holds (some f) pushed) : ∃ s, pushed = some s ∧ f.Holds s := by
  cases h with
  | some h => exact ⟨_, rfl, h⟩

theorem Holds.step {f f' : FlatStack} {s : Flag.Stack} (h : f.Holds s) (hstep : f.Step f') :
    ∃ s', f'.Holds s' := by
  cases hstep with
  | same => exact ⟨s, h⟩
  | push hpush =>
    obtain ⟨r, hr, hrel⟩ := h.push (allowed_of_push? hpush)
    rw [hpush] at hr
    obtain rfl := Except.ok.inj hr
    obtain ⟨s', -, hs'⟩ := exists_of_rel_some hrel
    exact ⟨s', hs'⟩
  | pop hpop =>
    obtain ⟨g, hg, hs'⟩ := h.pop
    rw [hpop] at hg
    obtain rfl := Except.ok.inj hg
    exact ⟨_, hs'⟩

end FlatStack

open FlatStack (Holds)

/-! ## Searches -/

namespace State

variable {t : Transducer} {s s' : State}

theorem flags_follow {pos : Nat} {edge : Search.Edge} {depth : Nat}
    (h : s.follow t pos edge depth = .ok s') : s'.flags = s.flags := by
  obtain ⟨frame, -, h⟩ := bind_eq_ok h
  rw [← pure_eq_ok h]

theorem step_tryEpsilon {f : Search.Frame} {below : List Search.Frame} {pos : Nat}
    (h : s.tryEpsilon t f below pos = .ok s') : s.flags.Step s'.flags := by
  unfold tryEpsilon at h
  dsimp only at h
  split at h
  · obtain ⟨after, -, h⟩ := bind_eq_ok h
    split at h
    · obtain ⟨depth, -, h⟩ := bind_eq_ok h
      rw [flags_follow h]
      exact .same
    · rw [← pure_eq_ok h]
      exact .same
  · split at h
    · rw [← pure_eq_ok h]
      exact .same
    · obtain ⟨after, -, h⟩ := bind_eq_ok h
      split at h
      · obtain ⟨pushed, hpushed, h⟩ := bind_eq_ok h
        cases pushed with
        | none =>
          rw [← pure_eq_ok h]
          exact .same
        | some flags =>
          obtain ⟨depth, -, h⟩ := bind_eq_ok h
          rw [flags_follow h]
          exact .push hpushed
      · rw [← pure_eq_ok h]
        exact .same

theorem step_arrive {f : Search.Frame} {below : List Search.Frame}
    (h : s.arrive t f below = .ok s') : s.flags.Step s'.flags := by
  obtain ⟨symbol, -, h⟩ := bind_eq_ok h
  split at h
  · split at h <;> rw [← pure_eq_ok h] <;> exact .same
  · obtain ⟨start, -, h⟩ := bind_eq_ok h
    cases start <;> rw [← pure_eq_ok h] <;> exact .same

theorem step_tryConsume {f : Search.Frame} {below : List Search.Frame} {pos : Nat}
    (h : s.tryConsume t f below pos = .ok s') : s.flags.Step s'.flags := by
  obtain ⟨symbol, -, h⟩ := bind_eq_ok h
  split at h
  · obtain ⟨after, -, h⟩ := bind_eq_ok h
    rw [flags_follow h]
    exact .same
  · rw [← pure_eq_ok h]
    exact .same

theorem step_leave {f : Search.Frame} {below : List Search.Frame}
    (h : s.leave f below = .ok s') : s.flags.Step s'.flags := by
  unfold leave at h
  split at h
  · rw [← pure_eq_ok h]
    exact .same
  · rw [← pure_eq_ok h]
    exact .same
  · obtain ⟨flags, hpop, h⟩ := bind_eq_ok h
    rw [← pure_eq_ok h]
    exact .pop hpop
  · obtain ⟨cursor, -, h⟩ := bind_eq_ok h
    rw [← pure_eq_ok h]
    exact .same

theorem step_turn (h : s.turn t = .ok s') : s.flags.Step s'.flags := by
  unfold turn at h
  split at h
  · rw [← pure_eq_ok h]
    exact .same
  · split at h
    · exact step_tryEpsilon h
    · exact step_arrive h
    · exact step_tryConsume h
    · exact step_leave h

theorem cases_of_loop {steps : Nat} (h : loop t steps s = .ok s') :
    s' = s ∨ steps < t.limits.maxSteps ∧ ∃ next, s.turn t = .ok next ∧
      loop t (steps + 1) next = .ok s' := by
  rw [loop] at h
  split at h
  · exact .inl (pure_eq_ok h).symm
  · split at h
    · cases h
    · next count hcount =>
      obtain rfl := increment_eq_ok hcount
      split at h
      · exact .inl (pure_eq_ok h).symm
      · next hlimit => exact .inr ⟨by omega, bind_eq_ok h⟩

/-- A search ends with a stack of rows, also if it is cut off. -/
theorem holds_loop {stack : Flag.Stack} (hflags : s.flags.Holds stack) {steps : Nat}
    (h : loop t steps s = .ok s') : ∃ stack', s'.flags.Holds stack' := by
  induction hturns : t.limits.maxSteps - steps generalizing steps s stack with
  | zero =>
    rcases cases_of_loop h with rfl | ⟨hlt, -⟩
    · exact ⟨stack, hflags⟩
    · omega
  | succ turns ih =>
    rcases cases_of_loop h with rfl | ⟨hlt, next, hturn, hloop⟩
    · exact ⟨stack, hflags⟩
    · obtain ⟨stack', hflags'⟩ := hflags.step (step_turn hturn)
      exact ih hflags' hloop (by omega)

theorem holds_lookup {stack : Flag.Stack} (hflags : s.flags.Holds stack) {text : String}
    {analyses : List Analysis} (h : s.lookup t text = .ok (analyses, s')) :
    ∃ stack', s'.flags.Holds stack' := by
  rw [lookup_eq] at h
  obtain ⟨tokens, -, h⟩ := bind_eq_ok h
  cases tokens with
  | none =>
    obtain ⟨-, rfl⟩ := Prod.mk.inj (pure_eq_ok h)
    exact ⟨stack, hflags⟩
  | some tokens =>
    obtain ⟨root, -, h⟩ := bind_eq_ok h
    obtain ⟨final, hloop, h⟩ := bind_eq_ok h
    obtain ⟨-, rfl⟩ := Prod.mk.inj (pure_eq_ok h)
    have hstart : (start t.alphabet.featureCount tokens [root]).flags.Holds
        (.start t.alphabet.featureCount) := FlatStack.holds_start t.alphabet.featureCount
    obtain ⟨stack', hflags'⟩ := holds_loop hstart hloop
    exact ⟨stack', hflags'⟩

end State

/-! ## Histories -/

namespace Action

variable {s s' : State} {stack : Flag.Stack}

theorem holds_apply (hflags : s.flags.Holds stack) {action : Action}
    (h : action.apply s = .ok s') : ∃ stack', s'.flags.Holds stack' := by
  cases action with
  | lookup t text =>
    obtain ⟨result, hlookup, h⟩ := bind_eq_ok h
    rw [← pure_eq_ok h]
    exact State.holds_lookup hflags hlookup
  | push o =>
    obtain ⟨pushed, hpushed, h⟩ := bind_eq_ok h
    cases pushed with
    | none =>
      rw [← pure_eq_ok h]
      exact ⟨stack, hflags⟩
    | some flags =>
      rw [← pure_eq_ok h]
      exact hflags.step (.push hpushed)
  | pop =>
    obtain ⟨flags, hpop, h⟩ := bind_eq_ok h
    rw [← pure_eq_ok h]
    exact hflags.step (.pop hpop)

theorem holds_foldlM (hflags : s.flags.Holds stack) {history : List Action}
    (h : history.foldlM apply s = .ok s') : ∃ stack', s'.flags.Holds stack' := by
  induction history generalizing s stack with
  | nil =>
    rw [← pure_eq_ok h]
    exact ⟨stack, hflags⟩
  | cons action history ih =>
    rw [List.foldlM_cons] at h
    obtain ⟨next, hnext, h⟩ := bind_eq_ok h
    obtain ⟨stack', hflags'⟩ := holds_apply hflags hnext
    exact ih hflags' h

/-! ## Flags by hand -/

def ByHand : Action → Prop
  | lookup _ _ => False
  | push _ => True
  | pop => True

theorem apply_push (hflags : s.flags.Holds stack) {o : Flag.Operation} (ho : (push o).Allowed) :
    ∃ r, s.flags.push? o = .ok r ∧ Option.Rel Holds r (stack.push? o) ∧
      (push o).apply s = .ok { s with flags := r.getD s.flags } := by
  obtain ⟨r, hr, hrel⟩ := hflags.push ho
  refine ⟨r, hr, hrel, ?_⟩
  rw [apply, hr, ok_bind]
  cases r <;> rfl

theorem apply_pop (hflags : s.flags.Holds stack) :
    ∃ f, s.flags.pop = .ok f ∧ f.Holds stack.pop ∧ pop.apply s = .ok { s with flags := f } := by
  obtain ⟨f, hf, hpop⟩ := hflags.pop
  refine ⟨f, hf, hpop, ?_⟩
  rw [apply, hf, ok_bind]
  rfl

theorem apply_byHand (hflags : s.flags.Holds stack) {action : Action} (hhand : action.ByHand)
    (hallowed : action.Allowed) : ∃ f stack', action.apply s = .ok { s with flags := f } ∧
      f.Holds stack' ∧ (stack.rows <:+ stack'.rows ∨ stack'.rows <:+ stack.rows) := by
  cases action with
  | lookup t text => cases hhand
  | push o =>
    obtain ⟨r, -, hrel, happly⟩ := apply_push hflags hallowed
    cases r with
    | none => exact ⟨_, stack, happly, hflags, .inl (List.suffix_refl _)⟩
    | some f =>
      obtain ⟨stack', hpush, hf⟩ := FlatStack.exists_of_rel_some hrel
      refine ⟨f, stack', happly, hf, .inl ?_⟩
      rw [Flag.Stack.rows_of_push? hpush]
      exact List.suffix_cons _ _
  | pop =>
    obtain ⟨f, -, hf, happly⟩ := apply_pop hflags
    refine ⟨f, stack.pop, happly, hf, .inr ?_⟩
    obtain ⟨top, below⟩ := stack
    cases below with
    | nil => exact List.suffix_refl _
    | cons row rows => exact List.suffix_cons _ _

/-- Pushes and pops never fail, and the rows below which they do not go stay as they are. -/
theorem suffix_rows_of_foldlM (hflags : s.flags.Holds stack) {moves : List Action}
    (hmoves : ∀ action ∈ moves, action.ByHand ∧ action.Allowed) (base : List Flag.Row) :
    ∃ f stack', moves.foldlM apply s = .ok { s with flags := f } ∧ f.Holds stack' ∧
      (base <:+ stack.rows →
        (∀ n s', (moves.take n).foldlM apply s = .ok s' → base.length ≤ s'.flags.depth) →
        base <:+ stack'.rows) := by
  -- After every move `base` lies at the bottom: a move adds to the rows or takes off them, and what
  -- is left is not less than `base`.
  induction moves generalizing s stack with
  | nil => exact ⟨s.flags, stack, rfl, hflags, fun hbase _ => hbase⟩
  | cons action moves ih =>
    obtain ⟨hhand, hallowed⟩ := hmoves action List.mem_cons_self
    obtain ⟨f, stack', happly, hf, hrows⟩ := apply_byHand hflags hhand hallowed
    obtain ⟨g, stack'', hfold, hg, hsuffix⟩ :=
      ih (s := { s with flags := f }) hf fun a ha => hmoves a (List.mem_cons_of_mem _ ha)
    have hstep (moves : List Action) :
        (action :: moves).foldlM apply s = moves.foldlM apply { s with flags := f } := by
      rw [List.foldlM_cons, happly, ok_bind]
    refine ⟨g, stack'', by rw [hstep, hfold], hg, fun hbase hdepth => hsuffix ?_ fun n s' hn => ?_⟩
    · have hle : base.length ≤ f.depth :=
        hdepth 1 { s with flags := f } (by rw [List.take_succ_cons, hstep]; rfl)
      rw [hf.depth_eq_depth] at hle
      rcases hrows with hrows | hrows
      · exact hbase.trans hrows
      · exact List.suffix_of_suffix_length_le hbase hrows hle
    · exact hdepth (n + 1) s' (by rw [List.take_succ_cons, hstep, hn])

/-- What pushing a flag does to the rows: it is accepted if and only if the check of the value in
the top row does not reject it, and then a copy of this row comes on top, which differs from it in
this feature at most. -/
structure Pushes (f : FlatStack) (stack : Flag.Stack) (o : Flag.Operation)
    (r : Option FlatStack) : Prop where
  accepted : r.isSome ↔ o.feature.toNat < f.featureCount ∧
    ∃ current, stack.top[o.feature.toNat]? = some current ∧ o.check current ≠ .reject
  copies : ∀ f', r = some f' → ∃ row, f'.Holds ⟨row, stack.rows⟩ ∧ row.size = stack.top.size ∧
    ∀ i, i ≠ o.feature.toNat → row[i]? = stack.top[i]?

theorem pushes (hflags : s.flags.Holds stack) {o : Flag.Operation} {r : Option FlatStack}
    (hrel : Option.Rel Holds r (stack.push? o)) : Pushes s.flags stack o r := by
  have hfeature {current : Int32} (h : stack.top[o.feature.toNat]? = some current) :
      o.feature.toNat < s.flags.featureCount :=
    hflags.size_top ▸ (Array.getElem?_eq_some_iff.1 h).1
  have hiff : r.isSome ↔ (stack.push? o).isSome := by
    generalize stack.push? o = pushed at hrel
    cases hrel <;> exact Iff.rfl
  refine ⟨?_, fun f' hf' => ?_⟩
  · rw [hiff, Flag.Stack.isSome_push?_iff]
    exact ⟨fun ⟨current, h, hcheck⟩ => ⟨hfeature h, current, h, hcheck⟩, And.right⟩
  · subst hf'
    obtain ⟨stack', hpush, hf'⟩ := FlatStack.exists_of_rel_some hrel
    obtain ⟨row, hrow, rfl⟩ := Option.map_eq_some_iff.1 hpush
    refine ⟨row, hf', Flag.Row.size_of_after? hrow, fun i hi => ?_⟩
    rw [Flag.Row.getElem?_of_after? hrow, if_neg hi.symm]

/-- Pushes and pops that never go below the rows there are, and leave as many. -/
structure Balanced (s : State) (moves : List Action) : Prop where
  byHand : ∀ action ∈ moves, action.ByHand ∧ action.Allowed
  above : ∀ n s', (moves.take n).foldlM apply s = .ok s' → s.flags.depth ≤ s'.flags.depth
  back : ∀ s', moves.foldlM apply s = .ok s' → s'.flags.depth = s.flags.depth

theorem Balanced.foldlM_eq_self (hflags : s.flags.Holds stack) {moves : List Action}
    (h : Balanced s moves) : moves.foldlM apply s = .ok s := by
  obtain ⟨f, stack', hfold, hf, hsuffix⟩ :=
    suffix_rows_of_foldlM hflags h.byHand stack.rows
  have hrows : stack.rows = stack'.rows := by
    refine (hsuffix (List.suffix_refl _) fun n s' hn => ?_).eq_of_length ?_
    · have hle := h.above n s' hn
      rwa [hflags.depth_eq_depth] at hle
    · have heq := h.back _ hfold
      rw [hf.depth_eq_depth, hflags.depth_eq_depth] at heq
      exact heq.symm
  obtain ⟨htop, hbelow⟩ := List.cons.inj hrows
  obtain rfl : stack = stack' := by
    cases stack
    cases stack'
    exact congrArg₂ Flag.Stack.mk htop hbelow
  rw [hfold, ← hflags.flat_unique hf]

/-- A flag that is accepted, balanced moves, and a pop: the state is the one from before. -/
theorem foldlM_push_pop (hflags : s.flags.Holds stack) {o : Flag.Operation} {f : FlatStack}
    (hpush : s.flags.push? o = .ok (some f)) {moves : List Action}
    (hmoves : Balanced { s with flags := f } moves) :
    (push o :: moves ++ [pop]).foldlM apply s = .ok s := by
  obtain ⟨r, hr, hrel, happly⟩ := apply_push hflags (FlatStack.allowed_of_push? hpush)
  rw [hpush] at hr
  obtain rfl := Except.ok.inj hr
  obtain ⟨base, hstack, hf⟩ := FlatStack.exists_of_rel_some hrel
  obtain ⟨e, -, he, hpop⟩ := apply_pop (s := { s with flags := f }) hf
  rw [Flag.Stack.pop_of_push? hstack] at he
  rw [List.cons_append, List.foldlM_cons, happly, ok_bind, Option.getD_some, List.foldlM_append,
    hmoves.foldlM_eq_self hf, ok_bind, List.foldlM_cons, hpop, ok_bind, ← hflags.flat_unique he]
  rfl

end Action

/-- Whatever was done with a lookup state, its flags are a stack of rows in one array, with the
neutral row at the bottom. Pushes and pops by hand never fail and only change the top of it; a flag
that is accepted and taken back, with balanced moves between, leaves the state as it was. -/
theorem holds_of_history (history : List Action) :
    ((∀ action ∈ history, action.Allowed) → ∃ s, history.foldlM Action.apply .fresh = .ok s) ∧
    ∀ s, history.foldlM Action.apply .fresh = .ok s → ∃ stack, s.flags.Holds stack ∧
      s.flags.current = .ok stack.top ∧ s.flags.depth = stack.depth ∧
      (∀ o, (Action.push o).Allowed → ∃ r, s.flags.push? o = .ok r ∧
        Action.Pushes s.flags stack o r ∧
        (Action.push o).apply s = .ok { s with flags := r.getD s.flags }) ∧
      (∃ f popped, s.flags.pop = .ok f ∧ f.Holds popped ∧
        popped.rows = (if 1 < stack.depth then stack.rows.tail else stack.rows) ∧
        Action.pop.apply s = .ok { s with flags := f }) ∧
      ∀ o f, s.flags.push? o = .ok (some f) → ∀ moves,
        Action.Balanced { s with flags := f } moves →
        (Action.push o :: moves ++ [Action.pop]).foldlM Action.apply s = .ok s := by
  refine ⟨fun hallowed => ?_, fun s hs => ?_⟩
  · obtain ⟨flags, hok, -⟩ := Action.foldlM_apply_follows represents_fresh hallowed
    exact ⟨_, hok⟩
  · obtain ⟨stack, hflags⟩ := Action.holds_foldlM (s := .fresh) (FlatStack.holds_start 0) hs
    refine ⟨stack, hflags, hflags.current_eq, hflags.depth_eq_depth, fun o ho => ?_, ?_, ?_⟩
    · obtain ⟨r, hr, hrel, happly⟩ := Action.apply_push hflags ho
      exact ⟨r, hr, Action.pushes hflags hrel, happly⟩
    · obtain ⟨f, hf, hpop, happly⟩ := Action.apply_pop hflags
      refine ⟨f, stack.pop, hf, hpop, ?_, happly⟩
      obtain ⟨top, below⟩ := stack
      cases below <;> rfl
    · exact fun o f hpush moves hmoves => Action.foldlM_push_pop hflags hpush hmoves

/-- A lookup that is cut off behind a flag, and one more flag by hand. -/
def cutHistory : List Action :=
  [.lookup (Transducer.small.withLimits ⟨1, 3⟩) "a", .push ⟨.positiveSet, 0, 2⟩]

/-- After this history a flag is accepted and taken back, with another one pushed and popped
between. -/
theorem holds_of_history_small : ∃ s f, cutHistory.foldlM Action.apply .fresh = .ok s ∧
    s.flags.push? ⟨.unify, 0, 2⟩ = .ok (some f) ∧
    Action.Balanced { s with flags := f } [.push ⟨.negativeSet, 0, 1⟩, .pop] ∧
    [Action.push ⟨.unify, 0, 2⟩, .push ⟨.negativeSet, 0, 1⟩, .pop, .pop].foldlM Action.apply s =
      .ok s := by
  have hrun : (cutHistory.foldlM Action.apply .fresh).map (·.flags) = .ok ⟨1, #[0, 1, 2]⟩ := by
    decide +kernel
  obtain ⟨s, hs, hflags⟩ : ∃ s, cutHistory.foldlM Action.apply .fresh = .ok s ∧
      s.flags = ⟨1, #[0, 1, 2]⟩ := by
    cases hs : cutHistory.foldlM Action.apply .fresh with
    | ok s =>
      rw [hs] at hrun
      exact ⟨s, rfl, Except.ok.inj hrun⟩
    | error trap =>
      rw [hs] at hrun
      cases hrun
  have hunify : s.flags.push? ⟨.unify, 0, 2⟩ = .ok (some ⟨1, #[0, 1, 2, 2]⟩) := by
    rw [hflags]
    decide +kernel
  have hpush : FlatStack.push? ⟨1, #[0, 1, 2, 2]⟩ ⟨.negativeSet, 0, 1⟩ =
      .ok (some ⟨1, #[0, 1, 2, 2, -1]⟩) := by decide +kernel
  have hpop : FlatStack.pop ⟨1, #[0, 1, 2, 2, -1]⟩ = .ok ⟨1, #[0, 1, 2, 2]⟩ := by decide +kernel
  have hone : (Action.push ⟨.negativeSet, 0, 1⟩).apply { s with flags := ⟨1, #[0, 1, 2, 2]⟩ } =
      .ok { s with flags := ⟨1, #[0, 1, 2, 2, -1]⟩ } := by
    rw [Action.apply, hpush]
    rfl
  have htwo : Action.pop.apply { s with flags := ⟨1, #[0, 1, 2, 2, -1]⟩ } =
      .ok { s with flags := ⟨1, #[0, 1, 2, 2]⟩ } := by
    rw [Action.apply, hpop]
    rfl
  have hboth : [Action.push ⟨.negativeSet, 0, 1⟩, .pop].foldlM Action.apply
      { s with flags := ⟨1, #[0, 1, 2, 2]⟩ } = .ok { s with flags := ⟨1, #[0, 1, 2, 2]⟩ } := by
    rw [List.foldlM_cons, hone, ok_bind, List.foldlM_cons, htwo]
    rfl
  have hmoves : Action.Balanced { s with flags := ⟨1, #[0, 1, 2, 2]⟩ }
      [.push ⟨.negativeSet, 0, 1⟩, .pop] := by
    refine ⟨?_, fun n s' hn => ?_, fun s' hs' => ?_⟩
    · simp [Action.ByHand, Action.Allowed]
      decide
    · rcases n with _ | _ | n
      · rw [← pure_eq_ok hn]
      · rw [List.take_succ_cons, List.foldlM_cons, hone, ok_bind] at hn
        rw [← pure_eq_ok hn]
        exact (by decide : FlatStack.depth ⟨1, #[0, 1, 2, 2]⟩ ≤ FlatStack.depth ⟨1, #[0, 1, 2, 2, -1]⟩)
      · rw [List.take_of_length_le (by simp)] at hn
        rw [← Except.ok.inj (hboth.symm.trans hn)]
    · rw [← Except.ok.inj (hboth.symm.trans hs')]
  obtain ⟨stack, -, -, -, -, -, hrestore⟩ := (holds_of_history cutHistory).2 s hs
  exact ⟨s, _, hs, hunify, hmoves, hrestore _ _ hunify _ hmoves⟩

end TransducerLookup.Checked
