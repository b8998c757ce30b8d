import Mathlib.Logic.Function.Basic
import TransducerLookup.Proofs.Checked.History

/-!
# Lookup states in use again

A session has any number of transducers and of lookup states, which requests
use in any order. A transducer keeps all that was loaded and has the limits set
last (`transducer_after`), and a state has been through the requests on it and
no others (`state_after`). What a lookup returns is a matter of its transducer
and the limits in force, whatever its state has been used for, also where the
states are made of buffers that each lookup has to empty (`BufferSession`).
-/

namespace TransducerLookup

open Checked (Action Loaded)

/-! ## Sessions -/

structure Session (ι κ : Type) where
  transducer : ι → Transducer
  state : κ → Search.State

/-- What can be asked of a session. -/
inductive Request (ι κ : Type) where
  | lookup (i : ι) (k : κ) (text : String)
  | pushFlag (k : κ) (o : Flag.Operation)
  | popFlag (k : κ)
  | setLimits (i : ι) (limits : Limits)

namespace Request

variable {ι κ : Type} [DecidableEq ι]

/-- The limits that the request sets for transducer `i`. -/
def limits? (i : ι) : Request ι κ → Option Limits
  | setLimits j limits => if j = i then some limits else none
  | _ => none

/-- The limits of transducer `i` after these requests: those set last. -/
def limitsInForce (initial : Limits) (i : ι) (history : List (Request ι κ)) : Limits :=
  (history.filterMap (limits? i)).getLastD initial

/-- Flags have values that can be negated, and limits fit their words. -/
def Allowed : Request ι κ → Prop
  | pushFlag _ o => o.operator = .negativeSet → o.value ≠ Int32.minValue
  | setLimits _ limits => limits.maxEpsilonDepth < 2 ^ 64 ∧ limits.maxSteps < 2 ^ 64 - 1
  | _ => True

end Request

namespace Session

variable {ι κ : Type} [DecidableEq ι] [DecidableEq κ]

def answer (S : Session ι κ) (i : ι) (k : κ) (text : String) : List Analysis :=
  ((S.transducer i).analyzeWith (S.state k) text).1

/-- The session after something was done with state `k`. -/
def use (S : Session ι κ) (k : κ) (action : Action) : Session ι κ :=
  { S with state := Function.update S.state k (action.run (S.state k)) }

def action? (S : Session ι κ) (k : κ) : Request ι κ → Option Action
  | .lookup i j text => if j = k then some (.lookup (S.transducer i) text) else none
  | .pushFlag j o => if j = k then some (.push o) else none
  | .popFlag j => if j = k then some .pop else none
  | .setLimits _ _ => none

def perform (S : Session ι κ) : Request ι κ → Session ι κ
  | .lookup i k text => S.use k (.lookup (S.transducer i) text)
  | .pushFlag k o => S.use k (.push o)
  | .popFlag k => S.use k .pop
  | .setLimits i limits =>
    { S with transducer := Function.update S.transducer i ((S.transducer i).withLimits limits) }

def after (S : Session ι κ) (history : List (Request ι κ)) : Session ι κ :=
  history.foldl perform S

theorem after_cons (S : Session ι κ) (r : Request ι κ) (history : List (Request ι κ)) :
    S.after (r :: history) = (S.perform r).after history := rfl

/-! ## Transducers -/

omit [DecidableEq κ] in
theorem limitsInForce_cons (initial : Limits) (i : ι) (r : Request ι κ)
    (history : List (Request ι κ)) : Request.limitsInForce initial i (r :: history) =
      Request.limitsInForce ((r.limits? i).getD initial) i history := by
  unfold Request.limitsInForce
  cases h : r.limits? i with
  | none => rw [List.filterMap_cons_none h]; rfl
  | some limits => rw [List.filterMap_cons_some h, List.getLastD_cons]; rfl

theorem transducer_perform (S : Session ι κ) (r : Request ι κ) (i : ι) :
    (S.perform r).transducer i =
      (S.transducer i).withLimits ((r.limits? i).getD (S.transducer i).limits) := by
  cases r with
  | setLimits j limits =>
    by_cases h : j = i
    · subst h
      simp [perform, Request.limits?]
    · simp only [perform, Request.limits?, if_neg h, Function.update_of_ne (Ne.symm h)]
      rfl
  | _ => rfl

/-- All that changes about a transducer is its limits. -/
theorem transducer_after (S : Session ι κ) (history : List (Request ι κ)) (i : ι) :
    (S.after history).transducer i = (S.transducer i).withLimits
      (Request.limitsInForce (S.transducer i).limits i history) := by
  induction history generalizing S with
  | nil => rfl
  | cons r history ih =>
    rw [after_cons, ih, transducer_perform, limitsInForce_cons]
    rfl

omit [DecidableEq ι] [DecidableEq κ] in
theorem loaded_withLimits {t : Transducer} (h : Loaded t) {limits : Limits}
    (hdepth : limits.maxEpsilonDepth < 2 ^ 64) (hsteps : limits.maxSteps < 2 ^ 64 - 1) :
    Loaded (t.withLimits limits) := by
  obtain @⟨file, t, _, hload, -, -⟩ := h
  have h : Loaded (t.withLimits limits) := .withLimits hload hdepth hsteps
  exact h

theorem loaded_perform {S : Session ι κ} (h : ∀ i, Loaded (S.transducer i)) {r : Request ι κ}
    (hr : r.Allowed) (i : ι) : Loaded ((S.perform r).transducer i) := by
  cases r with
  | setLimits j limits =>
    rw [transducer_perform]
    by_cases hj : j = i
    · rw [Request.limits?, if_pos hj]
      exact loaded_withLimits (h i) hr.1 hr.2
    · rw [Request.limits?, if_neg hj]
      exact h i
  | _ => exact h i

theorem loaded_after {S : Session ι κ} (h : ∀ i, Loaded (S.transducer i))
    {history : List (Request ι κ)} (hhistory : ∀ r ∈ history, r.Allowed) (i : ι) :
    Loaded ((S.after history).transducer i) := by
  induction history generalizing S with
  | nil => exact h i
  | cons r history ih =>
    rw [after_cons]
    exact ih (loaded_perform h (hhistory r List.mem_cons_self))
      fun r' hr' => hhistory r' (List.mem_cons_of_mem _ hr')

/-! ## States -/

/-- What the requests do with state `k`. -/
def actions (k : κ) (S : Session ι κ) : List (Request ι κ) → List Action
  | [] => []
  | r :: history => (S.action? k r).toList ++ actions k (S.perform r) history

omit [DecidableEq ι] in
theorem state_use (S : Session ι κ) (j : κ) (action : Action) (k : κ) :
    (S.use j action).state k = if j = k then action.run (S.state k) else S.state k := by
  show Function.update S.state j _ k = _
  by_cases h : j = k
  · subst h
    rw [Function.update_self, if_pos rfl]
  · rw [Function.update_of_ne (Ne.symm h), if_neg h]

/-- A request changes the state that it uses, and no other. -/
theorem state_perform (S : Session ι κ) (r : Request ι κ) (k : κ) :
    (S.perform r).state k = (S.action? k r).toList.foldl Action.run (S.state k) := by
  cases r with
  | setLimits i limits => rfl
  | lookup i j text => rw [perform, state_use, action?]; split <;> rfl
  | pushFlag j o => rw [perform, state_use, action?]; split <;> rfl
  | popFlag j => rw [perform, state_use, action?]; split <;> rfl

/-- A state has been through the requests that use it. -/
theorem state_after (S : Session ι κ) (history : List (Request ι κ)) (k : κ) :
    (S.after history).state k = (S.actions k history).foldl Action.run (S.state k) := by
  induction history generalizing S with
  | nil => rfl
  | cons r history ih =>
    rw [after_cons, ih, state_perform, actions, List.foldl_append]

omit [DecidableEq ι] in
theorem allowed_of_action? {S : Session ι κ} (hload : ∀ i, Loaded (S.transducer i))
    {r : Request ι κ} (hr : r.Allowed) {k : κ} {action : Action}
    (h : S.action? k r = some action) : action.Allowed := by
  cases r with
  | setLimits i limits => cases h
  | lookup i j text =>
    obtain ⟨-, h⟩ := Option.ite_none_right_eq_some.1 h
    cases h
    exact hload i
  | pushFlag j o =>
    obtain ⟨-, h⟩ := Option.ite_none_right_eq_some.1 h
    cases h
    exact hr
  | popFlag j =>
    obtain ⟨-, h⟩ := Option.ite_none_right_eq_some.1 h
    cases h
    trivial

theorem allowed_actions {S : Session ι κ} (hload : ∀ i, Loaded (S.transducer i))
    {history : List (Request ι κ)} (h : ∀ r ∈ history, r.Allowed) (k : κ) :
    ∀ action ∈ S.actions k history, action.Allowed := by
  induction history generalizing S with
  | nil => intro action haction; cases haction
  | cons r history ih =>
    have hr := h r List.mem_cons_self
    intro action haction
    rcases List.mem_append.1 haction with haction | haction
    · exact allowed_of_action? hload hr (Option.mem_toList.1 haction)
    · exact ih (loaded_perform hload hr) (fun r' hr' => h r' (List.mem_cons_of_mem _ hr')) action
        haction

end Session

/-! ## Buffers -/

/-- A session whose states are made of buffers. -/
structure BufferSession (ι κ : Type) where
  transducer : ι → Transducer
  state : κ → Checked.State

namespace BufferSession

variable {ι κ : Type} [DecidableEq ι] [DecidableEq κ]

def fresh (transducer : ι → Transducer) : BufferSession ι κ := ⟨transducer, fun _ => .fresh⟩

/-- What a lookup returns, and the session after it. -/
def lookup (B : BufferSession ι κ) (i : ι) (k : κ) (text : String) :
    Checked (List Analysis × BufferSession ι κ) := do
  let (analyses, s) ← (B.state k).lookup (B.transducer i) text
  return (analyses, { B with state := Function.update B.state k s })

def use (B : BufferSession ι κ) (k : κ) (action : Action) : Checked (BufferSession ι κ) := do
  return { B with state := Function.update B.state k (← action.apply (B.state k)) }

def perform (B : BufferSession ι κ) : Request ι κ → Checked (BufferSession ι κ)
  | .lookup i k text => do return (← B.lookup i k text).2
  | .pushFlag k o => B.use k (.push o)
  | .popFlag k => B.use k .pop
  | .setLimits i limits =>
    return { B with
      transducer := Function.update B.transducer i ((B.transducer i).withLimits limits) }

def after (B : BufferSession ι κ) (history : List (Request ι κ)) :
    Checked (BufferSession ι κ) :=
  history.foldlM perform B

/-- The buffers of each state match it. -/
structure Matches (B : BufferSession ι κ) (S : Session ι κ) : Prop where
  transducer_eq : B.transducer = S.transducer
  state_follows : ∀ k, Checked.Follows (.ok (B.state k)) (S.state k)

variable {B B' : BufferSession ι κ} {S : Session ι κ}

omit [DecidableEq ι] [DecidableEq κ] in
theorem matches_fresh (transducer : ι → Transducer) :
    Matches (fresh transducer : BufferSession ι κ) ⟨transducer, fun _ => .fresh⟩ :=
  ⟨rfl, fun _ => ⟨_, rfl, Checked.represents_fresh⟩⟩

omit [DecidableEq ι] in
theorem Matches.update (h : B.Matches S) (k : κ) (action : Action) {s : Checked.State}
    (hs : Checked.Follows (.ok s) (action.run (S.state k))) :
    Matches { B with state := Function.update B.state k s } (S.use k action) := by
  refine ⟨h.transducer_eq, fun j => ?_⟩
  rw [Session.state_use]
  by_cases hj : k = j
  · subst hj
    rw [if_pos rfl]
    show Checked.Follows (.ok (Function.update B.state k s k)) _
    rwa [Function.update_self]
  · rw [if_neg hj]
    show Checked.Follows (.ok (Function.update B.state k s j)) _
    rw [Function.update_of_ne (Ne.symm hj)]
    exact h.state_follows j

omit [DecidableEq ι] in
theorem Matches.lookup (h : B.Matches S) {i : ι} (ht : Loaded (S.transducer i)) (k : κ)
    (text : String) : ∃ B', B.lookup i k text = .ok ((S.transducer i).analyze text, B') ∧
      B'.Matches (S.use k (.lookup (S.transducer i) text)) := by
  obtain ⟨flags, hstate, hflags⟩ := h.state_follows k
  obtain ⟨flags', hlookup, hflags'⟩ := ht.lookup_follows hflags text
  refine ⟨_, ?_, h.update k (.lookup _ text) ⟨flags', rfl, hflags'⟩⟩
  unfold BufferSession.lookup
  rw [Except.ok.inj hstate, h.transducer_eq, hlookup]
  rfl

omit [DecidableEq ι] in
theorem Matches.use (h : B.Matches S) (k : κ) {action : Action} (ha : action.Allowed) :
    ∃ B', B.use k action = .ok B' ∧ B'.Matches (S.use k action) := by
  obtain ⟨flags, hstate, hflags⟩ := h.state_follows k
  obtain ⟨flags', happly, hflags'⟩ := Action.apply_follows hflags ha
  refine ⟨_, ?_, h.update k action ⟨flags', rfl, hflags'⟩⟩
  unfold BufferSession.use
  rw [Except.ok.inj hstate, happly]
  rfl

/-- No request fails. -/
theorem Matches.perform (h : B.Matches S) (hload : ∀ i, Loaded (S.transducer i))
    {r : Request ι κ} (hr : r.Allowed) : ∃ B', B.perform r = .ok B' ∧ B'.Matches (S.perform r) := by
  cases r with
  | lookup i k text =>
    obtain ⟨B', hlookup, hB'⟩ := h.lookup (hload i) k text
    refine ⟨B', ?_, hB'⟩
    rw [BufferSession.perform, hlookup]
    rfl
  | pushFlag k o => exact h.use k hr
  | popFlag k => exact h.use k trivial
  | setLimits i limits =>
    refine ⟨_, rfl, ?_, h.state_follows⟩
    rw [h.transducer_eq]
    rfl

theorem Matches.after (h : B.Matches S) (hload : ∀ i, Loaded (S.transducer i))
    {history : List (Request ι κ)} (hhistory : ∀ r ∈ history, r.Allowed) :
    ∃ B', B.after history = .ok B' ∧ B'.Matches (S.after history) := by
  induction history generalizing B S with
  | nil => exact ⟨B, rfl, h⟩
  | cons r history ih =>
    have hr := hhistory r List.mem_cons_self
    obtain ⟨B₁, hB₁, hmatches⟩ := h.perform hload hr
    obtain ⟨B₂, hB₂, hmatches'⟩ := ih hmatches (Session.loaded_perform hload hr)
      fun r' hr' => hhistory r' (List.mem_cons_of_mem _ hr')
    refine ⟨B₂, ?_, hmatches'⟩
    rw [BufferSession.after, List.foldlM_cons, hB₁]
    exact hB₂

omit [DecidableEq ι] in
/-- A lookup changes the buffers of its own state only. -/
theorem state_of_lookup {i : ι} {k : κ} {text : String} {analyses : List Analysis}
    (h : B.lookup i k text = .ok (analyses, B')) {j : κ} (hj : j ≠ k) :
    B'.state j = B.state j := by
  obtain ⟨⟨analyses', s⟩, -, h⟩ := Checked.bind_eq_ok h
  obtain ⟨-, rfl⟩ := Prod.mk.inj (Checked.pure_eq_ok h)
  exact Function.update_of_ne hj s B.state

omit [DecidableEq ι] in
theorem lookup_of_tokenize_eq_none {i : ι} {text : String}
    (h : (B.transducer i).tokenize text = none) (k : κ) : B.lookup i k text = .ok ([], B) := by
  rw [lookup, Checked.State.lookup_of_tokenize_eq_none h, Checked.ok_bind]
  dsimp only
  rw [Function.update_eq_self]
  rfl

end BufferSession

namespace Session

variable {ι κ : Type} [DecidableEq ι] [DecidableEq κ]

/-! ## Lookups -/

omit [DecidableEq ι] [DecidableEq κ] in
/-- What a lookup returns does not depend on its state. -/
theorem answer_eq (S : Session ι κ) (i : ι) (k : κ) (text : String) :
    S.answer i k text = (S.transducer i).analyze text :=
  (S.transducer i).fst_analyzeWith (S.state k) text

theorem analyzeWith_of_tokenize_eq_none {t : Transducer} {text : String}
    (h : t.tokenize text = none) (s : Search.State) : t.analyzeWith s text = ([], s) := by
  unfold Transducer.analyzeWith
  rw [h]

theorem tokenize_after (S : Session ι κ) (history : List (Request ι κ)) (i : ι) (text : String) :
    ((S.after history).transducer i).tokenize text = (S.transducer i).tokenize text := by
  rw [transducer_after]
  rfl

/-- With the buffers of one state, no request on it fails and the lookup returns the same. -/
theorem exists_lookup {S : Session ι κ} (hload : ∀ i, Loaded (S.transducer i)) {k : κ}
    (hfresh : S.state k = .fresh) {before : List (Request ι κ)}
    (hbefore : ∀ r ∈ before, r.Allowed) (i : ι) (text : String) :
    ∃ s s' : Checked.State, (S.actions k before).foldlM Action.apply .fresh = .ok s ∧
      Checked.Follows (.ok s) ((S.after before).state k) ∧
      s.lookup ((S.after before).transducer i) text =
        .ok ((S.after before).answer i k text, s') ∧
      ((S.transducer i).tokenize text = none → s' = s) := by
  obtain ⟨flags, hok, hflags⟩ :=
    Action.foldlM_apply_follows Checked.represents_fresh (allowed_actions hload hbefore k)
  have hstate : (S.actions k before).foldl Action.run .fresh = (S.after before).state k := by
    rw [state_after, hfresh]
  rw [hstate] at hok hflags
  obtain ⟨flags', hlookup, -⟩ := (loaded_after hload hbefore i).lookup_follows hflags text
  rw [answer_eq]
  refine ⟨_, _, hok, ⟨flags, rfl, hflags⟩, hlookup, fun hnone => ?_⟩
  rw [← tokenize_after S before] at hnone
  rw [Checked.State.lookup_of_tokenize_eq_none hnone] at hlookup
  exact congrArg Prod.snd (Except.ok.inj hlookup).symm

/-- The same of all states at once, each of them with buffers of its own. -/
theorem exists_buffers {S : Session ι κ} (hload : ∀ i, Loaded (S.transducer i))
    {before : List (Request ι κ)} (hbefore : ∀ r ∈ before, r.Allowed) (i : ι) (k : κ)
    (text : String) :
    ∃ B B' : BufferSession ι κ, (BufferSession.fresh S.transducer).after before = .ok B ∧
      B.lookup i k text = .ok (((S.transducer i).withLimits
        (Request.limitsInForce (S.transducer i).limits i before)).analyze text, B') ∧
      (∀ j, j ≠ k → B'.state j = B.state j) ∧
      ((S.transducer i).tokenize text = none → B.lookup i k text = .ok ([], B)) := by
  let fresh : Session ι κ := ⟨S.transducer, fun _ => .fresh⟩
  have hfresh : (BufferSession.fresh S.transducer).Matches fresh :=
    BufferSession.matches_fresh S.transducer
  have hloaded : Loaded ((fresh.after before).transducer i) :=
    loaded_after (S := fresh) hload hbefore i
  obtain ⟨B, hB, hmatches⟩ := hfresh.after hload hbefore
  obtain ⟨B', hlookup, -⟩ := hmatches.lookup hloaded k text
  rw [transducer_after] at hlookup
  refine ⟨B, B', hB, hlookup, fun j hj => BufferSession.state_of_lookup hlookup hj, fun hnone => ?_⟩
  refine BufferSession.lookup_of_tokenize_eq_none ?_ k
  rw [hmatches.transducer_eq, tokenize_after]
  exact hnone

/-- After any requests on any states and transducers, all with buffers that are used again, a lookup
returns what a fresh state would with the limits now in force and changes the buffers of its own
state only; text that cannot be cut into tokens has no analyses and changes nothing. None of the
requests fails. Of plain states the same holds, and the buffers match them. -/
theorem lookup_after (S : Session ι κ) (before : List (Request ι κ)) (i : ι) (k : κ)
    (text : String) :
    ((∀ j, Loaded (S.transducer j)) → (∀ r ∈ before, r.Allowed) →
      ∃ B B' : BufferSession ι κ, (BufferSession.fresh S.transducer).after before = .ok B ∧
        B.lookup i k text = .ok (((S.transducer i).withLimits
          (Request.limitsInForce (S.transducer i).limits i before)).analyze text, B') ∧
        (∀ j, j ≠ k → B'.state j = B.state j) ∧
        ((S.transducer i).tokenize text = none → B.lookup i k text = .ok ([], B))) ∧
    (S.after before).answer i k text = ((S.transducer i).withLimits
      (Request.limitsInForce (S.transducer i).limits i before)).analyze text ∧
    (∀ j, j ≠ k →
      ((S.after before).perform (.lookup i k text)).state j = (S.after before).state j) ∧
    ((S.transducer i).tokenize text = none → (S.after before).answer i k text = [] ∧
      ((S.after before).perform (.lookup i k text)).state k = (S.after before).state k) ∧
    ((∀ j, Loaded (S.transducer j)) → S.state k = .fresh → (∀ r ∈ before, r.Allowed) →
      ∃ s s' : Checked.State, (S.actions k before).foldlM Action.apply .fresh = .ok s ∧
        Checked.Follows (.ok s) ((S.after before).state k) ∧
        s.lookup ((S.after before).transducer i) text =
          .ok ((S.after before).answer i k text, s') ∧
        ((S.transducer i).tokenize text = none → s' = s)) := by
  refine ⟨fun hload hbefore => exists_buffers hload hbefore i k text, ?_, fun j hj => ?_,
    fun htokens => ?_, fun hload hfresh hbefore => exists_lookup hload hfresh hbefore i text⟩
  · rw [answer_eq, transducer_after]
  · rw [perform, state_use, if_neg (Ne.symm hj)]
  · have hlookup := analyzeWith_of_tokenize_eq_none
      ((tokenize_after S before i text).trans htokens) ((S.after before).state k)
    refine ⟨congrArg Prod.fst hlookup, ?_⟩
    rw [perform, state_use, if_pos rfl]
    exact congrArg Prod.snd hlookup

/-- Two transducers from the small file, which cut their lookups, and two fresh states. -/
def small : Session Bool Bool := ⟨fun _ => Transducer.small.withLimits ⟨1, 3⟩, fun _ => .fresh⟩

theorem loaded_small (i : Bool) : Loaded (small.transducer i) :=
  .withLimits Transducer.ofBytes_smallFile (by decide) (by decide)

/-- A lookup that is cut, a flag that is pushed, and new limits. -/
def smallHistory : List (Request Bool Bool) :=
  [.lookup true false "a", .pushFlag false ⟨.negativeSet, 0, 1⟩, .setLimits true ⟨2, 100⟩]

theorem lookup_after_small :
    (∀ r ∈ smallHistory, r.Allowed) ∧
    (∃ B B' : BufferSession Bool Bool,
      (BufferSession.fresh small.transducer).after smallHistory = .ok B ∧
      B.lookup true false "a" = .ok ([⟨["a"], .one⟩, ⟨["b"], .one⟩], B') ∧
      B'.state true = B.state true) ∧
    (small.after smallHistory).answer true false "a" = [⟨["a"], .one⟩, ⟨["b"], .one⟩] ∧
    ∃ s s' : Checked.State,
      (small.actions false smallHistory).foldlM Action.apply .fresh = .ok s ∧
      s.lookup ((small.after smallHistory).transducer true) "a" =
        .ok ([⟨["a"], .one⟩, ⟨["b"], .one⟩], s') := by
  have hallowed : ∀ r ∈ smallHistory, r.Allowed := by
    intro r hr
    simp only [smallHistory, List.mem_cons, List.not_mem_nil, or_false] at hr
    rcases hr with rfl | rfl | rfl
    · trivial
    · exact fun _ => by decide
    · exact ⟨by decide, by decide⟩
  obtain ⟨hbuffers, hanswer, -, -, hflat⟩ := lookup_after small smallHistory true false "a"
  have hlimits : Request.limitsInForce (small.transducer true).limits true smallHistory =
      ⟨2, 100⟩ := rfl
  have hanalyze : ((small.transducer true).withLimits ⟨2, 100⟩).analyze "a" =
      [⟨["a"], .one⟩, ⟨["b"], .one⟩] := by decide +kernel
  rw [hlimits, hanalyze] at hanswer hbuffers
  rw [hanswer] at hflat
  obtain ⟨B, B', hB, hB', hothers, -⟩ := hbuffers loaded_small hallowed
  obtain ⟨s, s', hok, -, hlookup, -⟩ := hflat loaded_small rfl hallowed
  exact ⟨hallowed, ⟨B, B', hB, hB', hothers true (by decide)⟩, hanswer, s, s', hok, hlookup⟩

end Session

end TransducerLookup
