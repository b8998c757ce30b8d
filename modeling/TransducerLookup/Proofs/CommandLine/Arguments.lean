import TransducerLookup.Options

/-!
# Arguments one after the other

Where an option may stand, arguments are read in whole items: an option with its
value, or one argument. Whole items can be cut off in front (`Complete.extend_append`),
and what they say is added to by what follows (`extend_merge`). Only a last
option without its value, or `--` with the words behind it, cannot be cut off.
-/

namespace TransducerLookup.Options

def TakesValue (arg : String) : Prop := arg = "-f" ∨ arg = "--fst"

instance (arg : String) : Decidable (TakesValue arg) :=
  inferInstanceAs (Decidable (arg = "-f" ∨ arg = "--fst"))

/-- Each option has its value, and no `--` stands where an option may stand. -/
inductive Complete : List String → Prop where
  | nil : Complete []
  | value {option value : String} {rest : List String} :
      TakesValue option → Complete rest → Complete (option :: value :: rest)
  | other {arg : String} {rest : List String} :
      ¬ TakesValue arg → arg ≠ "--" → Complete rest → Complete (arg :: rest)

/-- A `--` among the arguments is not the value of an option. -/
def EndsOptions (args : List String) : Prop :=
  ∃ front words, Complete front ∧ args = front ++ "--" :: words

/-- What both say, where `y` counts for the path if it has one. -/
def merge (x y : Options) : Options where
  path := y.path.or x.path
  json := x.json || y.json
  verbose := x.verbose || y.verbose
  help := x.help || y.help
  words := x.words ++ y.words

/-! ## Single arguments -/

theorem ofText_of_takesValue {option : String} (h : TakesValue option) :
    Argument.ofText option = .pathFollows := by
  rcases h with rfl | rfl <;> rfl

theorem takesValue_of_ofText {arg : String} (h : Argument.ofText arg = .pathFollows) :
    TakesValue arg := by
  unfold Argument.ofText at h
  split at h
  case h_2 => exact .inl rfl
  case h_3 => exact .inr rfl
  case h_9 =>
    -- None of the fixed spellings.
    split at h
    · cases h
    · split at h <;> cases h
  all_goals cases h

theorem eq_of_ofText {arg : String} (h : Argument.ofText arg = .endOfOptions) : arg = "--" := by
  unfold Argument.ofText at h
  split at h
  case h_1 => rfl
  case h_9 =>
    split at h
    · cases h
    · split at h <;> cases h
  all_goals cases h

theorem ofText_path (path : String) : Argument.ofText ("--fst=" ++ path) = .path path := by
  have hpath : "--fst=".toList.isPrefixOf? ("--fst=" ++ path).toList = some path.toList := by
    rw [String.toList_append]
    rfl
  have hne (arg : String) (h : ¬ "--fst=".toList <+: arg.toList) : "--fst=" ++ path ≠ arg := by
    rintro rfl
    rw [String.toList_append] at h
    exact h (List.prefix_append _ _)
  unfold Argument.ofText
  split
  case h_9 =>
    rw [hpath]
    exact congrArg Argument.path (String.ofList_toList)
  all_goals next heq => exact (hne _ (by decide) heq).elim

theorem ofText_path_other (path : String) :
    ¬ TakesValue ("--fst=" ++ path) ∧ "--fst=" ++ path ≠ "--" := by
  constructor
  · intro h
    have hkind := ofText_of_takesValue h
    rw [ofText_path] at hkind
    cases hkind
  · intro h
    have hkind := ofText_path path
    rw [h] at hkind
    cases hkind

/-! ## Items -/

section Items

variable {o : Options} {option arg : String} {front : List String}

theorem extend_end (o : Options) (words : List String) :
    extend o ("--" :: words) = .ok { o with words := o.words ++ words } := rfl

theorem extend_value (h : TakesValue option) (o : Options) (value : String) (rest : List String) :
    extend o (option :: value :: rest) = extend { o with path := some value } rest := by
  rw [extend, ofText_of_takesValue h]

theorem extend_missing (h : TakesValue option) (o : Options) :
    extend o [option] = .error (.missingValue option) := by
  rw [extend, ofText_of_takesValue h]

theorem extend_path (o : Options) (path : String) (rest : List String) :
    extend o (("--fst=" ++ path) :: rest) = extend { o with path := some path } rest := by
  rw [extend.eq_def]
  simp only [ofText_path]

theorem extend_other (h : ¬ TakesValue arg) (hend : arg ≠ "--") (o : Options)
    (rest : List String) : extend o (arg :: rest) = (extend o [arg]).bind (extend · rest) := by
  cases hkind : Argument.ofText arg with
  | endOfOptions => exact (hend (eq_of_ofText hkind)).elim
  | pathFollows => exact (h (takesValue_of_ofText hkind)).elim
  | _ =>
    rw [extend.eq_def, extend.eq_def o [arg]]
    simp only [hkind]
    rfl

theorem error_of_extend_other (h : ¬ TakesValue arg) {e : UsageError}
    (herror : extend o [arg] = .error e) : e = .unknownOption arg := by
  rw [extend] at herror
  cases hkind : Argument.ofText arg with
  | pathFollows => exact (h (takesValue_of_ofText hkind)).elim
  | unknownOption =>
    rw [hkind] at herror
    exact (Except.error.inj herror).symm
  | _ =>
    rw [hkind] at herror
    cases herror

theorem Complete.append (h : Complete front) {rest : List String} (hrest : Complete rest) :
    Complete (front ++ rest) := by
  induction h with
  | nil => exact hrest
  | value hoption _ ih => exact .value hoption ih
  | other harg hend _ ih => exact .other harg hend ih

theorem Complete.extend_append (h : Complete front) (o : Options) (rest : List String) :
    extend o (front ++ rest) = (extend o front).bind (extend · rest) := by
  induction h generalizing o with
  | nil => rfl
  | value hoption _ ih =>
    rw [List.cons_append, List.cons_append, extend_value hoption, extend_value hoption, ih]
  | @other arg rest' harg hend _ ih =>
    rw [List.cons_append, extend_other harg hend o (rest' ++ rest), extend_other harg hend o rest']
    cases extend o [arg] with
    | ok o' => exact ih o'
    | error e => rfl

/-- Whole items fail for an unknown option only. -/
theorem Complete.error (h : Complete front) {e : UsageError} (herror : extend o front = .error e) :
    ∃ arg, e = .unknownOption arg := by
  induction h generalizing o with
  | nil => cases herror
  | value hoption _ ih =>
    rw [extend_value hoption] at herror
    exact ih herror
  | @other arg rest harg hend _ ih =>
    rw [extend_other harg hend] at herror
    cases hone : extend o [arg] with
    | ok o' =>
      rw [hone] at herror
      exact ih herror
    | error e' =>
      rw [hone] at herror
      obtain rfl := Except.error.inj herror
      exact ⟨arg, error_of_extend_other harg hone⟩

/-- Where `--` is the value of an option, it does not end the options. -/
theorem Complete.not_endsOptions (h : Complete front) : ¬ EndsOptions front := by
  rintro ⟨items, words, hitems, heq⟩
  -- The items in front of the `--` are the same ones, one after the other.
  induction h generalizing items with
  | nil => exact List.append_ne_nil_of_right_ne_nil items (List.cons_ne_nil _ _) heq.symm
  | value hoption _ ih =>
    cases hitems with
    | nil =>
      obtain ⟨rfl, -⟩ := List.cons.inj heq
      exact absurd hoption (by decide)
    | value _ hrest => exact ih _ hrest (List.cons.inj (List.cons.inj heq).2).2
    | other hother =>
      obtain ⟨rfl, -⟩ := List.cons.inj heq
      exact hother hoption
  | other harg hend _ ih =>
    cases hitems with
    | nil => exact hend (List.cons.inj heq).1
    | value hoption =>
      obtain ⟨rfl, -⟩ := List.cons.inj heq
      exact harg hoption
    | other _ _ hrest => exact ih _ hrest (List.cons.inj heq).2

/-- What arguments can end in behind their whole items. -/
inductive Shape : List String → Prop where
  | complete {front : List String} : Complete front → Shape front
  | missing {front : List String} {option : String} :
      Complete front → TakesValue option → Shape (front ++ [option])
  | ended {front words : List String} : Complete front → Shape (front ++ "--" :: words)

theorem Shape.append {rest : List String} (item : List String)
    (hitem : ∀ front, Complete front → Complete (item ++ front)) (h : Shape rest) :
    Shape (item ++ rest) := by
  cases h with
  | complete hfront => exact .complete (hitem _ hfront)
  | missing hfront hoption =>
    rw [← List.append_assoc]
    exact .missing (hitem _ hfront) hoption
  | ended hfront =>
    rw [← List.append_assoc]
    exact .ended (hitem _ hfront)

theorem shape : (args : List String) → Shape args
  | [] => .complete .nil
  | arg :: rest => by
    by_cases hend : arg = "--"
    · subst hend
      exact .ended .nil
    · by_cases hoption : TakesValue arg
      · cases rest with
        | nil => exact .missing .nil hoption
        | cons value rest => exact (shape rest).append [arg, value] fun _ => .value hoption
      · exact (shape rest).append [arg] fun _ => .other hoption hend

end Items

/-! ## What arguments add -/

theorem extend_merge_other {arg : String} (h : ¬ TakesValue arg) (hend : arg ≠ "--")
    (x o : Options) : extend (x.merge o) [arg] = (extend o [arg]).map x.merge := by
  cases hkind : Argument.ofText arg with
  | endOfOptions => exact (hend (eq_of_ofText hkind)).elim
  | pathFollows => exact (h (takesValue_of_ofText hkind)).elim
  | _ => simp [extend, hkind, Except.map, merge]

theorem Complete.extend_merge {front : List String} (h : Complete front) (x o : Options) :
    extend (x.merge o) front = (extend o front).map x.merge := by
  induction h generalizing o with
  | nil => rfl
  | value hoption _ ih =>
    rw [extend_value hoption, extend_value hoption, ← ih]
    rfl
  | @other arg rest harg hend _ ih =>
    rw [extend_other harg hend _ rest, extend_other harg hend o rest, extend_merge_other harg hend]
    cases extend o [arg] with
    | ok o' => exact ih o'
    | error e => rfl

theorem extend_merge (x o : Options) (args : List String) :
    extend (x.merge o) args = (extend o args).map x.merge := by
  -- What the whole items in front say is merged; behind them one item at most is left.
  have hbehind {front : List String} (h : Complete front) (rest : List String)
      (hrest : ∀ o, extend (x.merge o) rest = (extend o rest).map x.merge) :
      extend (x.merge o) (front ++ rest) = (extend o (front ++ rest)).map x.merge := by
    rw [h.extend_append, h.extend_append, h.extend_merge]
    cases extend o front with
    | ok o' => exact hrest o'
    | error e => rfl
  cases shape args with
  | complete hfront => exact hfront.extend_merge x o
  | missing hfront hoption =>
    refine hbehind hfront _ fun o => ?_
    rw [extend_missing hoption, extend_missing hoption]
    rfl
  | ended hfront =>
    refine hbehind hfront _ fun o => ?_
    rw [extend_end, extend_end, merge, List.append_assoc]
    rfl

theorem merge_initial (x : Options) : x.merge {} = x := by
  simp [merge]

theorem extend_eq_map_parse (x : Options) (args : List String) :
    extend x args = (parse args).map x.merge := by
  have h := extend_merge x {} args
  rw [merge_initial] at h
  exact h

/-! ## Options as arguments -/

/-- The arguments in front of `--` that say what the options say. -/
def flagArguments (o : Options) : List String :=
  (if o.json then ["--json"] else []) ++ (if o.verbose then ["--verbose"] else []) ++
    if o.help then ["--help"] else []

def pathArguments (o : Options) : List String := (o.path.map ("--fst=" ++ ·)).toList

def toArguments (o : Options) : List String :=
  o.pathArguments ++ (o.flagArguments ++ "--" :: o.words)

theorem complete_pathArguments (o : Options) : Complete o.pathArguments := by
  unfold pathArguments
  cases o.path with
  | none => exact .nil
  | some path =>
    obtain ⟨hvalue, hend⟩ := ofText_path_other path
    exact .other hvalue hend .nil

theorem extend_pathArguments (o : Options) :
    extend {} o.pathArguments = .ok { path := o.path } := by
  unfold pathArguments
  cases o.path with
  | none => rfl
  | some path => exact extend_path {} path []

theorem complete_flag {flag : String} (h : ¬ TakesValue flag) (hend : flag ≠ "--") (set : Bool) :
    Complete (if set then [flag] else []) := by
  cases set with
  | false => exact .nil
  | true => exact .other h hend .nil

theorem complete_flagArguments (o : Options) : Complete o.flagArguments :=
  ((complete_flag (by decide) (by decide) o.json).append
    (complete_flag (by decide) (by decide) o.verbose)).append
    (complete_flag (by decide) (by decide) o.help)

theorem extend_flagArguments (o : Options) : extend { path := o.path } o.flagArguments =
    .ok { o with words := [] } := by
  obtain ⟨path, json, verbose, help, words⟩ := o
  cases json <;> cases verbose <;> cases help <;> rfl

theorem parse_toArguments (o : Options) : parse o.toArguments = .ok o := by
  rw [parse, toArguments, o.complete_pathArguments.extend_append, extend_pathArguments]
  show extend _ (o.flagArguments ++ "--" :: o.words) = _
  rw [o.complete_flagArguments.extend_append, extend_flagArguments]
  rfl

/-! ## Whole argument lists -/

/-- What argument lists are read as. -/
inductive Reading : List String → Except UsageError Options → Prop where
  | complete {args : List String} {o : Options} : Complete args → Reading args (.ok o)
  /-- It is reported before anything behind it is looked at. -/
  | unknown {args : List String} {arg : String} :
      (∀ more, parse (args ++ more) = .error (.unknownOption arg)) →
      Reading args (.error (.unknownOption arg))
  | missing {front : List String} {option : String} : Complete front → TakesValue option →
      Reading (front ++ [option]) (.error (.missingValue option))
  | ended {args : List String} {o : Options} : EndsOptions args → Reading args (.ok o)

theorem Complete.parse_append_eq_bind {front : List String} (h : Complete front)
    (rest : List String) : parse (front ++ rest) = (parse front).bind (extend · rest) :=
  h.extend_append {} rest

theorem Complete.reading_of_error {front : List String} (h : Complete front) {e : UsageError}
    (herror : parse front = .error e) (rest : List String) :
    Reading (front ++ rest) (parse (front ++ rest)) := by
  obtain ⟨arg, rfl⟩ := h.error herror
  have hall (more : List String) : parse (front ++ more) = .error (.unknownOption arg) := by
    rw [h.parse_append_eq_bind, herror]
    rfl
  rw [hall]
  refine .unknown fun more => ?_
  rw [List.append_assoc, hall]

theorem reading (args : List String) : Reading args (parse args) := by
  cases shape args with
  | complete hfront =>
    cases hparse : parse args with
    | ok o => exact .complete hfront
    | error e =>
      have h := hfront.reading_of_error hparse []
      rw [List.append_nil, hparse] at h
      exact h
  | @missing front option hfront hoption =>
    cases hparse : parse front with
    | ok o =>
      rw [hfront.parse_append_eq_bind, hparse, Except.bind, extend_missing hoption]
      exact .missing hfront hoption
    | error e => exact hfront.reading_of_error hparse _
  | @ended front words hfront =>
    cases hparse : parse front with
    | ok o =>
      rw [hfront.parse_append_eq_bind, hparse, Except.bind, extend_end]
      exact .ended ⟨front, words, hfront, rfl⟩
    | error e => exact hfront.reading_of_error hparse _

theorem complete_of_parse {args : List String} {o : Options} (h : parse args = .ok o)
    (hend : ¬ EndsOptions args) : Complete args := by
  have hreading := reading args
  rw [h] at hreading
  cases hreading with
  | complete hargs => exact hargs
  | ended hends => exact (hend hends).elim

theorem Complete.parse_append_eq_map {args : List String} (h : Complete args) {x : Options}
    (hx : parse args = .ok x) (more : List String) :
    parse (args ++ more) = (parse more).map x.merge := by
  rw [h.parse_append_eq_bind, hx]
  exact extend_eq_map_parse x more

/-- The value may as well stand in one argument with the option. -/
theorem Complete.parse_append_option {front : List String} (h : Complete front) {option : String}
    (hoption : TakesValue option) (value : String) (rest : List String) :
    parse (front ++ [option] ++ value :: rest) = parse (front ++ ("--fst=" ++ value) :: rest) := by
  rw [List.append_assoc, h.parse_append_eq_bind, h.parse_append_eq_bind]
  refine congrArg (Except.bind _) (funext fun o => ?_)
  rw [List.singleton_append, extend_value hoption, extend_path]

/-- Arguments add up. Where no `--` ends the options, what follows is read as on its own and added
to what was said before, or fails as on its own. An unknown option fails in the same way whatever
follows. An option that lacks its value takes the next argument, as if it stood in one argument
with it. Behind `--` all arguments are words, so all options can be said by arguments. -/
theorem parse_append (a b : List String) :
    (¬ EndsOptions a → ∀ x, parse a = .ok x → parse (a ++ b) = (parse b).map x.merge) ∧
    (∀ arg, parse a = .error (.unknownOption arg) →
      parse (a ++ b) = .error (.unknownOption arg)) ∧
    (∀ option, parse a = .error (.missingValue option) →
      ∃ front, a = front ++ [option] ∧ TakesValue option ∧ ∀ value rest, b = value :: rest →
        parse (a ++ b) = parse (front ++ ("--fst=" ++ value) :: rest)) ∧
    (∀ words, parse ("--" :: words) = .ok { words }) ∧
    ∀ o : Options, parse o.toArguments = .ok o := by
  refine ⟨fun hend x hx => (complete_of_parse hx hend).parse_append_eq_map hx b,
    fun arg harg => ?_, fun option hoption => ?_, fun words => rfl, parse_toArguments⟩
  · have hreading := reading a
    rw [harg] at hreading
    cases hreading with
    | unknown hmore => exact hmore b
  · have hreading := reading a
    rw [hoption] at hreading
    cases hreading with
    | @missing front _ hfront hvalue =>
      refine ⟨front, rfl, hvalue, ?_⟩
      rintro value rest rfl
      exact hfront.parse_append_option hvalue value rest

/-- A `--` that is a path, an unknown option, and an option that lacks its value. -/
theorem parse_append_small :
    ¬ EndsOptions ["-f", "--", "a"] ∧
    parse (["-f", "--", "a"] ++ ["--fst=t", "--", "--json"]) =
      .ok { path := some "t", words := ["a", "--json"] } ∧
    parse (["a", "-x"] ++ ["--fst"]) = .error (.unknownOption "-x") ∧
    parse (["-v", "--fst"] ++ ["--", "a"]) =
      .ok { path := some "--", verbose := true, words := ["a"] } ∧
    parse (toArguments { path := some "t", json := true, words := ["--", ""] }) =
      .ok { path := some "t", json := true, words := ["--", ""] } := by
  have hend : ¬ EndsOptions ["-f", "--", "a"] :=
    Complete.not_endsOptions (.value (.inl rfl) (.other (by decide) (by decide) .nil))
  obtain ⟨hmore, -, -, -, hround⟩ := parse_append ["-f", "--", "a"] ["--fst=t", "--", "--json"]
  obtain ⟨-, hunknown, -⟩ := parse_append ["a", "-x"] ["--fst"]
  obtain ⟨-, -, hmissing, -⟩ := parse_append ["-v", "--fst"] ["--", "a"]
  obtain ⟨front, hfront, -, hvalue⟩ := hmissing "--fst" rfl
  obtain ⟨rfl, -⟩ : front = ["-v"] ∧ _ := List.append_inj' hfront.symm rfl
  exact ⟨hend, hmore hend { path := some "--", words := ["a"] } rfl, hunknown "-x" rfl,
    hvalue "--" ["a"] rfl, hround _⟩

end TransducerLookup.Options
