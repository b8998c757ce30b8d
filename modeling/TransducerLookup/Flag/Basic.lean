/-!
# Flag diacritics

A flag diacritic is a symbol without text that constrains the path it lies on.
It names a feature and a value. Along a path each feature holds one number:
neutral (0), the id of the value it was set to, or the negated id of a value it
is known not to have.
-/

namespace TransducerLookup.Flag

inductive Operator where
  /-- Set the feature to the value. -/
  | positiveSet
  /-- Set the feature to anything but the value. -/
  | negativeSet
  /-- Pass if the feature has the value; without a value, if it is set at all. -/
  | require
  /-- Pass exactly where `require` does not. -/
  | disallow
  /-- Make the feature neutral. -/
  | clear
  /-- Set the feature to the value unless it has another one. -/
  | unify
  deriving DecidableEq, Repr

namespace Operator

/-- The letter that stands for the operator in a symbol. -/
def code : Operator → Char
  | positiveSet => 'P'
  | negativeSet => 'N'
  | require => 'R'
  | disallow => 'D'
  | clear => 'C'
  | unify => 'U'

def ofCode? : Char → Option Operator
  | 'P' => some positiveSet
  | 'N' => some negativeSet
  | 'R' => some require
  | 'D' => some disallow
  | 'C' => some clear
  | 'U' => some unify
  | _ => none

theorem ofCode?_code (op : Operator) : ofCode? op.code = some op := by cases op <;> rfl

end Operator

/-- The value of a feature that is not set, and the id of the empty value. -/
def neutral : Int32 := 0

structure Operation where
  operator : Operator
  feature : UInt16
  value : Int32
  deriving DecidableEq, Repr

inductive Verdict where
  | reject
  | accept
  /-- Accept, and give the feature this value on the rest of the path. -/
  | update (value : Int32)
  deriving DecidableEq, Repr

namespace Operation

/-- Whether a feature that holds `current` meets the requirement of the operation. -/
def requirementHolds (o : Operation) (current : Int32) : Bool :=
  if o.value = neutral then current ≠ neutral else current = o.value

/-- The verdict on the operation where its feature holds `current`. -/
def check (o : Operation) (current : Int32) : Verdict :=
  match o.operator with
  | .positiveSet => .update o.value
  | .negativeSet => .update (-o.value)
  | .clear => .update neutral
  | .require => if o.requirementHolds current then .accept else .reject
  | .disallow => if o.requirementHolds current then .reject else .accept
  | .unify =>
    if current = neutral ∨ current = o.value ∨ current < 0 then .update o.value else .reject

end Operation

end TransducerLookup.Flag
