import Pensar.Model.CSOperations

/-!
# Histories of fixed strings

A history is a sequence of operations on any number of values of one type `CS<MIN, MAX>`,
which are numbered in the order in which they are constructed.  An operation that throws
leaves everything as it was, and a constructor that throws makes no value.

`logicalStep` is what the history is meant to do to the strings that the values stand for.
-/

set_option autoImplicit false

namespace Pensar.Interface

open Pensar.Computation
open Pensar.Model

/-- An operation; `value` and `source` are numbers of values. -/
inductive CSCall (MIN MAX : ℕ) (cs as : Bool) where
  | constructDefault
  | construct (storage : CS MIN MAX cs as) (str : S)
  | constructC (storage : CS MIN MAX cs as) (str : CString)
  | constructCopy (source : ℕ)
  | copy (value : ℕ) (str : S) (addNullAtEnd fillNullBeforeCopy : Bool)
  | copyC (value : ℕ) (str : CString)
  | assignString (value : ℕ) (str : S)
  | assignC (value : ℕ) (str : CString)
  | copyAssign (value source : ℕ)
  | assign (value source : ℕ)
  | read (value : ℕ) (is : InStream)
  | append (value source : ℕ)
  | plus (value source : ℕ)

section

variable {MIN MAX : ℕ} {cs as : Bool}

/-- A constructor, or an operation that returns a value. -/
def produce (values : List (CS MIN MAX cs as)) :
    Outcome (Except String (CS MIN MAX cs as)) → Outcome (List (CS MIN MAX cs as))
  | .value (.ok v) => .value (values ++ [v])
  | .value (.error _) => .value values
  | .undefined => .undefined
  | .terminated => .terminated

/-- An operation on the value with the number `i`. -/
def change (values : List (CS MIN MAX cs as)) (i : ℕ) :
    Outcome (Except String (CS MIN MAX cs as)) → Outcome (List (CS MIN MAX cs as))
  | .value (.ok v) => .value (values.set i v)
  | .value (.error _) => .value values
  | .undefined => .undefined
  | .terminated => .terminated

/-- An operation on one value; a history names only values that exist. -/
def withValue (values : List (CS MIN MAX cs as)) (i : ℕ)
    (f : CS MIN MAX cs as → Outcome (List (CS MIN MAX cs as))) :
    Outcome (List (CS MIN MAX cs as)) :=
  match values[i]? with
  | none => .value values
  | some v => f v

def csStep (values : List (CS MIN MAX cs as)) :
    CSCall MIN MAX cs as → Outcome (List (CS MIN MAX cs as))
  | .constructDefault => produce values (.value (.ok CS.new))
  | .construct storage str => produce values (.value (storage.ofString str))
  | .constructC storage str => produce values (.value (storage.copyC str))
  | .constructCopy source =>
    withValue values source fun v => produce values (.value (.ok v))
  | .copy value str addNullAtEnd fillNullBeforeCopy =>
    withValue values value fun v =>
      change values value (.value (v.copy str addNullAtEnd fillNullBeforeCopy))
  | .copyC value str =>
    withValue values value fun v => change values value (.value (v.copyC str))
  | .assignString value str =>
    withValue values value fun v =>
      change values value ((v.assignString str) >>= fun v => .value (.ok v))
  | .assignC value str =>
    withValue values value fun v => change values value (.value (v.copyC str))
  | .copyAssign value source =>
    withValue values source fun w => change values value (.value (.ok w))
  | .assign value source =>
    withValue values value fun v => withValue values source fun w =>
      change values value (v.assign w (value = source))
  | .read value is =>
    withValue values value fun v => change values value (.value (v.read is).1)
  | .append value source =>
    withValue values value fun v => withValue values source fun w =>
      change values value (v.append w)
  | .plus value source =>
    withValue values value fun v => withValue values source fun w =>
      produce values (v.plus w)

end

/-! ## The strings they stand for -/

/-- The strings that `copy` takes. -/
def Admissible (MIN MAX : ℕ) (s : S) : Prop := MIN ≤ s.length ∧ s.length < MAX

instance (MIN MAX : ℕ) (s : S) : Decidable (Admissible MIN MAX s) :=
  inferInstanceAs (Decidable (_ ∧ _))

section

variable {MIN MAX : ℕ} {cs as : Bool}

def logicalStep (strings : List S) : CSCall MIN MAX cs as → List S
  | .constructDefault => strings ++ [[]]
  | .construct _ str => if Admissible MIN MAX str then strings ++ [str] else strings
  | .constructC _ str => if Admissible MIN MAX str.val then strings ++ [str.val] else strings
  | .constructCopy source => strings ++ strings[source]?.toList
  | .copy value str _ _ => if Admissible MIN MAX str then strings.set value str else strings
  | .copyC value str => if Admissible MIN MAX str.val then strings.set value str.val else strings
  | .assignString value str =>
    if Admissible MIN MAX str then strings.set value str else strings
  | .assignC value str =>
    if Admissible MIN MAX str.val then strings.set value str.val else strings
  | .copyAssign value source =>
    match strings[source]? with
    | none => strings
    | some t => strings.set value t
  | .assign value source =>
    match strings[source]? with
    | none => strings
    | some t => if Admissible MIN MAX t then strings.set value t else strings
  | .read value is =>
    let word := is.extract.1
    if Admissible MIN MAX word then strings.set value word else strings
  | .append value source =>
    match strings[value]?, strings[source]? with
    | some s, some t => if s.length + t.length < MAX then strings.set value (s ++ t) else strings
    | _, _ => strings
  | .plus value source =>
    match strings[value]?, strings[source]? with
    | some s, some t => if s.length + t.length < MAX then strings ++ [s ++ t] else strings
    | _, _ => strings

/-- The values and, next to them, the strings they stand for. -/
def annotatedStep (state : List (CS MIN MAX cs as) × List S) (call : CSCall MIN MAX cs as) :
    Outcome (List (CS MIN MAX cs as) × List S) :=
  csStep state.1 call >>= fun values => .value (values, logicalStep state.2 call)

end

end Pensar.Interface
