import CircuitCalls.Json.Reader

/-!
# Records and variants in JSON

The rules by which records, alternatives and scalars of the data formats are read from a JSON value.

* A record is an object, or an array of its fields in order. Unknown fields are ignored, a known
  field may not be repeated, and an array may stop early but not run over.
* An alternative is named by the only key of an object, whose value is its content, or by a plain
  string when it has none.
* A tagged record carries the name of its alternative in one of its fields, or as the first item.
* The parts of a tagged record are read loosely: there an empty object too says that an alternative
  has no content, and a tag may be the place of an alternative among all of its kind.
-/

namespace CircuitCalls

namespace Json

/-! ## Scalars -/

def asString? : Json → Option String
  | str s => some s
  | _ => none

/-- A whole number from `low` to `high`. -/
def asIntBetween? (low high : Int) : Json → Option Int
  | int n => if low ≤ n ∧ n ≤ high then some n else none
  | _ => none

def asNatBelow? (bound : Nat) : Json → Option Nat
  | int n => if 0 ≤ n ∧ n < bound then some n.toNat else none
  | _ => none

def asUInt32? (j : Json) : Option UInt32 := (j.asNatBelow? UInt32.size).map UInt32.ofNat

def asUInt64? (j : Json) : Option UInt64 := (j.asNatBelow? UInt64.size).map UInt64.ofNat

def asInt64? (j : Json) : Option Int64 :=
  (j.asIntBetween? Int64.minValue.toInt Int64.maxValue.toInt).map Int64.ofInt

/-- A number of a machine word, for a count or a depth. -/
def asCount? (j : Json) : Option Nat := j.asNatBelow? UInt64.size

def asFloat? : Json → Option Float
  | int n => some (Float.ofInt n)
  | float x => some x
  | _ => none

/-- An array whose items all read. -/
def asList? {α : Type} (read : Json → Option α) : Json → Option (List α)
  | arr items => items.mapM read
  | _ => none

/-- A field that may be absent or `null`. -/
def optional? {α : Type} (read : Json → Option α) : Option Json → Option (Option α)
  | none => some none
  | some null => some none
  | some j => (read j).map some

/-- A field that has a default when it is absent; `null` is no value for it. -/
def withDefault? {α : Type} (default : α) (read : Json → Option α) : Option Json → Option α
  | none => some default
  | some j => read j

/-! ## Records -/

/-- The value of a field of an object, or a refusal if it occurs twice. -/
def lookup? (name : String) (fields : List (String × Json)) : Option (Option Json) :=
  match fields.filter (·.1 == name) with
  | [] => some none
  | [(_, value)] => some (some value)
  | _ => none

/-- The fields of a record in the order of `names`, absent ones as `none`. -/
def fields? (names : List String) : Json → Option (List (Option Json))
  | obj fields => names.mapM (lookup? · fields)
  | arr items =>
    if items.length ≤ names.length then
      some (items.map some ++ List.replicate (names.length - items.length) none)
    else none
  | _ => none

/-! ## Alternatives -/

/-- How strictly alternatives are read: loosely in a tagged record, strictly outside of any. -/
inductive Strictness where
  | strict
  | loose
deriving DecidableEq, Repr

/-- An alternative and its content; a plain string names one without content. -/
def variant? : Json → Option (String × Option Json)
  | str name => some (name, none)
  | obj [(name, content)] => some (name, some content)
  | _ => none

def isNothing (strictness : Strictness) : Json → Bool
  | null => true
  | obj [] => strictness == .loose
  | _ => false

/-- The name of an alternative that has no content. -/
def bareVariant? (strictness : Strictness) (j : Json) : Option String :=
  match j.variant? with
  | some (name, none) => some name
  | some (name, some content) => if content.isNothing strictness then some name else none
  | none => none

/-- The alternative among `names` that a tag tells, by its name or by its place. -/
def alternative? (strictness : Strictness) (names : List String) : Json → Option String
  | str name => if name ∈ names then some name else none
  | int place => if strictness = .loose ∧ 0 ≤ place then names[place.toNat]? else none
  | _ => none

/-- The alternative in the field `tag` and the record without that field, or that in the first item
of an array and the other items. -/
def tagged? (strictness : Strictness) (tag : String) (names : List String) :
    Json → Option (String × Json)
  | obj fields => do
    let some told ← lookup? tag fields | none
    let name ← told.alternative? strictness names
    some (name, obj (fields.filter (·.1 != tag)))
  | arr (told :: items) => do
    let name ← told.alternative? strictness names
    some (name, arr items)
  | _ => none

end Json

end CircuitCalls
