/-!
# JSON values

Objects keep the order of their fields and may repeat a key: what a repeated key means is for the
reader of a record to say. Numbers written without a point or an exponent are kept as integers while
they fit in 64 bits; all others are doubles.
-/

namespace CircuitCalls

inductive Json where
  | null
  | bool (value : Bool)
  | int (value : Int)
  | float (value : Float)
  | str (value : String)
  | arr (items : List Json)
  | obj (fields : List (String × Json))

namespace Json

/-- A list of values, each written by `f`. -/
def ofList {α : Type} (f : α → Json) (xs : List α) : Json := .arr (xs.map f)

def nat (n : Nat) : Json := .int n

/-- A field that is left out when it has no value. -/
def field? {α : Type} (name : String) (f : α → Json) : Option α → List (String × Json)
  | none => []
  | some a => [(name, f a)]

end Json

end CircuitCalls
