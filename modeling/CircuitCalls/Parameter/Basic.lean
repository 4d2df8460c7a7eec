/-!
# Gate parameters

A parameter is a constant, a symbol (a free angle or a loop variable), π, or arithmetic on
parameters. Symbols are never resolved here: they can be renamed or bound to a value, and the parts
without symbols can be folded into constants.
-/

namespace CircuitCalls

/-- The operators of parameters with two operands. -/
inductive Arithmetic where
  | add
  | sub
  | mul
  | div
deriving DecidableEq, Repr

/-- A gate parameter. -/
inductive Parameter where
  | constant (value : Float)
  | symbol (name : String)
  | pi
  | neg (operand : Parameter)
  | binary (op : Arithmetic) (left right : Parameter)
deriving DecidableEq

def piValue : Float := 3.141592653589793

/-- The operator on numbers; nothing is divided by zero. -/
def Arithmetic.apply : Arithmetic → Float → Float → Option Float
  | .add, x, y => some (x + y)
  | .sub, x, y => some (x - y)
  | .mul, x, y => some (x * y)
  | .div, x, y => if y == 0 then none else some (x / y)

def Arithmetic.sign : Arithmetic → String
  | .add => "+"
  | .sub => "-"
  | .mul => "*"
  | .div => "/"

namespace Parameter

/-- Whether a symbol occurs (`is_symbolic`). -/
def isSymbolic : Parameter → Bool
  | constant _ => false
  | symbol _ => true
  | pi => false
  | neg e => e.isSymbolic
  | binary _ a b => a.isSymbolic || b.isSymbolic

/-- The number that a parameter without symbols stands for, unless it divides by zero (`as_f64`). -/
def value? : Parameter → Option Float
  | constant v => some v
  | symbol _ => none
  | pi => some piValue
  | neg e => e.value?.map (- ·)
  | binary op a b => do
    let y ← b.value?
    let x ← a.value?
    op.apply x y

/-- The symbols from left to right, with repetitions, in the order of `collect_symbols`. -/
def occurrences : Parameter → List String
  | constant _ => []
  | symbol name => [name]
  | pi => []
  | neg e => e.occurrences
  | binary _ a b => a.occurrences ++ b.occurrences

/-- The symbols, each once, in the order of their characters. -/
def symbols (p : Parameter) : List String :=
  p.occurrences.eraseDups.mergeSort fun a b => !decide (b < a)

/-- Renames all symbols at once (`map_symbols`). -/
def rename (f : String → String) : Parameter → Parameter
  | constant v => constant v
  | symbol name => symbol (f name)
  | pi => pi
  | neg e => neg (e.rename f)
  | binary op a b => binary op (a.rename f) (b.rename f)

/-- Puts a number in place of a symbol (`bind`). -/
def bind (name : String) (value : Float) : Parameter → Parameter
  | constant v => constant v
  | symbol n => if n = name then constant value else symbol n
  | pi => pi
  | neg e => neg (e.bind name value)
  | binary op a b => binary op (a.bind name value) (b.bind name value)

/-- The constant that `p` stands for, or `p` itself if it divides by zero. -/
def fold (p : Parameter) : Parameter :=
  match p.value? with
  | some v => constant v
  | none => p

/-- Folds the largest parts without symbols into constants (`simplify`). A π that stands alone is kept, so
that it can still be written by name. -/
def simplify : Parameter → Parameter
  | constant v => constant v
  | symbol name => symbol name
  | pi => pi
  | neg e => if e.isSymbolic then neg e.simplify else (neg e).fold
  | binary op a b =>
    if a.isSymbolic || b.isSymbolic then binary op a.simplify b.simplify else (binary op a b).fold

end Parameter

end CircuitCalls
