import CircuitCalls.Parameter.Basic
import CircuitCalls.Number.Layout

/-!
# Parameters as text

A parameter is written with all its parentheses. The description of a parameter writes numbers
plainly and π as `pi`; an argument of a simulator call writes numbers so that they read as floating
point, and π as `M_PI`.
-/

namespace CircuitCalls

/-- Numbers in simulator calls (`format_float`): a whole number keeps `.0`, and magnitudes below `1e-4` or
from `1e16` on have an exponent of a sign and at least two digits. -/
def argumentLayout : Layout where
  positional e := -4 ≤ e && e ≤ 15
  pointZero := true
  plusSign := true
  exponentWidth := 2
  tie := .away
  notANumber := "nan"
  infinity := "inf"
  negativeInfinity := "-inf"

namespace Parameter

/-- A parameter with its structure, numbers and π written as given. -/
def write (number : Float → String) (piName : String) : Parameter → String
  | constant v => number v
  | symbol name => name
  | pi => piName
  | neg e => "-(" ++ e.write number piName ++ ")"
  | binary op a b =>
    "(" ++ a.write number piName ++ " " ++ op.sign ++ " " ++ b.write number piName ++ ")"

def text (p : Parameter) : String := p.write Layout.plain.write "pi"

/-- The parameter as an argument of a simulator call (`format_parameter`): its value if it has one, and
otherwise its structure after folding constants. -/
def argument (p : Parameter) : String :=
  match p.value? with
  | some v => argumentLayout.write v
  | none => p.simplify.write argumentLayout.write "M_PI"

end Parameter

end CircuitCalls
