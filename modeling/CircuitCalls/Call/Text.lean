import CircuitCalls.Call.Basic
import CircuitCalls.Settings

/-!
# Programs as text

One line for each call, indented by its depth. Lists of bit numbers stand in braces.
-/

namespace CircuitCalls

/-- Items in braces, divided by `separator`. -/
def braced (separator : String) (items : List String) : String :=
  "\x7b" ++ separator.intercalate items ++ "\x7d"

def bracedNumbers (separator : String) (numbers : List Nat) : String :=
  braced separator (numbers.map toString)

def signedText (n : Int64) : String := toString n.toInt

/-- The comparison that a guard stands for (`render` of a condition). -/
def Guard.text (simulator : String) (g : Guard) : String :=
  let bits := match g.clbits with
    | [b] => toString b
    | bits => bracedNumbers ", " bits
  simulator ++ ".read(" ++ bits ++ ") == " ++ toString g.value.toNat

/-- How a loop variable goes on to its next value. -/
def advanceText (loopVar : String) (step : Int64) : String :=
  if step = 1 then "++" ++ loopVar
  else if step = -1 then "--" ++ loopVar
  else loopVar ++ " += " ++ signedText step

/-- The inside of a loop's parentheses (`render` of a header). -/
def LoopHeader.text : LoopHeader → String
  | range v start stop step =>
    let comparison := if 0 < step then " < " else " > "
    "int " ++ v ++ " = " ++ signedText start ++ "; " ++ v ++ comparison ++ signedText stop ++ "; " ++
      advanceText v step
  | values v items => "int " ++ v ++ " : " ++ braced ", " (items.map signedText)

/-- A call without its indentation (`render` of a call). -/
def Call.text (simulator : String) : Call → String
  | setQubitCount count => simulator ++ ".set_num_qubits(" ++ toString count ++ ");"
  | setClbitCount count => simulator ++ ".set_num_clbits(" ++ toString count ++ ");"
  | gate roles arguments =>
    let lists := [roles.targets, roles.positive, roles.negative].map (bracedNumbers ", ")
    simulator ++ ".gate_" ++ roles.root ++ "(" ++ ", ".intercalate (arguments ++ lists) ++ ");"
  | measure qubits clbits =>
    simulator ++ ".measure(" ++ bracedNumbers "," qubits ++ ", " ++ bracedNumbers "," clbits ++ ");"
  | beginIf guard => "if (" ++ guard.text simulator ++ ") \x7b"
  | otherwise => "\x7d else \x7b"
  | beginWhile guard => "while (" ++ guard.text simulator ++ ") \x7b"
  | beginFor header => "for (" ++ header.text ++ ") \x7b"
  | endBlock => "\x7d"

def Line.text (s : Settings) (l : Line) : String :=
  String.ofList (List.replicate (s.indentWidth * l.depth) ' ') ++ l.call.text s.simulator ++ "\n"

/-- The whole program (`to_text`). -/
def Program.text (s : Settings) (p : Program) : String := String.join (p.lines.map (Line.text s))

end CircuitCalls
