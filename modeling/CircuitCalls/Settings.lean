import CircuitCalls.Json.Record
import CircuitCalls.Numbering

/-!
# Settings

What can be chosen when a circuit is turned into calls.
-/

namespace CircuitCalls

/-- The choices for one program. -/
structure Settings where
  discovery : Discovery := .declared
  /-- Spaces for each level of nesting. -/
  indentWidth : Nat := 4
  /-- The variable of a loop that names none. -/
  defaultLoopVar : String := "loop_num"
  /-- The object on which all calls are made. -/
  simulator : String := "sim"
deriving DecidableEq

def Discovery.ofJson? (j : Json) : Option Discovery :=
  (j.bareVariant? .strict).bind ofName?

namespace Settings

def toJson (s : Settings) : Json :=
  .obj [("discovery", .str s.discovery.name), ("indent_width", .nat s.indentWidth),
    ("default_loop_var", .str s.defaultLoopVar), ("simulator", .str s.simulator)]

/-- The settings of a JSON form, with the usual choice for each missing field. -/
def ofJson? (j : Json) : Option Settings :=
  match j.fields? ["discovery", "indent_width", "default_loop_var", "simulator"] with
  | some [discovery, indentWidth, defaultLoopVar, simulator] => do
    let usual : Settings := {}
    let discovery ← Json.withDefault? usual.discovery Discovery.ofJson? discovery
    let indentWidth ← Json.withDefault? usual.indentWidth Json.asCount? indentWidth
    let defaultLoopVar ← Json.withDefault? usual.defaultLoopVar Json.asString? defaultLoopVar
    let simulator ← Json.withDefault? usual.simulator Json.asString? simulator
    some { discovery, indentWidth, defaultLoopVar, simulator }
  | _ => none

end Settings

end CircuitCalls
