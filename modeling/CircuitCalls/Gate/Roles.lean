import CircuitCalls.Gate.Basic

/-!
# The roles of a gate's operands

The simulator knows only gates without controls: a controlled gate is applied by the name of its
root, with the operands split into targets, controls that fire on 1 and controls that fire on 0.
Controls come first in the operand list, those of the outermost wrapper before those further in.

A custom gate has no known root. When nothing wraps it, and its name is a standard one with a mark of
control in front (`mc`, `c` and a number, or a row of `c`), it is taken for that controlled gate, as
long as it has operands enough.
-/

namespace CircuitCalls

/-- A gate as its root and the polarity of each control in operand order, `true` for a control that fires on
1: what `ControlSpec` says of a gate. -/
structure ControlPlan where
  root : String
  polarity : List Bool
deriving DecidableEq, Repr

/-- The operands of a gate by their role; operands may be numbers or bits. -/
structure Roles (α : Type) where
  root : String
  targets : List α
  positive : List α
  negative : List α
deriving DecidableEq, Repr

/-- The polarities of `controls` controls under a mask. -/
def maskPolarity (controls : UInt32) (mask : Option UInt64) : List Bool :=
  (List.range controls.toNat).map fun i =>
    match mask with
    | some mask => mask.toNat.testBit i
    | none => true

namespace Gate

/-- What a gate name leaves behind its mark of control. -/
def unmarked? : List Char → Option (List Char)
  | 'm' :: 'c' :: rest => some rest
  | 'c' :: rest =>
    if (rest.head?.map Char.isDigit).getD false then some (rest.dropWhile Char.isDigit)
    else some (rest.dropWhile (· == 'c'))
  | _ => none

/-- A custom gate name taken for a controlled standard gate on this many operands (`strip_control_prefix`). -/
def markedPlan? (name : String) (operands : Nat) : Option ControlPlan := do
  let base ← unmarked? name.toList
  let arity ← StandardGate.rootArity? (String.ofList base)
  if arity < operands then
    some ⟨String.ofList base, List.replicate (operands - arity) true⟩
  else none

/-- The root of a gate on `operands` operands and all its controls, with those of the wrappers
around it in front. -/
def planUnder (operands : Nat) (outer : List Bool) : Gate → ControlPlan
  | standard g _ => ⟨g.root.name, outer ++ List.replicate g.controls true⟩
  | custom g _ =>
    if outer.isEmpty then (markedPlan? g.name operands).getD ⟨g.name, outer⟩ else ⟨g.name, outer⟩
  | controlled _ controls mask base _ => planUnder operands (outer ++ maskPolarity controls mask) base

/-- The root of a gate on `operands` operands and all its controls (`resolve`). -/
def plan (g : Gate) (operands : Nat) : ControlPlan := planUnder operands [] g

/-- The operands split by role (`decompose`). -/
def roles {α : Type} (g : Gate) (operands : List α) : Roles α :=
  let plan := g.plan operands.length
  let controls := operands.zip plan.polarity
  { root := plan.root
    targets := operands.drop plan.polarity.length
    positive := (controls.filter (·.2)).map (·.1)
    negative := (controls.filter (!·.2)).map (·.1) }

end Gate

end CircuitCalls
