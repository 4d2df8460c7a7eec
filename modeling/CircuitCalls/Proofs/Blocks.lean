import CircuitCalls.Call.Basic

/-!
# Blocks of programs

A program is a flat list, so that the blocks around a call are those that the calls before it have
opened and not yet closed. `Program.sites` lists the calls with the blocks around them, innermost
first.
-/

namespace CircuitCalls

namespace Call

/-- Whether the call opens a block. -/
def opensBlock : Call → Bool
  | beginIf _ | beginWhile _ | beginFor _ => true
  | _ => false

/-- Whether the call is made for an operation of a circuit; the others are sizes and the brackets
that follow the opening one. -/
def isOperation : Call → Bool
  | setQubitCount _ | setClbitCount _ | otherwise | endBlock => false
  | _ => true

/-- The open blocks after a call, innermost first. -/
def nest (blocks : List Call) : Call → List Call
  | endBlock => blocks.tail
  | call => if call.opensBlock then call :: blocks else blocks

theorem nest_open {call : Call} (h : call.opensBlock = true) (blocks : List Call) :
    call.nest blocks = call :: blocks := by
  cases call with
  | beginIf guard => rfl
  | beginWhile guard => rfl
  | beginFor header => rfl
  | _ => cases h

end Call

/-- A call and the calls that opened the blocks around it, innermost first. -/
structure Site where
  around : List Call
  call : Call

namespace Site

def loopVars (site : Site) : List String := site.around.filterMap Call.loopVar?

/-- The variables of nested loops, the call itself being the innermost if it opens a loop. -/
def chain (site : Site) : List String := (site.call :: site.around).filterMap Call.loopVar?

end Site

def sitesFrom (blocks : List Call) : List Call → List Site
  | [] => []
  | call :: rest => ⟨blocks, call⟩ :: sitesFrom (call.nest blocks) rest

/-- The calls of a program with the blocks around them. -/
def Program.sites (p : Program) : List Site := sitesFrom [] p.calls

/-- Code that closes every block it opens and no other. -/
def ClosesBlocks (code : List Call) : Prop :=
  ∀ blocks, code.foldl Call.nest blocks = blocks

theorem sitesFrom_append (blocks xs ys : List Call) :
    sitesFrom blocks (xs ++ ys) = sitesFrom blocks xs ++ sitesFrom (xs.foldl Call.nest blocks) ys := by
  induction xs generalizing blocks with
  | nil => rfl
  | cons call rest ih =>
    rw [List.cons_append, sitesFrom, sitesFrom, ih, List.cons_append, List.foldl_cons]

theorem sitesFrom_append_of_closes {xs : List Call} (h : ClosesBlocks xs) (blocks ys : List Call) :
    sitesFrom blocks (xs ++ ys) = sitesFrom blocks xs ++ sitesFrom blocks ys := by
  rw [sitesFrom_append, h]

namespace ClosesBlocks

variable {call : Call} {xs ys zs : List Call}

theorem append (hx : ClosesBlocks xs) (hy : ClosesBlocks ys) : ClosesBlocks (xs ++ ys) := by
  intro blocks
  rw [List.foldl_append, hx, hy]

theorem block (h : call.opensBlock = true) (hx : ClosesBlocks xs) :
    ClosesBlocks (call :: (xs ++ [.endBlock])) := by
  intro blocks
  rw [List.foldl_cons, Call.nest_open h, List.foldl_append, hx]
  rfl

theorem conditional (h : call.opensBlock = true) (hx : ClosesBlocks xs) (hy : ClosesBlocks ys) :
    ClosesBlocks (call :: (xs ++ .otherwise :: (ys ++ [.endBlock]))) := by
  intro blocks
  rw [List.foldl_cons, Call.nest_open h, List.foldl_append, hx, List.foldl_cons]
  rw [List.foldl_append, show Call.otherwise.nest (call :: blocks) = call :: blocks from rfl, hy]
  rfl

end ClosesBlocks

/-- A block has its opening call outside, and the rest up to its end inside. -/
theorem sitesFrom_block {call : Call} {xs : List Call} (h : call.opensBlock = true)
    (hx : ClosesBlocks xs) (blocks ys : List Call) :
    sitesFrom blocks (call :: (xs ++ .endBlock :: ys)) =
      ⟨blocks, call⟩ :: (sitesFrom (call :: blocks) xs ++
        ⟨call :: blocks, .endBlock⟩ :: sitesFrom blocks ys) := by
  rw [sitesFrom, Call.nest_open h, sitesFrom_append_of_closes hx]
  rfl

theorem sitesFrom_conditional {call : Call} {xs ys : List Call} (h : call.opensBlock = true)
    (hx : ClosesBlocks xs) (hy : ClosesBlocks ys) (blocks zs : List Call) :
    sitesFrom blocks (call :: (xs ++ .otherwise :: (ys ++ .endBlock :: zs))) =
      ⟨blocks, call⟩ :: (sitesFrom (call :: blocks) xs ++ ⟨call :: blocks, .otherwise⟩ ::
        (sitesFrom (call :: blocks) ys ++ ⟨call :: blocks, .endBlock⟩ :: sitesFrom blocks zs)) := by
  rw [sitesFrom, Call.nest_open h, sitesFrom_append_of_closes hx, sitesFrom,
    show Call.otherwise.nest (call :: blocks) = call :: blocks from rfl, sitesFrom_append_of_closes hy]
  rfl

end CircuitCalls
