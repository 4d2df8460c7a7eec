import CircuitCalls.Proofs.Representation

/-!
# Blocks of a program and the tree of operations

A program is a flat list of lines, but its brackets make a tree of it. `Program.trees?` reads the list
with a stack of open blocks and refuses every line that is out of place: an end or an alternative must
have the depth of the block that it belongs to, an alternative must follow the body of a conditional
that has none yet, and any other line must be as deep as there are open blocks.

What is emitted can be read, and its trees mirror the operations of the circuit
(`emitted_blocks_mirror_operations`). Two lemmas carry this: the lines of a list of operations are
those of trees that mirror it, and reading the lines of such trees gives the trees back.
-/

namespace CircuitCalls

/-- A call of a program with what it encloses. -/
inductive CallTree where
  | plain (call : Call)
  /-- A block with its body and, if it has one, its alternative. -/
  | block (opener : Call) (body : List CallTree) (alternative : Option (List CallTree))

namespace CallTree

mutual

/-- The lines of a tree whose first one is at a depth. -/
def lines (depth : Nat) : CallTree → List Line
  | plain call => [⟨depth, call⟩]
  | block opener body alternative =>
    ⟨depth, opener⟩ :: (linesAll (depth + 1) body ++ ((match alternative with
      | some trees => ⟨depth, .otherwise⟩ :: linesAll (depth + 1) trees
      | none => []) ++ [⟨depth, .endBlock⟩]))

def linesAll (depth : Nat) : List CallTree → List Line
  | [] => []
  | tree :: rest => lines depth tree ++ linesAll depth rest

end

@[simp] theorem linesAll_nil (depth : Nat) : linesAll depth [] = [] := rfl

@[simp] theorem linesAll_plain (depth : Nat) (call : Call) (rest : List CallTree) :
    linesAll depth (.plain call :: rest) = ⟨depth, call⟩ :: linesAll depth rest := rfl

@[simp] theorem linesAll_block (depth : Nat) (opener : Call) (body rest : List CallTree) :
    linesAll depth (.block opener body none :: rest) =
      ⟨depth, opener⟩ :: (linesAll (depth + 1) body ++ ⟨depth, .endBlock⟩ :: linesAll depth rest) := by
  simp [linesAll, lines]

@[simp] theorem linesAll_branches (depth : Nat) (opener : Call) (body other rest : List CallTree) :
    linesAll depth (.block opener body (some other) :: rest) =
      ⟨depth, opener⟩ :: (linesAll (depth + 1) body ++ ⟨depth, .otherwise⟩ ::
        (linesAll (depth + 1) other ++ ⟨depth, .endBlock⟩ :: linesAll depth rest)) := by
  simp [linesAll, lines]

end CallTree

/-! ## Reading lines with a stack -/

/-- A block that is open: its first line, the trees of its body so far, and those of its alternative
once that has begun. -/
structure OpenBlock where
  opener : Line
  body : List CallTree
  alternative : Option (List CallTree)

def Call.isBeginIf : Call → Bool
  | beginIf _ => true
  | _ => false

/-- The next tree of a block goes to its alternative if that has begun. -/
def OpenBlock.add (block : OpenBlock) (tree : CallTree) : OpenBlock :=
  match block.alternative with
  | some trees => { block with alternative := some (trees ++ [tree]) }
  | none => { block with body := block.body ++ [tree] }

/-- The trees that stand in no block, and the open blocks, innermost first. -/
structure Reading where
  trees : List CallTree
  blocks : List OpenBlock

namespace Reading

/-- The next tree, which belongs to the innermost open block. -/
def add (r : Reading) (tree : CallTree) : Reading :=
  match r.blocks with
  | [] => { r with trees := r.trees ++ [tree] }
  | block :: outer => { r with blocks := block.add tree :: outer }

/-- Reads a line, unless it is out of place. -/
def step (r : Reading) (line : Line) : Option Reading :=
  match line.call, r.blocks with
  | .endBlock, block :: outer =>
    if line.depth = block.opener.depth then
      some (add ⟨r.trees, outer⟩ (.block block.opener.call block.body block.alternative))
    else none
  | .otherwise, block :: outer =>
    if line.depth = block.opener.depth ∧ block.opener.call.isBeginIf ∧ block.alternative.isNone then
      some ⟨r.trees, { block with alternative := some [] } :: outer⟩
    else none
  | .endBlock, [] => none
  | .otherwise, [] => none
  | call, blocks =>
    if line.depth = blocks.length then
      if call.opensBlock then some ⟨r.trees, ⟨line, [], none⟩ :: blocks⟩ else some (r.add (.plain call))
    else none

end Reading

/-- The trees of a program, in which every block that is opened is closed. -/
def Program.trees? (p : Program) : Option (List CallTree) :=
  match p.lines.foldlM Reading.step ⟨[], []⟩ with
  | some ⟨trees, []⟩ => some trees
  | _ => none

namespace Reading

def addAll (r : Reading) (trees : List CallTree) : Reading := trees.foldl add r

@[simp] theorem length_blocks_add (r : Reading) (tree : CallTree) :
    (r.add tree).blocks.length = r.blocks.length := by
  unfold add
  split
  · rfl
  · rename_i h
    simp [h]

@[simp] theorem length_blocks_addAll (r : Reading) (trees : List CallTree) :
    (r.addAll trees).blocks.length = r.blocks.length := by
  induction trees generalizing r with
  | nil => rfl
  | cons tree rest ih => exact (ih (r.add tree)).trans (length_blocks_add r tree)

theorem step_open {opener : Call} (hopen : opener.opensBlock = true) {r : Reading} {depth : Nat}
    (hr : r.blocks.length = depth) :
    r.step ⟨depth, opener⟩ = some ⟨r.trees, ⟨⟨depth, opener⟩, [], none⟩ :: r.blocks⟩ := by
  cases opener <;> simp_all [step, Call.opensBlock]

theorem addAll_top (done trees : List CallTree) : addAll ⟨done, []⟩ trees = ⟨done ++ trees, []⟩ := by
  induction trees generalizing done with
  | nil => simp [addAll]
  | cons tree rest ih =>
    have h := ih (done ++ [tree])
    simp only [addAll] at h
    simp [addAll, add, h]

theorem addAll_body (done : List CallTree) (opener : Line) (body : List CallTree)
    (outer : List OpenBlock) (trees : List CallTree) :
    addAll ⟨done, ⟨opener, body, none⟩ :: outer⟩ trees =
      ⟨done, ⟨opener, body ++ trees, none⟩ :: outer⟩ := by
  induction trees generalizing body with
  | nil => simp [addAll]
  | cons tree rest ih =>
    have h := ih (body ++ [tree])
    simp only [addAll] at h
    simp [addAll, add, OpenBlock.add, h]

theorem addAll_alternative (done : List CallTree) (opener : Line) (body other : List CallTree)
    (outer : List OpenBlock) (trees : List CallTree) :
    addAll ⟨done, ⟨opener, body, some other⟩ :: outer⟩ trees =
      ⟨done, ⟨opener, body, some (other ++ trees)⟩ :: outer⟩ := by
  induction trees generalizing other with
  | nil => simp [addAll]
  | cons tree rest ih =>
    have h := ih (other ++ [tree])
    simp only [addAll] at h
    simp [addAll, add, OpenBlock.add, h]

end Reading

/-- Whether the call is no bracket of a block. -/
def Call.isPlain : Call → Bool
  | setQubitCount _ | setClbitCount _ | gate _ _ | measure _ _ => true
  | _ => false

/-- Lines that are read as trees wherever as many blocks are open as they are deep. -/
def Reads (depth : Nat) (lines : List Line) (trees : List CallTree) : Prop :=
  ∀ r : Reading, r.blocks.length = depth → lines.foldlM Reading.step r = some (r.addAll trees)

namespace Reads

variable {depth : Nat} {opener call : Call} {xs ys : List Line} {ts us : List CallTree}

theorem nil : Reads depth [] [] := fun _ _ => rfl

theorem append (hx : Reads depth xs ts) (hy : Reads depth ys us) : Reads depth (xs ++ ys) (ts ++ us) := by
  intro r hr
  have hlength : (r.addAll ts).blocks.length = depth := by rw [Reading.length_blocks_addAll, hr]
  rw [List.foldlM_append, hx r hr]
  simp only [Option.bind_eq_bind, Option.bind_some]
  rw [hy _ hlength, Reading.addAll, Reading.addAll, Reading.addAll, List.foldl_append]

theorem plain (hplain : call.isPlain = true) : Reads depth [⟨depth, call⟩] [.plain call] := by
  intro r hr
  cases call <;> simp_all [Reading.step, Reading.addAll, Call.opensBlock, Call.isPlain]

theorem block (hopen : opener.opensBlock = true) (hx : Reads (depth + 1) xs ts) :
    Reads depth (⟨depth, opener⟩ :: (xs ++ [⟨depth, .endBlock⟩])) [.block opener ts none] := by
  intro r hr
  rw [List.foldlM_cons, Reading.step_open hopen hr]
  simp only [Option.bind_eq_bind, Option.bind_some]
  rw [List.foldlM_append, hx _ (by simp [hr]), Reading.addAll_body]
  simp [Reading.step, Reading.addAll]

theorem conditional (hx : Reads (depth + 1) xs ts) (hy : Reads (depth + 1) ys us) (guard : Guard) :
    Reads depth (⟨depth, .beginIf guard⟩ :: (xs ++ ⟨depth, .otherwise⟩ :: (ys ++ [⟨depth, .endBlock⟩])))
      [.block (.beginIf guard) ts (some us)] := by
  intro r hr
  rw [List.foldlM_cons, Reading.step_open rfl hr]
  simp only [Option.bind_eq_bind, Option.bind_some]
  rw [List.foldlM_append, hx _ (by simp [hr]), Reading.addAll_body]
  simp only [Option.bind_eq_bind, Option.bind_some, List.nil_append, List.foldlM_cons]
  rw [show Reading.step ⟨r.trees, ⟨⟨depth, .beginIf guard⟩, ts, none⟩ :: r.blocks⟩ ⟨depth, .otherwise⟩ =
    some ⟨r.trees, ⟨⟨depth, .beginIf guard⟩, ts, some []⟩ :: r.blocks⟩ by
      simp [Reading.step, Call.isBeginIf]]
  simp only [Option.bind_some]
  rw [List.foldlM_append, hy _ (by simp [hr]), Reading.addAll_alternative]
  simp [Reading.step, Reading.addAll]

end Reads

theorem Program.trees?_of_reads {p : Program} {trees : List CallTree} (h : Reads 0 p.lines trees) :
    p.trees? = some trees := by
  rw [trees?, h ⟨[], []⟩ rfl, Reading.addAll_top]
  rfl

/-! ## Trees that mirror operations -/

namespace Operation

def body : Operation → List Operation
  | ifElse _ thenBody _ => thenBody
  | whileLoop _ body => body
  | forLoop _ _ body => body
  | _ => []

/-- The operations that run if the condition does not hold. -/
def otherBody : Operation → List Operation
  | ifElse _ _ elseBody => elseBody.getD []
  | _ => []

theorem nodes_eq (op : Operation) : op.nodes = op :: (nodesAll op.body ++ nodesAll op.otherBody) := by
  cases op with
  | ifElse condition thenBody elseBody => cases elseBody <;> simp [nodes, nodesAll, body, otherBody]
  | _ => simp [nodes, nodesAll, body, otherBody]

theorem count_eq (op : Operation) : op.count = 1 + countAll op.body + countAll op.otherBody := by
  cases op with
  | ifElse condition thenBody elseBody => cases elseBody <;> simp [count, countAll, body, otherBody]
  | _ => simp [count, countAll, body, otherBody]

theorem depth_of_isControlFlow {op : Operation} (h : op.isControlFlow = true) :
    op.depth = 1 + max (depthAll op.body) (depthAll op.otherBody) := by
  cases op with
  | ifElse condition thenBody elseBody => cases elseBody <;> simp [depth, depthAll, body, otherBody]
  | whileLoop condition body => simp [depth, depthAll, Operation.body, otherBody]
  | forLoop iteration loopVar body => simp [depth, depthAll, Operation.body, otherBody]
  | _ => cases h

theorem depth_of_not_isControlFlow {op : Operation} (h : op.isControlFlow = false) : op.depth = 0 := by
  cases op with
  | gate g qubits => rfl
  | measure qubits clbits => rfl
  | directive d qubits => rfl
  | _ => cases h

theorem bodies_of_not_isControlFlow {op : Operation} (h : op.isControlFlow = false) :
    op.body = [] ∧ op.otherBody = [] := by
  cases op with
  | gate g qubits => exact ⟨rfl, rfl⟩
  | measure qubits clbits => exact ⟨rfl, rfl⟩
  | directive d qubits => exact ⟨rfl, rfl⟩
  | _ => cases h

theorem isControlFlow_of_otherBody {op : Operation} (h : op.otherBody ≠ []) : op.isControlFlow = true := by
  cases hflow : op.isControlFlow with
  | true => rfl
  | false => exact absurd (bodies_of_not_isControlFlow hflow).2 h

end Operation

/-- Trees of calls that stand for operations, each call inside those of the operations around its own;
an alternative is there exactly if it has operations. -/
inductive Circuit.Mirrors (c : Circuit) (n : CircuitNumbering) :
    List Operation → List CallTree → Prop where
  | nil : Mirrors c n [] []
  | plain {op : Operation} {call : Call} {rest : List Operation} {trees : List CallTree} :
      op.isControlFlow = false → c.Represents n op call → Mirrors c n rest trees →
      Mirrors c n (op :: rest) (.plain call :: trees)
  | block {op : Operation} {opener : Call} {rest : List Operation} {bodyTrees trees : List CallTree} :
      op.isControlFlow = true → op.otherBody = [] → c.Represents n op opener →
      Mirrors c n op.body bodyTrees → Mirrors c n rest trees →
      Mirrors c n (op :: rest) (.block opener bodyTrees none :: trees)
  | branches {op : Operation} {opener : Call} {rest : List Operation}
      {bodyTrees otherTrees trees : List CallTree} :
      op.otherBody ≠ [] → c.Represents n op opener → Mirrors c n op.body bodyTrees →
      Mirrors c n op.otherBody otherTrees → Mirrors c n rest trees →
      Mirrors c n (op :: rest) (.block opener bodyTrees (some otherTrees) :: trees)

/-- What is emitted for operations are the lines of trees that mirror them. -/
theorem Surroundings.emits_mirrors {s : Surroundings} {scope : Scope} {depth : Nat}
    {ops : List Operation} {ls : List Line} (h : s.Emits scope depth ops ls) :
    ∃ trees, s.circuit.Mirrors s.numbering ops trees ∧ ls = CallTree.linesAll depth trees := by
  induction h with
  | nil => exact ⟨[], .nil, rfl⟩
  | gate hoperands _ ih =>
    obtain ⟨trees, hm, rfl⟩ := ih
    have hgives := Numbering.mapM_resolve_eq_ok_iff_gives.1 hoperands
    exact ⟨_ :: trees, .plain rfl (.of_roles hgives (List.length_map _)) hm, rfl⟩
  | measure hqs hcs _ ih =>
    obtain ⟨trees, hm, rfl⟩ := ih
    have hqubits := Numbering.mapM_resolve_eq_ok_iff_gives.1 hqs
    have hclbits := Numbering.mapM_resolve_eq_ok_iff_gives.1 hcs
    exact ⟨_ :: trees, .plain rfl (.measure hqubits hclbits) hm, rfl⟩
  | ifThen hguard helse _ _ ihThen ihRest =>
    obtain ⟨thenTrees, hthen, rfl⟩ := ihThen
    obtain ⟨trees, hm, rfl⟩ := ihRest
    obtain ⟨cs, hcs, rfl⟩ := guard_gives hguard
    exact ⟨_ :: trees, .block rfl helse (.ifElse hcs) hthen hm, by simp⟩
  | ifElse hguard hne _ _ _ ihThen ihElse ihRest =>
    obtain ⟨thenTrees, hthen, rfl⟩ := ihThen
    obtain ⟨elseTrees, helse, rfl⟩ := ihElse
    obtain ⟨trees, hm, rfl⟩ := ihRest
    obtain ⟨cs, hcs, rfl⟩ := guard_gives hguard
    exact ⟨_ :: trees, .branches hne (.ifElse hcs) hthen helse hm, by simp⟩
  | whileLoop hguard _ _ ihBody ihRest =>
    obtain ⟨bodyTrees, hbody, rfl⟩ := ihBody
    obtain ⟨trees, hm, rfl⟩ := ihRest
    obtain ⟨cs, hcs, rfl⟩ := guard_gives hguard
    exact ⟨_ :: trees, .block rfl rfl (.whileLoop hcs) hbody hm, by simp⟩
  | forLoop hheader _ _ ihBody ihRest =>
    obtain ⟨bodyTrees, hbody, rfl⟩ := ihBody
    obtain ⟨trees, hm, rfl⟩ := ihRest
    exact ⟨_ :: trees, .block rfl rfl (.forLoop (header_eq_ok_iff.1 hheader).2) hbody hm, by simp⟩

/-! ## Counting lines and blocks -/

def Call.isSize : Call → Bool
  | setQubitCount _ | setClbitCount _ => true
  | _ => false

namespace Circuit.Represents

variable {c : Circuit} {n : CircuitNumbering} {op : Operation} {call : Call}

theorem isSize (h : c.Represents n op call) : call.isSize = false := by
  cases h <;> rfl

theorem isPlain (h : c.Represents n op call) (hflow : op.isControlFlow = false) :
    call.isPlain = true := by
  cases h with
  | gate => rfl
  | measure => rfl
  | _ => cases hflow

/-- Only a conditional has an alternative. -/
theorem eq_beginIf (h : c.Represents n op call) (hne : op.otherBody ≠ []) :
    ∃ guard, call = .beginIf guard := by
  cases h with
  | ifElse _ => exact ⟨_, rfl⟩
  | _ => exact absurd rfl hne

end Circuit.Represents

/-- How deep blocks are nested, by the depths of the lines that open them. -/
def deepestBlock (lines : List Line) : Nat :=
  ((lines.filter (·.call.opensBlock)).map (·.depth + 1)).foldr max 0

section

variable {depth : Nat} {call : Call}

theorem deepestBlock_open (h : call.opensBlock = true) (rest : List Line) :
    deepestBlock (⟨depth, call⟩ :: rest) = max (depth + 1) (deepestBlock rest) := by
  simp [deepestBlock, h]

theorem deepestBlock_other (h : call.opensBlock = false) (rest : List Line) :
    deepestBlock (⟨depth, call⟩ :: rest) = deepestBlock rest := by
  simp [deepestBlock, h]

theorem deepestBlock_append (xs ys : List Line) :
    deepestBlock (xs ++ ys) = max (deepestBlock xs) (deepestBlock ys) := by
  induction xs with
  | nil => simp [deepestBlock]
  | cons line rest ih =>
    cases hopen : line.call.opensBlock with
    | true => rw [List.cons_append, deepestBlock_open hopen, ih, deepestBlock_open hopen, Nat.max_assoc]
    | false => rw [List.cons_append, deepestBlock_other hopen, ih, deepestBlock_other hopen]

end

def Operation.hasAlternative (op : Operation) : Bool := !op.otherBody.isEmpty

namespace Circuit.Mirrors

variable {c : Circuit} {n : CircuitNumbering} {ops : List Operation} {trees : List CallTree}

/-- Reading the lines of trees gives the trees back. -/
theorem reads (h : c.Mirrors n ops trees) (depth : Nat) :
    Reads depth (CallTree.linesAll depth trees) trees := by
  induction h generalizing depth with
  | nil => exact Reads.nil
  | plain hflow hcall _ ih =>
    exact (Reads.plain (hcall.isPlain hflow)).append (ih depth)
  | block hflow _ hcall _ _ ihBody ihRest =>
    have hblock := Reads.block (hcall.opensBlock.trans hflow) (ihBody (depth + 1))
    simpa using hblock.append (ihRest depth)
  | branches hne hcall _ _ _ ihBody ihOther ihRest =>
    obtain ⟨guard, rfl⟩ := hcall.eq_beginIf hne
    have hblock := Reads.conditional (ihBody (depth + 1)) (ihOther (depth + 1)) guard
    simpa using hblock.append (ihRest depth)

/-- No line inside sets a number of bits. -/
theorem not_isSize (h : c.Mirrors n ops trees) (depth : Nat) :
    ∀ line ∈ CallTree.linesAll depth trees, line.call.isSize = false := by
  have hend : Call.endBlock.isSize = false := rfl
  have hother : Call.otherwise.isSize = false := rfl
  induction h generalizing depth with
  | nil => simp
  | plain _ hcall _ ih => simpa [hcall.isSize] using ih depth
  | block _ _ hcall _ _ ihBody ihRest =>
    simp only [CallTree.linesAll_block, List.forall_mem_cons, List.forall_mem_append]
    exact ⟨hcall.isSize, ihBody (depth + 1), hend, ihRest depth⟩
  | branches _ hcall _ _ _ ihBody ihOther ihRest =>
    simp only [CallTree.linesAll_branches, List.forall_mem_cons, List.forall_mem_append]
    exact ⟨hcall.isSize, ihBody (depth + 1), hother, ihOther (depth + 1), hend, ihRest depth⟩

/-- An operation has one line, a block one more for its end, and an alternative one more. -/
theorem length_lines (h : c.Mirrors n ops trees) (depth : Nat) :
    (CallTree.linesAll depth trees).length = Operation.countAll ops +
      (Operation.nodesAll ops).countP Operation.isControlFlow +
      (Operation.nodesAll ops).countP Operation.hasAlternative := by
  induction h generalizing depth with
  | nil => rfl
  | plain hflow _ _ ih =>
    obtain ⟨hbody, hother⟩ := Operation.bodies_of_not_isControlFlow hflow
    simp [Operation.countAll, Operation.count_eq, Operation.nodesAll, Operation.nodes_eq,
      Operation.hasAlternative, hflow, hbody, hother, ih]
    omega
  | block hflow hother _ _ _ ihBody ihRest =>
    simp [Operation.countAll, Operation.count_eq, Operation.nodesAll, Operation.nodes_eq,
      Operation.hasAlternative, hflow, hother, ihBody, ihRest]
    omega
  | @branches op _ _ _ _ _ hne _ _ _ _ ihBody ihOther ihRest =>
    have hother : op.hasAlternative = true := by simpa [Operation.hasAlternative] using hne
    simp [Operation.countAll, Operation.count_eq, Operation.nodesAll, Operation.nodes_eq,
      Operation.isControlFlow_of_otherBody hne, hother, ihBody, ihOther, ihRest]
    omega

/-- Blocks of the program are as deep as conditionals and loops of the circuit. -/
theorem deepestBlock_lines (h : c.Mirrors n ops trees) (depth : Nat) :
    deepestBlock (CallTree.linesAll depth trees) =
      if Operation.depthAll ops = 0 then 0 else depth + Operation.depthAll ops := by
  have hend : Call.endBlock.opensBlock = false := rfl
  have hotherwise : Call.otherwise.opensBlock = false := rfl
  induction h generalizing depth with
  | nil => rfl
  | plain hflow hcall _ ih =>
    have hopen := hcall.opensBlock.trans hflow
    simp [Operation.depthAll, Operation.depth_of_not_isControlFlow hflow, deepestBlock_other hopen, ih]
  | block hflow hother hcall _ _ ihBody ihRest =>
    have hopen := hcall.opensBlock.trans hflow
    simp only [CallTree.linesAll_block, deepestBlock_open hopen, deepestBlock_append,
      deepestBlock_other hend, ihBody, ihRest, Operation.depthAll,
      Operation.depth_of_isControlFlow hflow, hother]
    split_ifs <;> omega
  | branches hne hcall _ _ _ ihBody ihOther ihRest =>
    have hflow := Operation.isControlFlow_of_otherBody hne
    have hopen := hcall.opensBlock.trans hflow
    simp only [CallTree.linesAll_branches, deepestBlock_open hopen, deepestBlock_append,
      deepestBlock_other hend, deepestBlock_other hotherwise, ihBody, ihOther, ihRest,
      Operation.depthAll, Operation.depth_of_isControlFlow hflow]
    split_ifs <;> omega

end Circuit.Mirrors

/-- **Blocks of a program are those of its circuit.** A program starts with the two size calls and has
no others. What follows can be read with a stack and gives the trees that mirror the operations, with
an alternative exactly where there are operations in it. There is a line for each operation, one more
for each conditional or loop and one more for each alternative, and blocks are nested as deep as in the
circuit. -/
theorem emitted_blocks_mirror_operations {c : Circuit} {settings : Settings} {p : Program}
    (h : c.emit settings = .ok p) :
    ∃ qubits clbits rest trees,
      p.lines = ⟨0, .setQubitCount qubits⟩ :: ⟨0, .setClbitCount clbits⟩ :: rest ∧
      (∀ line ∈ rest, line.call.isSize = false) ∧
      p.trees? = some (.plain (.setQubitCount qubits) :: .plain (.setClbitCount clbits) :: trees) ∧
      rest = CallTree.linesAll 0 trees ∧
      c.Mirrors (c.numbering settings.discovery) c.operations trees ∧
      p.lines.length = 2 + c.operationCount + c.nodes.countP Operation.isControlFlow +
        c.nodes.countP Operation.hasAlternative ∧
      deepestBlock p.lines = c.depth := by
  obtain ⟨ls, hls, hp⟩ := Circuit.emit_eq_ok h
  obtain ⟨trees, hm, rfl⟩ := Surroundings.emits_mirrors hls
  refine ⟨_, _, _, trees, hp, hm.not_isSize 0, ?_, rfl, hm, ?_, ?_⟩
  · apply Program.trees?_of_reads
    rw [hp]
    exact (Reads.plain rfl).append ((Reads.plain rfl).append (hm.reads 0))
  · rw [hp, List.length_cons, List.length_cons, hm.length_lines, Circuit.operationCount, Circuit.nodes]
    omega
  · rw [hp, deepestBlock_other rfl, deepestBlock_other rfl, hm.deepestBlock_lines, Circuit.depth]
    split_ifs <;> omega

/-- A loop around a conditional with both branches, of which the taken one is empty, and behind it a
conditional with an alternative that has no operations. -/
def nestedBlocks : Circuit where
  name := "nested"
  qregs := [⟨"q", 1⟩]
  cregs := [⟨"c", 2⟩]
  operations :=
    [.whileLoop ⟨.register "c", 0⟩
      [.ifElse ⟨.bit ⟨"c", 0⟩, 1⟩ []
        (some [.forLoop (.count 2) none [.gate (.fixed .x) [⟨"q", 0⟩]]]),
       .measure [⟨"q", 0⟩] [⟨"c", 1⟩]],
     .ifElse ⟨.bit ⟨"c", 1⟩, 0⟩ [.gate (.fixed .h) [⟨"q", 0⟩]] (some [])]

theorem emitted_blocks_mirror_operations_nestedBlocks :
    ∃ p, nestedBlocks.emit {} = .ok p ∧ p.lines.length = 2 + 7 + 4 + 1 ∧ deepestBlock p.lines = 3 ∧
      ∃ trees, p.trees? = some trees ∧ p.lines = CallTree.linesAll 0 trees := by
  obtain ⟨qubits, clbits, rest, trees, hlines, -, htrees, rfl, -, hlength, hdepth⟩ :=
    @emitted_blocks_mirror_operations nestedBlocks {} _ rfl
  exact ⟨_, rfl, hlength, hdepth, _, htrees, hlines⟩

end CircuitCalls
