import CircuitCalls.Proofs.LoopVariables
import CircuitCalls.Proofs.Nesting
import CircuitCalls.Proofs.Roles

/-!
# Programs from their texts

The calls of a program can be told from its text if names and arguments keep to their characters
(`Program.calls_of_text`). Emission keeps to them if the names of the circuit are identifiers, since
new names of loop variables only add to the old ones (`emits_plain`). The text need not show the depth
of a line; but in an emitted program that is the number of blocks around the call, so that the calls
alone give back the lines (`Circuit.emit_lines`).
-/

namespace CircuitCalls

open Qasm (isNamePart isIdentifier)

/-! ## Names -/

namespace Scope

theorem spells_freshName (scope : Scope) {source : String} (h : Spells isNamePart source) :
    Spells isNamePart (scope.freshName source) := by
  rcases freshName_cases scope source with ⟨-, heq⟩ | ⟨-, n, hname, -⟩
  · rwa [heq]
  · rw [hname]
    have hdigits : Spells isNamePart (toString (n + 1)) := by
      intro c hc
      simp [isNamePart, spells_toString (n + 1) c hc]
    exact (h.append (spells_of_all rfl)).append hdigits

theorem spells_rename {scope : Scope} (hscope : ∀ name ∈ scope.emitted, Spells isNamePart name)
    {name : String} (h : Spells isNamePart name) : Spells isNamePart (scope.rename name) := by
  unfold rename
  split
  · rename_i binding hfind
    exact hscope _ (List.mem_map_of_mem (List.mem_of_find?_eq_some hfind))
  · exact h

end Scope

namespace StandardGate

theorem spells_name (g : StandardGate) : Spells isNamePart g.name := by
  have hfixed : ∀ g : FixedGate, Spells isNamePart g.name := by
    intro g
    cases g <;> exact spells_of_all rfl
  have hrotation : ∀ g : Rotation, Spells isNamePart g.name := by
    intro g
    cases g <;> exact spells_of_all rfl
  cases g with
  | fixed g => exact hfixed g
  | rotation g angle => exact hrotation g
  | u theta phi lambda => exact (spells_of_all rfl : Spells isNamePart "u")

end StandardGate

namespace Gate

/-- The name of the custom gate that the gate is or controls. -/
def customNames : Gate → List String
  | standard _ _ => []
  | custom g _ => [g.name]
  | controlled _ _ _ base _ => base.customNames

/-- The root of a gate is a name: that of a standard gate, or the custom name it was given. -/
theorem spells_root_planUnder {g : Gate} (h : ∀ name ∈ g.customNames, Spells isNamePart name)
    (operands : Nat) (outer : List Bool) : Spells isNamePart (g.planUnder operands outer).root := by
  induction g generalizing outer with
  | standard s label => exact s.root.spells_name
  | custom u label =>
    have hname : Spells isNamePart u.name := h u.name List.mem_cons_self
    rw [planUnder]
    split
    · cases hplan : markedPlan? u.name operands with
      | none => exact hname
      | some plan =>
        obtain ⟨base, arity, ⟨-, ⟨s, -, rfl, -⟩, -⟩, rfl⟩ := markedPlan?_eq_some_iff.1 hplan
        exact s.spells_name
    · exact hname
  | controlled name controls mask base label ih => exact ih h _

end Gate

namespace Operation

/-- The names that an operation brings: of custom gates, of symbols and of a loop variable. -/
def names : Operation → List String
  | gate g _ => g.customNames ++ g.parameters.flatMap Parameter.occurrences
  | forLoop _ loopVar _ => loopVar.toList
  | _ => []

def namesAll (ops : List Operation) : List String := (nodesAll ops).flatMap names

theorem namesAll_cons (op : Operation) (rest : List Operation) :
    namesAll (op :: rest) = op.names ++ (namesAll op.body ++ namesAll op.otherBody ++ namesAll rest) := by
  simp only [namesAll, nodesAll, nodes_eq, List.flatMap_append, List.flatMap_cons, List.append_assoc]

end Operation

/-- The names of custom gates, symbols and loop variables at every depth. -/
def Circuit.names (c : Circuit) : List String := Operation.namesAll c.operations

namespace Surroundings

theorem spells_sourceVar {s : Surroundings} (hdefault : Spells isNamePart s.settings.defaultLoopVar)
    {loopVar : Option String} (h : ∀ name ∈ loopVar.toList, Spells isNamePart name) :
    Spells isNamePart (s.sourceVar loopVar) := by
  cases loopVar with
  | none => exact hdefault
  | some name => exact h name List.mem_cons_self

/-- Emission keeps to the characters of names and arguments. -/
theorem emits_plain {s : Surroundings} (hdefault : Spells isNamePart s.settings.defaultLoopVar)
    {scope : Scope} {depth : Nat} {ops : List Operation} {ls : List Line}
    (h : s.Emits scope depth ops ls) (hscope : ∀ name ∈ scope.emitted, Spells isNamePart name)
    (hnames : ∀ name ∈ Operation.namesAll ops, Spells isNamePart name) : ∀ l ∈ ls, l.call.Plain := by
  induction h with
  | nil => exact List.forall_mem_nil _
  | @gate scope depth g qubits operands rest ls _ _ ih =>
    simp only [Operation.namesAll_cons, List.forall_mem_append, Operation.names] at hnames
    obtain ⟨⟨hcustom, hsymbols⟩, -, hrest⟩ := hnames
    refine List.forall_mem_cons.2 ⟨⟨Gate.spells_root_planUnder hcustom _ _, ?_⟩, ih hscope hrest⟩
    intro a ha
    obtain ⟨p, hp, rfl⟩ := List.mem_map.1 ha
    refine Parameter.spells_argument ?_
    rw [Parameter.occurrences_rename]
    refine List.forall_mem_map.2 fun name hname => Scope.spells_rename hscope ?_
    exact hsymbols name (List.mem_flatMap.2 ⟨p, hp, hname⟩)
  | measure _ _ _ ih =>
    simp only [Operation.namesAll_cons, List.forall_mem_append] at hnames
    exact List.forall_mem_cons.2 ⟨trivial, ih hscope hnames.2.2⟩
  | ifThen _ _ _ _ ihThen ihRest =>
    simp only [Operation.namesAll_cons, List.forall_mem_append] at hnames
    obtain ⟨-, ⟨hthen, -⟩, hrest⟩ := hnames
    simp only [List.forall_mem_cons, List.forall_mem_append]
    exact ⟨trivial, ihThen hscope hthen, trivial, ihRest hscope hrest⟩
  | ifElse _ _ _ _ _ ihThen ihElse ihRest =>
    simp only [Operation.namesAll_cons, List.forall_mem_append] at hnames
    obtain ⟨-, ⟨hthen, helse⟩, hrest⟩ := hnames
    simp only [List.forall_mem_cons, List.forall_mem_append]
    exact ⟨trivial, ihThen hscope hthen, trivial, ihElse hscope helse, trivial, ihRest hscope hrest⟩
  | whileLoop _ _ _ ihBody ihRest =>
    simp only [Operation.namesAll_cons, List.forall_mem_append] at hnames
    obtain ⟨-, ⟨hbody, -⟩, hrest⟩ := hnames
    simp only [List.forall_mem_cons, List.forall_mem_append]
    exact ⟨trivial, ihBody hscope hbody, trivial, ihRest hscope hrest⟩
  | @forLoop scope depth iteration loopVar body header rest bodyLines ls hheader _ _ ihBody ihRest =>
    simp only [Operation.namesAll_cons, List.forall_mem_append] at hnames
    obtain ⟨hvar, ⟨hbody, -⟩, hrest⟩ := hnames
    -- The new name joins those of the scope, which the calls inside the loop may be renamed to.
    have hfresh := scope.spells_freshName (spells_sourceVar hdefault hvar)
    have hcall : Spells isNamePart header.loopVar := by
      rw [(header_eq_ok_iff.1 hheader).1]
      exact hfresh
    simp only [List.forall_mem_cons, List.forall_mem_append]
    exact ⟨hcall, ihBody (List.forall_mem_cons.2 ⟨hfresh, hscope⟩) hbody, trivial, ihRest hscope hrest⟩

end Surroundings

theorem Circuit.emit_plain {c : Circuit} {settings : Settings} {p : Program}
    (hdefault : isIdentifier settings.defaultLoopVar = true)
    (hnames : ∀ name ∈ c.names, isIdentifier name = true) (h : c.emit settings = .ok p) :
    ∀ call ∈ p.calls, call.Plain := by
  obtain ⟨ls, hls, hlines⟩ := emit_eq_ok h
  have hplain := Surroundings.emits_plain (spells_identifier hdefault) hls (List.forall_mem_nil _)
    fun name hname => spells_identifier (hnames name hname)
  rw [Program.calls, hlines]
  exact List.forall_mem_cons.2 ⟨trivial, List.forall_mem_cons.2 ⟨trivial, List.forall_mem_map.2 hplain⟩⟩

/-! ## Depths -/

/-- The number of blocks around the call, a bracket being written as deep as the block it closes. -/
def Site.depth (site : Site) : Nat :=
  match site.call with
  | .otherwise | .endBlock => site.around.length - 1
  | _ => site.around.length

def Site.line (site : Site) : Line := ⟨site.depth, site.call⟩

/-- The lines are as deep as their calls are inside blocks, if `blocks` are around all of them. -/
def Nested (blocks : List Call) (ls : List Line) : Prop :=
  (sitesFrom blocks (ls.map (·.call))).map Site.line = ls

namespace Nested

variable {call : Call} {blocks : List Call} {xs ys ls : List Line}

theorem line_open (h : call.opensBlock = true) (blocks : List Call) :
    (Site.mk blocks call).line = ⟨blocks.length, call⟩ := by
  cases call with
  | otherwise => cases h
  | endBlock => cases h
  | _ => rfl

theorem block (h : call.opensBlock = true) (hcloses : ClosesBlocks (xs.map (·.call)))
    (hx : Nested (call :: blocks) xs) (hrest : Nested blocks ls) :
    Nested blocks (⟨blocks.length, call⟩ :: (xs ++ ⟨blocks.length, .endBlock⟩ :: ls)) := by
  unfold Nested at *
  simp only [List.map_cons, List.map_append, sitesFrom_block h hcloses, hx, hrest, line_open h]
  rfl

theorem conditional (h : call.opensBlock = true) (hxcloses : ClosesBlocks (xs.map (·.call)))
    (hycloses : ClosesBlocks (ys.map (·.call))) (hx : Nested (call :: blocks) xs)
    (hy : Nested (call :: blocks) ys) (hrest : Nested blocks ls) :
    Nested blocks (⟨blocks.length, call⟩ :: (xs ++ ⟨blocks.length, .otherwise⟩ ::
      (ys ++ ⟨blocks.length, .endBlock⟩ :: ls))) := by
  unfold Nested at *
  simp only [List.map_cons, List.map_append, sitesFrom_conditional h hxcloses hycloses, hx, hy, hrest,
    line_open h]
  rfl

end Nested

/-- Emitted lines are as deep as their calls are inside blocks. -/
theorem Surroundings.emits_nested {s : Surroundings} {scope : Scope} {depth : Nat}
    {ops : List Operation} {ls : List Line} (h : s.Emits scope depth ops ls) (blocks : List Call)
    (hdepth : depth = blocks.length) : Nested blocks ls := by
  induction h generalizing blocks with
  | nil => rfl
  | gate _ _ ih =>
    subst hdepth
    exact congrArg _ (ih blocks rfl)
  | measure _ _ _ ih =>
    subst hdepth
    exact congrArg _ (ih blocks rfl)
  | ifThen _ _ hthen _ ihThen ihRest =>
    subst hdepth
    exact .block rfl (emits_closesBlocks hthen) (ihThen _ rfl) (ihRest blocks rfl)
  | ifElse _ _ hthen helse _ ihThen ihElse ihRest =>
    subst hdepth
    exact .conditional rfl (emits_closesBlocks hthen) (emits_closesBlocks helse) (ihThen _ rfl)
      (ihElse _ rfl) (ihRest blocks rfl)
  | whileLoop _ hbody _ ihBody ihRest =>
    subst hdepth
    exact .block rfl (emits_closesBlocks hbody) (ihBody _ rfl) (ihRest blocks rfl)
  | forLoop _ hbody _ ihBody ihRest =>
    subst hdepth
    exact .block rfl (emits_closesBlocks hbody) (ihBody _ rfl) (ihRest blocks rfl)

/-- The lines of an emitted program are given by its calls. -/
theorem Circuit.emit_lines {c : Circuit} {settings : Settings} {p : Program}
    (h : c.emit settings = .ok p) : p.sites.map Site.line = p.lines := by
  obtain ⟨ls, hls, hlines⟩ := emit_eq_ok h
  have hnested : Nested [] p.lines := by
    rw [hlines]
    exact congrArg (fun rest => _ :: _ :: rest) (Surroundings.emits_nested hls [] rfl)
  exact hnested

/-! ## Programs from their texts -/

/-- Under settings and circuits whose names are identifiers, no two programs have the same text, even
where the text is not indented. -/
theorem text_determines_program {settings : Settings} (hsim : isIdentifier settings.simulator = true)
    (hdefault : isIdentifier settings.defaultLoopVar = true) {c d : Circuit}
    (hc : ∀ name ∈ c.names, isIdentifier name = true) (hd : ∀ name ∈ d.names, isIdentifier name = true)
    {p q : Program} (hp : c.emit settings = .ok p) (hq : d.emit settings = .ok q)
    (htext : p.text settings = q.text settings) : p = q := by
  have hcalls : p.calls = q.calls := Program.calls_of_text hsim (Circuit.emit_plain hdefault hc hp)
    (Circuit.emit_plain hdefault hd hq) htext
  -- The text may hide the depths, but the calls open and close the blocks that make them.
  have hlines : p.lines = q.lines := by
    rw [← Circuit.emit_lines hp, ← Circuit.emit_lines hq, Program.sites, Program.sites, hcalls]
  cases p
  cases q
  exact congrArg Program.mk hlines

/-- A loop without a name around a loop over the usual name, with an alternative that is empty. -/
def unnamedLoop : Circuit :=
  ⟨"unnamed", [⟨"q", 2⟩], [⟨"c", 1⟩],
    [.forLoop (.count 2) none
      [.forLoop (.values [3, -1]) (some "loop_num")
        [.gate (.custom ⟨"mcoracle", 2, [.symbol "loop_num", .neg (.symbol "phi")]⟩ none)
            [⟨"q", 0⟩, ⟨"q", 1⟩],
          .ifElse ⟨.bit ⟨"c", 0⟩, 1⟩ [.measure [⟨"q", 1⟩] [⟨"c", 0⟩]] (some [])]]]⟩

/-- The same loops with all names given, and without the alternative. -/
def namedLoop : Circuit :=
  ⟨"named", [⟨"q", 2⟩], [⟨"c", 1⟩],
    [.forLoop (.count 2) (some "loop_num")
      [.forLoop (.values [3, -1]) none
        [.gate (.custom ⟨"mcoracle", 2, [.symbol "loop_num", .neg (.symbol "phi")]⟩ none)
            [⟨"q", 0⟩, ⟨"q", 1⟩],
          .ifElse ⟨.bit ⟨"c", 0⟩, 1⟩ [.measure [⟨"q", 1⟩] [⟨"c", 0⟩]] none]]]⟩

theorem text_determines_program_namedLoop :
    (∀ name ∈ unnamedLoop.names, isIdentifier name = true) ∧
      (∀ name ∈ namedLoop.names, isIdentifier name = true) ∧
      ∃ p q : Program, unnamedLoop.emit { indentWidth := 0 } = .ok p ∧
        namedLoop.emit { indentWidth := 0 } = .ok q ∧
        p.text { indentWidth := 0 } = q.text { indentWidth := 0 } ∧ p = q := by
  have hunnamed : ∀ name ∈ unnamedLoop.names, isIdentifier name = true := by decide
  have hnamed : ∀ name ∈ namedLoop.names, isIdentifier name = true := by decide
  refine ⟨hunnamed, hnamed, _, _, rfl, rfl, rfl, ?_⟩
  exact @text_determines_program { indentWidth := 0 } rfl rfl _ _ hunnamed hnamed _ _ rfl rfl rfl

end CircuitCalls
