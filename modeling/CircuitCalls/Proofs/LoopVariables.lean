import CircuitCalls.Proofs.Emission
import CircuitCalls.Proofs.LoopValues
import CircuitCalls.Proofs.ParameterText

/-!
# Loop variables of emitted programs

The calls that are made for operations stand in the program in the order of the operations, and each
stands inside the blocks of the operations around its own (`Surroundings.Placed`). From this the loop
variables around a call are known: they are the names that the enclosing loops were given, so nested
loops never share one, and a symbol becomes the variable of the innermost loop over that symbol. Where names
are identifiers, the identifiers in the text of an argument are these variables.
-/

namespace CircuitCalls

open Qasm (isNamePart isIdentifier isIdentifier_iff)

namespace Surroundings

/-- Calls that open operations, each inside the ones that follow it. -/
def Opened (s : Surroundings) : List Operation → List Call → Prop
  | [], [] => True
  | op :: around, call :: blocks => s.firstCall (s.scopeIn around) op = .ok call ∧ s.Opened around blocks
  | _, _ => False

/-- Sites of a program for occurrences in a circuit: one after the other, with brackets between. -/
inductive Placed (s : Surroundings) : List Occurrence → List Site → Prop where
  | nil : Placed s [] []
  | operation {o : Occurrence} {site : Site} {os : List Occurrence} {sites : List Site} :
      s.Opened (o.operation :: o.around) (site.call :: site.around) → Placed s os sites →
      Placed s (o :: os) (site :: sites)
  | bracket {site : Site} {around : List Operation} {os : List Occurrence} {sites : List Site} :
      site.call.isOperation = false → s.Opened around site.around → Placed s os sites →
      Placed s os (site :: sites)

theorem Placed.append {s : Surroundings} {os os' : List Occurrence} {sites sites' : List Site}
    (h : s.Placed os sites) (h' : s.Placed os' sites') : s.Placed (os ++ os') (sites ++ sites') := by
  induction h with
  | nil => exact h'
  | operation ho _ ih => exact .operation ho ih
  | bracket hb ho _ ih => exact .bracket hb ho ih

/-- A block is placed if what is inside it and what follows it are. -/
theorem Placed.block {s : Surroundings} {o : Occurrence} {call : Call} {blocks xs ys : List Call}
    {inside os : List Occurrence} (hcall : call.opensBlock = true)
    (hopen : s.Opened (o.operation :: o.around) (call :: blocks)) (hx : ClosesBlocks xs)
    (hinside : s.Placed inside (sitesFrom (call :: blocks) xs))
    (hrest : s.Placed os (sitesFrom blocks ys)) :
    s.Placed (o :: (inside ++ os)) (sitesFrom blocks (call :: (xs ++ .endBlock :: ys))) := by
  rw [sitesFrom_block hcall hx]
  exact .operation hopen (hinside.append (.bracket rfl hopen hrest))

/-- The sites of both branches of a conditional are behind its first call, inside it. -/
theorem Placed.conditional {s : Surroundings} {o : Occurrence} {call : Call}
    {blocks xs ys zs : List Call} {inside inside' os : List Occurrence}
    (hcall : call.opensBlock = true) (hopen : s.Opened (o.operation :: o.around) (call :: blocks))
    (hx : ClosesBlocks xs) (hy : ClosesBlocks ys)
    (hthen : s.Placed inside (sitesFrom (call :: blocks) xs))
    (helse : s.Placed inside' (sitesFrom (call :: blocks) ys))
    (hrest : s.Placed os (sitesFrom blocks zs)) :
    s.Placed (o :: (inside ++ (inside' ++ os)))
      (sitesFrom blocks (call :: (xs ++ .otherwise :: (ys ++ .endBlock :: zs)))) := by
  rw [sitesFrom_conditional hcall hx hy]
  have hend : s.Placed os (⟨call :: blocks, .endBlock⟩ :: sitesFrom blocks zs) :=
    .bracket rfl hopen hrest
  exact .operation hopen (hthen.append (.bracket rfl hopen (helse.append hend)))

theorem emits_closesBlocks {s : Surroundings} {scope : Scope} {depth : Nat} {ops : List Operation}
    {ls : List Line} (h : s.Emits scope depth ops ls) : ClosesBlocks (ls.map (·.call)) := by
  induction h with
  | nil => exact fun _ => rfl
  | gate _ _ ih => exact fun blocks => ih blocks
  | measure _ _ _ ih => exact fun blocks => ih blocks
  | ifThen _ _ _ _ ihThen ihRest => simpa using (ClosesBlocks.block rfl ihThen).append ihRest
  | ifElse _ _ _ _ _ ihThen ihElse ihRest =>
    simpa using (ClosesBlocks.conditional rfl ihThen ihElse).append ihRest
  | whileLoop _ _ _ ihBody ihRest => simpa using (ClosesBlocks.block rfl ihBody).append ihRest
  | forLoop _ _ _ ihBody ihRest => simpa using (ClosesBlocks.block rfl ihBody).append ihRest

/-- What is emitted for operations is placed as they are. -/
theorem emits_placed {s : Surroundings} {scope : Scope} {depth : Nat} {ops : List Operation}
    {ls : List Line} (h : s.Emits scope depth ops ls) (path : Path) (branch : Branch) (index : Nat)
    {around : List Operation} {blocks : List Call} (hscope : scope = s.scopeIn around)
    (hblocks : s.Opened around blocks) :
    s.Placed (Operation.occurrencesAll path branch index around ops)
      (sitesFrom blocks (ls.map (·.call))) := by
  induction h generalizing path branch index around blocks with
  | nil => exact .nil
  | gate hoperands _ ih =>
    subst hscope
    exact .operation ⟨firstCall_gate.2 ⟨_, hoperands, rfl⟩, hblocks⟩ (ih path branch _ rfl hblocks)
  | measure hqs hcs _ ih =>
    subst hscope
    exact .operation ⟨firstCall_measure.2 ⟨_, _, hqs, hcs, rfl⟩, hblocks⟩
      (ih path branch _ rfl hblocks)
  | @ifThen _ _ condition thenBody elseBody guard _ _ _ hguard helse hthen _ ihThen ihRest =>
    subst hscope
    have hopen : s.Opened (.ifElse condition thenBody elseBody :: around) (.beginIf guard :: blocks) :=
      ⟨firstCall_ifElse.2 ⟨guard, hguard, rfl⟩, hblocks⟩
    have hinside := ihThen (path ++ [⟨branch, index⟩]) .thenBody 0 (scopeIn_ifElse s _ _ _ _).symm hopen
    have hrest := ihRest path branch (index + 1) rfl hblocks
    have hplaced := Placed.block (o := ⟨path ++ [⟨branch, index⟩], around, _⟩) rfl hopen
      (emits_closesBlocks hthen) hinside hrest
    cases elseBody with
    | none => simpa [Operation.occurrencesAll, Operation.occurrences] using hplaced
    | some body =>
      have hbody : body = [] := helse
      subst hbody
      simpa [Operation.occurrencesAll, Operation.occurrences] using hplaced
  | @ifElse _ _ condition thenBody elseBody guard _ _ _ _ hguard _ hthen helse _ ihThen ihElse
      ihRest =>
    subst hscope
    have hopen : s.Opened (.ifElse condition thenBody (some elseBody) :: around)
        (.beginIf guard :: blocks) := ⟨firstCall_ifElse.2 ⟨guard, hguard, rfl⟩, hblocks⟩
    have hthenPlaced := ihThen (path ++ [⟨branch, index⟩]) .thenBody 0
      (scopeIn_ifElse s _ _ _ _).symm hopen
    have helsePlaced := ihElse (path ++ [⟨branch, index⟩]) .elseBody 0
      (scopeIn_ifElse s _ _ _ _).symm hopen
    have hrest := ihRest path branch (index + 1) rfl hblocks
    have hplaced := Placed.conditional (o := ⟨path ++ [⟨branch, index⟩], around, _⟩) rfl hopen
      (emits_closesBlocks hthen) (emits_closesBlocks helse) hthenPlaced helsePlaced hrest
    simpa [Operation.occurrencesAll, Operation.occurrences] using hplaced
  | @whileLoop _ _ condition body guard _ _ _ hguard hbody _ ihBody ihRest =>
    subst hscope
    have hopen : s.Opened (.whileLoop condition body :: around) (.beginWhile guard :: blocks) :=
      ⟨firstCall_whileLoop.2 ⟨guard, hguard, rfl⟩, hblocks⟩
    have hinside := ihBody (path ++ [⟨branch, index⟩]) .loopBody 0 (scopeIn_whileLoop s _ _ _).symm hopen
    have hrest := ihRest path branch (index + 1) rfl hblocks
    have hplaced := Placed.block (o := ⟨path ++ [⟨branch, index⟩], around, _⟩) rfl hopen
      (emits_closesBlocks hbody) hinside hrest
    simpa [Operation.occurrencesAll, Operation.occurrences] using hplaced
  | @forLoop _ _ iteration loopVar body header _ _ _ hheader hbody _ ihBody ihRest =>
    subst hscope
    have hopen : s.Opened (.forLoop iteration loopVar body :: around) (.beginFor header :: blocks) :=
      ⟨firstCall_forLoop.2 ⟨header, hheader, rfl⟩, hblocks⟩
    have hinside := ihBody (path ++ [⟨branch, index⟩]) .loopBody 0 (scopeIn_forLoop s _ _ _ _).symm hopen
    have hrest := ihRest path branch (index + 1) rfl hblocks
    have hplaced := Placed.block (o := ⟨path ++ [⟨branch, index⟩], around, _⟩) rfl hopen
      (emits_closesBlocks hbody) hinside hrest
    simpa [Operation.occurrencesAll, Operation.occurrences] using hplaced

end Surroundings

/-- The calls of a program are placed as the operations of the circuit. -/
theorem Circuit.emit_placed {c : Circuit} {settings : Settings} {p : Program}
    (h : c.emit settings = .ok p) : (c.surroundings settings).Placed c.occurrences p.sites := by
  obtain ⟨ls, hls, hp⟩ := emit_eq_ok h
  have htop : (c.surroundings settings).Opened [] [] := trivial
  have hplaced := Surroundings.emits_placed hls [] .top 0 rfl htop
  rw [Program.sites, Program.calls, hp]
  exact .bracket rfl htop (.bracket rfl htop hplaced)

/-! ## Loops around a call -/

/-- A call that stands for an operation; a loop has the values of the operation. -/
inductive Opens : Operation → Call → Prop where
  | gate {g : Gate} {qubits : List Qubit} {roles : Roles Nat} {arguments : List String} :
      Opens (.gate g qubits) (.gate roles arguments)
  | measure {qubits : List Qubit} {clbits : List Clbit} {qs cs : List Nat} :
      Opens (.measure qubits clbits) (.measure qs cs)
  | ifElse {condition : Condition} {thenBody : List Operation} {elseBody : Option (List Operation)}
      {guard : Guard} : Opens (.ifElse condition thenBody elseBody) (.beginIf guard)
  | whileLoop {condition : Condition} {body : List Operation} {guard : Guard} :
      Opens (.whileLoop condition body) (.beginWhile guard)
  | forLoop {iteration : Iteration} {loopVar : Option String} {body : List Operation}
      {header : LoopHeader} : header.RunsOver iteration →
      Opens (.forLoop iteration loopVar body) (.beginFor header)

theorem Opens.isOperation {op : Operation} {call : Call} (h : Opens op call) :
    call.isOperation = true := by
  cases h <;> rfl

/-- The variable of a loop in the circuit; a loop that names none has the usual one. -/
def Operation.loopSource (usual : String) : Operation → Option String
  | forLoop _ loopVar _ => some (loopVar.getD usual)
  | _ => none

/-- The variables of the loops around an operation in the circuit, innermost first. -/
def Occurrence.loopSources (o : Occurrence) (settings : Settings) : List String :=
  o.around.filterMap (Operation.loopSource settings.defaultLoopVar)

namespace Surroundings

theorem sources_scopeIn (s : Surroundings) (around : List Operation) :
    (s.scopeIn around).sources = around.filterMap (Operation.loopSource s.settings.defaultLoopVar) := by
  induction around with
  | nil => rfl
  | cons op rest ih =>
    cases op with
    | forLoop iteration loopVar body => exact congrArg (loopVar.getD _ :: ·) ih
    | _ => exact ih

theorem nodup_emitted_scopeIn (s : Surroundings) (around : List Operation) :
    (s.scopeIn around).emitted.Nodup := by
  induction around with
  | nil => exact List.nodup_nil
  | cons op rest ih =>
    cases op with
    | forLoop iteration loopVar body => exact Scope.nodup_emitted_enter ih _
    | _ => exact ih

theorem opens_firstCall {s : Surroundings} {scope : Scope} {op : Operation} {call : Call}
    (h : s.firstCall scope op = .ok call) : Opens op call := by
  cases op with
  | gate g qubits => obtain ⟨_, -, rfl⟩ := firstCall_gate.1 h; exact .gate
  | measure qubits clbits => obtain ⟨_, _, -, -, rfl⟩ := firstCall_measure.1 h; exact .measure
  | ifElse condition thenBody elseBody => obtain ⟨_, -, rfl⟩ := firstCall_ifElse.1 h; exact .ifElse
  | whileLoop condition body => obtain ⟨_, -, rfl⟩ := firstCall_whileLoop.1 h; exact .whileLoop
  | forLoop iteration loopVar body =>
    obtain ⟨header, hheader, rfl⟩ := firstCall_forLoop.1 h
    exact .forLoop (header_eq_ok_iff.1 hheader).2
  | directive d qubits => cases h

theorem loopVar?_firstCall {s : Surroundings} {scope : Scope} {op : Operation} {call : Call}
    (h : s.firstCall scope op = .ok call) :
    call.loopVar? = (op.loopSource s.settings.defaultLoopVar).map scope.freshName := by
  cases op with
  | gate g qubits => obtain ⟨_, -, rfl⟩ := firstCall_gate.1 h; rfl
  | measure qubits clbits => obtain ⟨_, _, -, -, rfl⟩ := firstCall_measure.1 h; rfl
  | ifElse condition thenBody elseBody => obtain ⟨_, -, rfl⟩ := firstCall_ifElse.1 h; rfl
  | whileLoop condition body => obtain ⟨_, -, rfl⟩ := firstCall_whileLoop.1 h; rfl
  | forLoop iteration loopVar body =>
    obtain ⟨header, hheader, rfl⟩ := firstCall_forLoop.1 h
    exact congrArg some (header_eq_ok_iff.1 hheader).1
  | directive d qubits => cases h

/-- The loop variables of open blocks are the names that the scope gives to the loops. -/
theorem loopVars_opened {s : Surroundings} :
    ∀ {around : List Operation} {blocks : List Call}, s.Opened around blocks →
      blocks.filterMap Call.loopVar? = (s.scopeIn around).emitted
  | [], [], _ => rfl
  | op :: around, call :: blocks, ⟨hcall, hrest⟩ => by
    rw [List.filterMap_cons, loopVar?_firstCall hcall, loopVars_opened hrest]
    cases op with
    | forLoop iteration loopVar body => rfl
    | _ => rfl

/-- Loops inside each other have distinct variables, since each one avoids those around it. -/
theorem Placed.nodup_chain {s : Surroundings} {os : List Occurrence} {sites : List Site}
    (h : s.Placed os sites) : ∀ site ∈ sites, site.chain.Nodup := by
  induction h with
  | nil => exact List.forall_mem_nil _
  | operation ho _ ih =>
    refine List.forall_mem_cons.2 ⟨?_, ih⟩
    rw [Site.chain, loopVars_opened ho]
    exact nodup_emitted_scopeIn s _
  | @bracket site _ _ _ hb ho _ ih =>
    refine List.forall_mem_cons.2 ⟨?_, ih⟩
    have hvar : site.call.loopVar? = none := by
      cases hcall : site.call with
      | beginFor header =>
        rw [hcall] at hb
        cases hb
      | _ => rfl
    rw [Site.chain, List.filterMap_cons, hvar, loopVars_opened ho]
    exact nodup_emitted_scopeIn s _

theorem Placed.forall₂ {s : Surroundings} {os : List Occurrence} {sites : List Site}
    (h : s.Placed os sites) :
    List.Forall₂ (fun o site => s.Opened (o.operation :: o.around) (site.call :: site.around)) os
      (sites.filter (·.call.isOperation)) := by
  induction h with
  | nil => exact .nil
  | operation ho _ ih =>
    rw [List.filter_cons, if_pos (opens_firstCall ho.1).isOperation]
    exact .cons ho ih
  | bracket hb _ _ ih =>
    rw [List.filter_cons, if_neg (by simp [hb])]
    exact ih

end Surroundings

/-! ## Symbols in gate parameters -/

/-- The same parameter with each symbol replaced by what `f` gives for it. -/
inductive Parameter.Renamed (f : String → String) : Parameter → Parameter → Prop where
  | constant (value : Float) : Renamed f (.constant value) (.constant value)
  | symbol (name : String) : Renamed f (.symbol name) (.symbol (f name))
  | pi : Renamed f .pi .pi
  | neg {p q : Parameter} : Renamed f p q → Renamed f (.neg p) (.neg q)
  | binary {op : Arithmetic} {p q p' q' : Parameter} : Renamed f p p' → Renamed f q q' →
      Renamed f (.binary op p q) (.binary op p' q')

theorem Parameter.renamed_rename (f : String → String) (p : Parameter) : Renamed f p (p.rename f) := by
  induction p with
  | constant value => exact .constant value
  | symbol name => exact .symbol name
  | pi => exact .pi
  | neg _ ih => exact .neg ih
  | binary op _ _ ihLeft ihRight => exact .binary ihLeft ihRight

theorem Parameter.Renamed.occurrences_eq {f : String → String} {p q : Parameter} (h : Renamed f p q) :
    q.occurrences = p.occurrences.map f := by
  induction h with
  | constant value => rfl
  | symbol name => rfl
  | pi => rfl
  | neg _ ih => exact ih
  | binary _ _ ihLeft ihRight => rw [occurrences, ihLeft, ihRight, occurrences, List.map_append]

namespace Surroundings

theorem Opened.forall₂ {s : Surroundings} :
    ∀ {ops : List Operation} {calls : List Call}, s.Opened ops calls → List.Forall₂ Opens ops calls
  | [], [], _ => .nil
  | _ :: _, _ :: _, ⟨hcall, hrest⟩ => .cons (opens_firstCall hcall) (Opened.forall₂ hrest)

/-- The symbols of a gate are renamed all at once, by the scope that the gate stands in. -/
theorem gate_opened {s : Surroundings} {o : Occurrence} {site : Site} {g : Gate} {qubits : List Qubit}
    (h : s.Opened (o.operation :: o.around) (site.call :: site.around))
    (hg : o.operation = .gate g qubits) :
    ∃ roles parameters, site.call = .gate roles (parameters.map Parameter.argument) ∧
      List.Forall₂ (Parameter.Renamed (s.scopeIn o.around).rename) g.parameters parameters := by
  have hcall := h.1
  rw [hg] at hcall
  obtain ⟨operands, -, hsite⟩ := firstCall_gate.1 hcall
  refine ⟨g.roles operands, g.parameters.map (·.rename (s.scopeIn o.around).rename), ?_, ?_⟩
  · rw [hsite, List.map_map]
    rfl
  · rw [List.forall₂_map_right_iff]
    exact List.forall₂_same.2 fun p _ => Parameter.renamed_rename _ p

theorem loopVars_site {s : Surroundings} {o : Occurrence} {site : Site}
    (h : s.Opened (o.operation :: o.around) (site.call :: site.around)) :
    site.loopVars = (s.scopeIn o.around).emitted :=
  loopVars_opened h.2

end Surroundings

/-- The name of every loop in a scope is its own or a numbered form, chosen against the loops around
it. -/
theorem Surroundings.emitted_scopeIn_cases (s : Surroundings) {around : List Operation} {i : Nat}
    {name : String} (h : (s.scopeIn around).emitted[i]? = some name) :
    ∃ source, (s.scopeIn around).sources[i]? = some source ∧
      (name = source ∨ Scope.Numbers ((s.scopeIn around).emitted.drop (i + 1)) source name) := by
  induction around generalizing i with
  | nil => cases h
  | cons op rest ih =>
    cases op with
    | forLoop iteration loopVar body =>
      cases i with
      | zero =>
        have hname : (s.scopeIn rest).freshName (s.sourceVar loopVar) = name := Option.some.inj h
        refine ⟨s.sourceVar loopVar, rfl, ?_⟩
        rcases Scope.freshName_cases (s.scopeIn rest) (s.sourceVar loopVar) with ⟨-, heq⟩ | hnumbers
        · exact Or.inl (hname.symm.trans heq)
        · rw [hname] at hnumbers
          exact Or.inr hnumbers
      | succ i => exact ih h
    | _ => exact ih h

/-! ## Names that are identifiers -/

theorem isIdentifier_numbered {source : String} (h : isIdentifier source = true) (n : Nat) :
    isIdentifier (source ++ "_" ++ toString n) = true := by
  obtain ⟨c, more, hsource, hc, hmore⟩ := isIdentifier_iff.1 h
  refine isIdentifier_iff.2 ⟨c, more ++ '_' :: (toString n).toList, by simp [hsource], hc, ?_⟩
  have hdigits : ∀ d ∈ (toString n).toList, isNamePart d = true :=
    spells_isNamePart_of_digits (spells_toString n)
  exact List.forall_mem_append.2 ⟨hmore, List.forall_mem_cons.2 ⟨rfl, hdigits⟩⟩

theorem Surroundings.isIdentifier_emitted (s : Surroundings) {around : List Operation}
    (h : ∀ source ∈ (s.scopeIn around).sources, isIdentifier source = true) :
    ∀ name ∈ (s.scopeIn around).emitted, isIdentifier name = true := by
  intro name hname
  obtain ⟨i, hi⟩ := List.mem_iff_getElem?.1 hname
  obtain ⟨source, hsource, rfl | ⟨-, n, rfl, -⟩⟩ := s.emitted_scopeIn_cases hi
  · exact h _ (List.mem_of_getElem? hsource)
  · exact isIdentifier_numbered (h source (List.mem_of_getElem? hsource)) (n + 1)

theorem Scope.isIdentifier_rename {scope : Scope} (hscope : ∀ name ∈ scope.emitted, isIdentifier name = true)
    {name : String} (h : isIdentifier name = true) : isIdentifier (scope.rename name) = true := by
  unfold Scope.rename
  split
  next binding hfind => exact hscope _ (List.mem_map_of_mem (List.mem_of_find?_eq_some hfind))
  next => exact h

/-- The symbols that arguments show are the renamed symbols of the parameters, in order. -/
theorem Parameter.Renamed.argumentSymbols {f : String → String} {ps qs : List Parameter}
    (h : List.Forall₂ (Renamed f) ps qs) (hnames : ∀ p ∈ ps, ∀ name ∈ p.occurrences, isIdentifier (f name) = true) :
    (qs.map Parameter.argument).map argumentSymbols =
      ps.map fun p => (p.occurrences.map f).filter isSymbolName := by
  induction h with
  | nil => rfl
  | @cons p q ps qs hpq _ ih =>
    obtain ⟨hp, hps⟩ := List.forall_mem_cons.1 hnames
    have hq : ∀ name ∈ q.occurrences, isIdentifier name = true := by
      rw [hpq.occurrences_eq]
      exact List.forall_mem_map.2 hp
    simp only [List.map_cons, ih hps, Parameter.argumentSymbols_argument hq, hpq.occurrences_eq]

theorem Circuit.loopSources_eq (c : Circuit) (settings : Settings) (o : Occurrence) :
    o.loopSources settings = ((c.surroundings settings).scopeIn o.around).sources :=
  ((c.surroundings settings).sources_scopeIn o.around).symm

/-- Nested loops of a program have distinct variables, and every symbol of a gate parameter that some
enclosing loop runs over becomes the variable of the innermost such loop, all symbols of the gate at
once. The texts of the arguments show it: if the names in the circuit are identifiers, those in a text are
the symbols of the parameter under their new names. Calls are matched with operations in order, and blocks
with the operations around them. -/
theorem bound_symbols_follow_innermost_loop {c : Circuit} {settings : Settings} {p : Program}
    (h : c.emit settings = .ok p) :
    (∀ site ∈ p.sites, site.chain.Nodup) ∧
    List.Forall₂
      (fun (o : Occurrence) (site : Site) =>
        List.Forall₂ Opens (o.operation :: o.around) (site.call :: site.around) ∧
        ∀ g qubits, o.operation = .gate g qubits →
          ∃ roles parameters f, site.call = .gate roles (parameters.map Parameter.argument) ∧
            List.Forall₂ (Parameter.Renamed f) g.parameters parameters ∧
            (∀ i name, (o.loopSources settings)[i]? = some name →
              name ∉ (o.loopSources settings).take i → site.loopVars[i]? = some (f name)) ∧
            ((∀ name ∈ o.loopSources settings, isIdentifier name = true) →
              (∀ p ∈ g.parameters, ∀ name ∈ p.occurrences, isIdentifier name = true) →
              (parameters.map Parameter.argument).map argumentSymbols =
                g.parameters.map fun p => (p.occurrences.map f).filter isSymbolName))
      c.occurrences (p.sites.filter (·.call.isOperation)) := by
  have hplaced := Circuit.emit_placed h
  refine ⟨hplaced.nodup_chain, hplaced.forall₂.imp ?_⟩
  intro o site hopened
  refine ⟨hopened.forall₂, ?_⟩
  intro g qubits hg
  obtain ⟨roles, parameters, hcall, hrenamed⟩ := Surroundings.gate_opened hopened hg
  refine ⟨roles, parameters, _, hcall, hrenamed, ?_, ?_⟩
  · intro i name hi hfirst
    rw [c.loopSources_eq] at hi hfirst
    rw [Surroundings.loopVars_site hopened]
    exact Scope.emitted_innermost hi hfirst
  · intro hsources hnames
    rw [c.loopSources_eq] at hsources
    have hemitted := Surroundings.isIdentifier_emitted _ hsources
    exact Parameter.Renamed.argumentSymbols hrenamed fun p hp name hname =>
      Scope.isIdentifier_rename hemitted (hnames p hp name hname)

/-- A loop over `i` inside another one, and in it a loop over the name that the inner one gets. -/
def shadowedLoops : Circuit :=
  ⟨"shadowed", [⟨"q", 1⟩], [],
    [.forLoop (.count 2) (some "i")
      [.forLoop (.values [3, 5]) (some "i")
        [.forLoop (.count 2) (some "i_1")
          [.gate (.rotation .rx (.binary .add (.symbol "i") (.symbol "i_1"))) [⟨"q", 0⟩]]]]]⟩

theorem bound_symbols_follow_innermost_loop_shadowedLoops :
    ∃ p, shadowedLoops.emit {} = .ok p ∧ (∀ site ∈ p.sites, site.chain.Nodup) ∧
      p.loopVars = ["i", "i_1", "i_1_1"] ∧
      ∃ f parameters, f "i" = "i_1" ∧ f "i_1" = "i_1_1" ∧
        List.Forall₂ (Parameter.Renamed f) [.binary .add (.symbol "i") (.symbol "i_1")] parameters ∧
        (parameters.map Parameter.argument).map argumentSymbols = [[f "i", f "i_1"].filter isSymbolName] ∧
        Call.gate ⟨"rx", [0], [], []⟩ (parameters.map Parameter.argument) ∈ p.calls := by
  refine ⟨_, rfl, (@bound_symbols_follow_innermost_loop shadowedLoops {} _ rfl).1, rfl, ?_⟩
  -- The gate is the last of the four operations.
  have hgate := (List.forall₂_iff_get.1
    (@bound_symbols_follow_innermost_loop shadowedLoops {} _ rfl).2).2 3 (by decide) (by decide)
  obtain ⟨roles, parameters, f, hcall, hrenamed, hbound, htexts⟩ := hgate.2 _ _ rfl
  have hinner := hbound 0 "i_1" rfl (by decide)
  have hmiddle := hbound 1 "i" rfl (by decide)
  have harguments : Call.gate ⟨"rx", [0], [], []⟩ ["(i_1 + i_1_1)"] =
    .gate roles (parameters.map Parameter.argument) := hcall
  refine ⟨f, parameters, (Option.some.inj hmiddle).symm, (Option.some.inj hinner).symm, hrenamed,
    htexts (by decide) (by decide), ?_⟩
  rw [← (Call.gate.inj harguments).2]
  decide

/-! ## Symbols that no loop runs over -/

/-- A symbol that no enclosing loop runs over is kept, and it is the variable of an enclosing loop
only if that variable is a numbered form, which a loop gets when a loop around it has its name. A loop
variable is the name of the simulator only if the loop is over that name or gets it as a numbered
form. -/
theorem free_symbols_meet_only_numbered_names {c : Circuit} {settings : Settings} {p : Program}
    (h : c.emit settings = .ok p) :
    List.Forall₂
      (fun (o : Occurrence) (site : Site) =>
        (∀ g qubits, o.operation = .gate g qubits →
          ∃ roles parameters f, site.call = .gate roles (parameters.map Parameter.argument) ∧
            List.Forall₂ (Parameter.Renamed f) g.parameters parameters ∧
            ∀ name, name ∉ o.loopSources settings → f name = name ∧
              ∀ i, site.loopVars[i]? = some name →
                ∃ source, (o.loopSources settings)[i]? = some source ∧
                  Scope.Numbers (site.loopVars.drop (i + 1)) source name) ∧
        ∀ iteration loopVar body header, o.operation = .forLoop iteration loopVar body →
          site.call = .beginFor header → header.loopVar = settings.simulator →
            loopVar.getD settings.defaultLoopVar = settings.simulator ∨
              Scope.Numbers site.loopVars (loopVar.getD settings.defaultLoopVar) settings.simulator)
      c.occurrences (p.sites.filter (·.call.isOperation)) := by
  refine (Circuit.emit_placed h).forall₂.imp ?_
  intro o site hopened
  have hvars := Surroundings.loopVars_site hopened
  refine ⟨?_, ?_⟩
  · intro g qubits hg
    obtain ⟨roles, parameters, hcall, hrenamed⟩ := Surroundings.gate_opened hopened hg
    refine ⟨roles, parameters, _, hcall, hrenamed, ?_⟩
    intro name hname
    rw [c.loopSources_eq] at hname
    refine ⟨Scope.rename_of_not_mem hname, ?_⟩
    intro i hi
    rw [hvars] at hi ⊢
    rw [c.loopSources_eq]
    obtain ⟨source, hsource, rfl | hnumbers⟩ := Surroundings.emitted_scopeIn_cases _ hi
    · exact absurd (List.mem_of_getElem? hsource) hname
    · exact ⟨source, hsource, hnumbers⟩
  · intro iteration loopVar body header hop hcall hsimulator
    have hvar := Surroundings.loopVar?_firstCall hopened.1
    rw [hop, hcall] at hvar
    have hfresh : header.loopVar = Scope.freshName _ (loopVar.getD settings.defaultLoopVar) :=
      Option.some.inj hvar
    rw [hvars, ← hsimulator, hfresh]
    rcases Scope.freshName_cases ((c.surroundings settings).scopeIn o.around)
      (loopVar.getD settings.defaultLoopVar) with ⟨-, heq⟩ | hnumbers
    · exact Or.inl heq.symm
    · exact Or.inr hnumbers

/-- A loop over the name of the simulator, and in it two loops over `i`, the inner of which gets the
name of the free symbol of the gate. -/
def capturingLoops : Circuit :=
  ⟨"capturing", [⟨"q", 1⟩], [],
    [.forLoop (.count 2) (some "sim")
      [.forLoop (.count 2) (some "i")
        [.forLoop (.count 2) (some "i")
          [.gate (.rotation .rx (.symbol "i_1")) [⟨"q", 0⟩]]]]]⟩

theorem free_symbols_meet_only_numbered_names_capturingLoops :
    (∃ p, capturingLoops.emit {} = .ok p) ∧
      ∃ source, ["i", "i", "sim"][0]? = some source ∧ Scope.Numbers ["i", "sim"] source "i_1" := by
  refine ⟨⟨_, rfl⟩, ?_⟩
  have hgate := (List.forall₂_iff_get.1
    (@free_symbols_meet_only_numbered_names capturingLoops {} _ rfl)).2 3 (by decide) (by decide)
  obtain ⟨-, -, f, -, -, hfree⟩ := hgate.1 _ _ rfl
  exact (hfree "i_1" (by decide)).2 0 rfl

/-- Free symbols and the simulator can be captured: the symbol `i_1`, which no enclosing loop runs
over, is the variable of an enclosing loop of the program, and a loop variable is the simulator. -/
theorem free_symbol_and_simulator_captured :
    ∃ p, capturingLoops.emit {} = .ok p ∧
      (∃ o ∈ capturingLoops.occurrences, ∃ site ∈ p.sites,
        o.operation = .gate (.rotation .rx (.symbol "i_1")) [⟨"q", 0⟩] ∧
        "i_1" ∉ o.loopSources {} ∧ site.call = .gate ⟨"rx", [0], [], []⟩ ["i_1"] ∧
        "i_1" ∈ site.loopVars) ∧
      ({} : Settings).simulator ∈ p.loopVars := by
  refine ⟨_, rfl, ⟨_, List.mem_of_getElem? (i := 3) rfl, _, List.mem_of_getElem? (i := 5) rfl, rfl,
    ?_, rfl, ?_⟩, ?_⟩
  · decide
  · decide
  · decide

end CircuitCalls
