import CircuitCalls.Circuit.Json
import CircuitCalls.Proofs.GateJson
import CircuitCalls.Proofs.Operation

/-!
# Circuits read back from their text

`Circuit.write` and `Circuit.read` are inverse to each other on the circuits whose constants are
numbers, and no other circuit can be read back (`written_circuits_read_back`). The operations are
handled one constructor at a time; a body is read at one level of depth less than the operation that
holds it.
-/

namespace CircuitCalls

open Json

/-! ## Parts of operations -/

theorem Bit.ofJson?_asWritten {kind : BitKind} (b : Bit kind) :
    ofJson? b.toJson.asWritten = some b := by
  simp [toJson, ofJson?, fields?, lookup?, asWritten, asWrittenFields]

theorem Bit.legible {kind : BitKind} (b : Bit kind) : b.toJson.Legible := by
  simp [toJson]

theorem ConditionTarget.ofJson?_asWritten (t : ConditionTarget) :
    ofJson? t.toJson.asWritten = some t := by
  cases t with
  | bit clbit => simp [toJson, ofJson?, variant?_asWritten, Bit.ofJson?_asWritten]
  | register name => rfl

theorem ConditionTarget.legible (t : ConditionTarget) : t.toJson.Legible := by
  cases t <;> simp [toJson, Bit.legible]

theorem Condition.ofJson?_asWritten (c : Condition) : ofJson? c.toJson.asWritten = some c := by
  simp [toJson, ofJson?, fields?, lookup?, asWritten, asWrittenFields,
    ConditionTarget.ofJson?_asWritten]

theorem Condition.legible (c : Condition) : c.toJson.Legible := by
  simp [toJson, ConditionTarget.legible]

theorem Iteration.ofJson?_asWritten (i : Iteration) : ofJson? i.toJson.asWritten = some i := by
  cases i with
  | range start stop step =>
    simp [toJson, ofJson?, variant?, fields?, lookup?, asWritten, asWrittenFields]
  | values vs => simp [toJson, ofJson?, variant?_asWritten, asList?_ofList]
  | count n => simp [toJson, ofJson?, variant?_asWritten]

theorem Iteration.legible (i : Iteration) : i.toJson.Legible := by
  cases i <;> simp [toJson, legible_ofList]

theorem Directive.ofJson?_asWritten (d : Directive) : ofJson? d.toJson.asWritten = some d := by
  cases d with
  | delay duration =>
    simp [toJson, ofJson?, bareVariant?, variant?, isNothing, fields?, lookup?, asWritten,
      asWrittenFields]
  | _ => rfl

theorem Directive.legible (d : Directive) : d.toJson.Legible := by
  cases d <;> simp [toJson]

/-! ## Operations -/

namespace Operation

def ownConstants : Operation → List Float
  | gate g _ => g.constants
  | _ => []

/-- The constants of an operation and all that is inside it. -/
def constants (op : Operation) : List Float := op.nodes.flatMap ownConstants

theorem flatMap_nodesAll (ops : List Operation) :
    (nodesAll ops).flatMap ownConstants = ops.flatMap constants := by
  rw [nodesAll_eq_flatMap, List.flatMap_assoc]
  rfl

section

variable {condition : Condition} {iteration : Iteration} {loopVar : Option String}
  {thenBody elseBody body : List Operation}

theorem constants_gate (g : Gate) (qubits : List Qubit) : (gate g qubits).constants = g.constants :=
  List.append_nil _

theorem constants_ifThen : (ifElse condition thenBody none).constants = thenBody.flatMap constants := by
  simp [constants, nodes, ownConstants, flatMap_nodesAll]

theorem constants_ifElse : (ifElse condition thenBody (some elseBody)).constants =
    thenBody.flatMap constants ++ elseBody.flatMap constants := by
  simp [constants, nodes, ownConstants, flatMap_nodesAll]

theorem constants_whileLoop : (whileLoop condition body).constants = body.flatMap constants := by
  simp [constants, nodes, ownConstants, flatMap_nodesAll]

theorem constants_forLoop : (forLoop iteration loopVar body).constants = body.flatMap constants := by
  simp [constants, nodes, ownConstants, flatMap_nodesAll]

end

theorem toJsons_eq (ops : List Operation) : toJsons ops = ops.map toJson := by
  induction ops with
  | nil => rfl
  | cons op rest ih => rw [toJsons, ih, List.map_cons]

theorem tagged?_asWritten (op : Operation) (strictness : Strictness) (tag : String)
    (fields : List (String × Json)) (hop : op.toJson = obj (("op", .str tag) :: fields))
    (htag : tag ∈ tags) (hfields : ∀ field ∈ fields, field.1 ≠ "op") :
    ∃ told, told = tag ∧ op.toJson.asWritten.tagged? strictness "op" tags =
      some (told, (obj fields).asWritten) := by
  rw [hop]
  exact tagged?_head strictness "op" tags tag fields htag hfields

/-- Reading the operation back gives it at any depth that leaves room for it, unless a constant is
lost. -/
def ReadsBack (op : Operation) : Prop :=
  ∀ depth strictness, op.toJson.depth ≤ depth → depth ≤ maxDepth →
    ofJsonWithin? (depth + 1) strictness op.toJson.asWritten = ifFinite op.constants op

theorem asList?_bits {kind : BitKind} (bits : List (Bit kind)) :
    (Json.ofList (fun b : Bit kind => b.toJson.asWritten) bits).asList? Bit.ofJson? = some bits :=
  asList?_ofList Bit.ofJson?_asWritten bits

theorem asList?_body {body : List Operation} (h : ∀ op ∈ body, op.ReadsBack) {depth : Nat}
    (hdepth : (arr (toJsons body)).depth < depth) (hmax : depth ≤ maxDepth) :
    (arr (asWrittenItems (toJsons body))).asList? (ofJsonWithin? depth .loose) =
      ifFinite (body.flatMap constants) body := by
  obtain ⟨depth, rfl⟩ := Nat.exists_eq_add_one_of_ne_zero (Nat.ne_zero_of_lt hdepth)
  rw [toJsons_eq] at hdepth
  rw [asWrittenItems_eq, asList?, toJsons_eq, List.map_map]
  apply mapM_ifFinite
  intro op hop
  have hitem := depth_lt_of_item (Nat.le_of_lt_succ hdepth) (List.mem_map_of_mem hop)
  exact h op hop depth .loose (Nat.le_of_lt hitem) (Nat.le_of_succ_le hmax)

section

variable {condition : Condition} {iteration : Iteration} {loopVar : Option String}
  {thenBody elseBody body : List Operation}

theorem readsBack_gate (g : Gate) (qubits : List Qubit) : (gate g qubits).ReadsBack := by
  intro depth strictness hdepth hmax
  have hgate := depth_lt_of_field hdepth (show ("gate", g.toJson) ∈ _ by simp)
  have hread : Gate.ofJson? .loose g.toJson.asWritten = ifFinite g.constants g :=
    Gate.ofJson?_asWritten (Nat.le_trans (Nat.le_of_lt hgate) hmax)
  obtain ⟨tag, htag, htagged⟩ := tagged?_asWritten (gate g qubits) strictness "gate"
    [("gate", g.toJson), ("qubits", .ofList Bit.toJson qubits)] rfl (by decide) (by simp)
  simp only [ofJsonWithin?, htagged, Option.bind_eq_bind, Option.bind_some]
  rw [if_pos htag]
  simp [fields?, lookup?, asWritten, asWrittenFields, hread, asList?_bits, constants_gate]

theorem readsBack_measure (qubits : List Qubit) (clbits : List Clbit) :
    (measure qubits clbits).ReadsBack := by
  intro depth strictness hdepth hmax
  obtain ⟨tag, htag, htagged⟩ := tagged?_asWritten (measure qubits clbits) strictness "measure"
    [("qubits", .ofList Bit.toJson qubits), ("clbits", .ofList Bit.toJson clbits)] rfl (by decide)
    (by simp)
  simp only [ofJsonWithin?, htagged, Option.bind_eq_bind, Option.bind_some]
  rw [if_neg (htag ▸ by decide), if_pos htag]
  simp [fields?, lookup?, asWritten, asWrittenFields, asList?_bits, constants, nodes, ownConstants]

theorem readsBack_ifThen (hthen : ∀ op ∈ thenBody, op.ReadsBack) :
    (ifElse condition thenBody none).ReadsBack := by
  intro depth strictness hdepth hmax
  have hthen := asList?_body hthen
    (depth_lt_of_field hdepth (show ("then_body", arr (toJsons thenBody)) ∈ _ by simp)) hmax
  obtain ⟨tag, htag, htagged⟩ := tagged?_asWritten (ifElse condition thenBody none) strictness
    "if_else" [("condition", condition.toJson), ("then_body", .arr (toJsons thenBody))] rfl (by decide)
    (by simp)
  simp only [ofJsonWithin?, htagged, Option.bind_eq_bind, Option.bind_some]
  rw [if_neg (htag ▸ by decide), if_neg (htag ▸ by decide), if_pos htag]
  simp [fields?, lookup?, asWritten, asWrittenFields, Condition.ofJson?_asWritten, hthen, optional?,
    constants_ifThen]

/-- A conditional with an alternative reads back if everything inside does. -/
theorem readsBack_ifElse (hthen : ∀ op ∈ thenBody, op.ReadsBack)
    (helse : ∀ op ∈ elseBody, op.ReadsBack) :
    (ifElse condition thenBody (some elseBody)).ReadsBack := by
  intro depth strictness hdepth hmax
  have hthen := asList?_body hthen
    (depth_lt_of_field hdepth (show ("then_body", arr (toJsons thenBody)) ∈ _ by simp)) hmax
  have helse := asList?_body helse
    (depth_lt_of_field hdepth (show ("else_body", arr (toJsons elseBody)) ∈ _ by simp)) hmax
  obtain ⟨tag, htag, htagged⟩ := tagged?_asWritten (ifElse condition thenBody (some elseBody))
    strictness "if_else" [("condition", condition.toJson), ("then_body", .arr (toJsons thenBody)),
      ("else_body", .arr (toJsons elseBody))] rfl (by decide) (by simp)
  have hfields : (obj [("condition", condition.toJson), ("then_body", .arr (toJsons thenBody)),
      ("else_body", .arr (toJsons elseBody))]).asWritten.fields?
      ["condition", "then_body", "else_body"] =
      some [some condition.toJson.asWritten, some (arr (asWrittenItems (toJsons thenBody))),
        some (arr (asWrittenItems (toJsons elseBody)))] := by
    simp [fields?, lookup?, asWritten, asWrittenFields]
  simp only [ofJsonWithin?, htagged, Option.bind_eq_bind, Option.bind_some]
  rw [if_neg (htag ▸ by decide), if_neg (htag ▸ by decide), if_pos htag, hfields, constants_ifElse]
  simp only [Condition.ofJson?_asWritten, hthen, helse, optional?, map_ifFinite, Option.bind_some,
    bind_ifFinite_some]
  exact bind_ifFinite rfl

theorem readsBack_whileLoop (hbody : ∀ op ∈ body, op.ReadsBack) :
    (whileLoop condition body).ReadsBack := by
  intro depth strictness hdepth hmax
  have hbody := asList?_body hbody
    (depth_lt_of_field hdepth (show ("body", arr (toJsons body)) ∈ _ by simp)) hmax
  obtain ⟨tag, htag, htagged⟩ := tagged?_asWritten (whileLoop condition body) strictness "while_loop"
    [("condition", condition.toJson), ("body", .arr (toJsons body))] rfl (by decide) (by simp)
  simp only [ofJsonWithin?, htagged, Option.bind_eq_bind, Option.bind_some]
  rw [if_neg (htag ▸ by decide), if_neg (htag ▸ by decide), if_neg (htag ▸ by decide), if_pos htag]
  simp [fields?, lookup?, asWritten, asWrittenFields, Condition.ofJson?_asWritten, hbody,
    constants_whileLoop]

theorem readsBack_forLoop (hbody : ∀ op ∈ body, op.ReadsBack) :
    (forLoop iteration loopVar body).ReadsBack := by
  intro depth strictness hdepth hmax
  have hbody := asList?_body hbody
    (depth_lt_of_field hdepth (show ("body", arr (toJsons body)) ∈ _ by simp)) hmax
  obtain ⟨tag, htag, htagged⟩ := tagged?_asWritten (forLoop iteration loopVar body) strictness
    "for_loop" (("iteration", iteration.toJson) ::
      (field? "variable" .str loopVar ++ [("body", .arr (toJsons body))]))
    (by simp [toJson]) (by decide) (by cases loopVar <;> simp [field?])
  simp only [ofJsonWithin?, htagged, Option.bind_eq_bind, Option.bind_some]
  rw [if_neg (htag ▸ by decide), if_neg (htag ▸ by decide), if_neg (htag ▸ by decide),
    if_neg (htag ▸ by decide), if_pos htag]
  cases loopVar <;>
    simp [field?, fields?, lookup?, asWritten, asWrittenFields, optional?,
      Iteration.ofJson?_asWritten, hbody, constants_forLoop]

theorem readsBack_directive (d : Directive) (qubits : List Qubit) :
    (directive d qubits).ReadsBack := by
  intro depth strictness hdepth hmax
  obtain ⟨tag, htag, htagged⟩ := tagged?_asWritten (directive d qubits) strictness "directive"
    [("kind", d.toJson), ("qubits", .ofList Bit.toJson qubits)] rfl (by decide) (by simp)
  simp only [ofJsonWithin?, htagged, Option.bind_eq_bind, Option.bind_some]
  rw [if_neg (htag ▸ by decide), if_neg (htag ▸ by decide), if_neg (htag ▸ by decide),
    if_neg (htag ▸ by decide), if_neg (htag ▸ by decide), if_pos htag]
  simp [fields?, lookup?, asWritten, asWrittenFields, Directive.ofJson?_asWritten, asList?_bits,
    constants, nodes, ownConstants]

end

theorem readsBack_and_all :
    (∀ op : Operation, op.ReadsBack) ∧ ∀ ops : List Operation, ∀ op ∈ ops, op.ReadsBack := by
  apply Operation.induction
  case gate => exact readsBack_gate
  case measure => exact readsBack_measure
  case ifThen => exact fun _ _ => readsBack_ifThen
  case ifElse => exact fun _ _ _ => readsBack_ifElse
  case whileLoop => exact fun _ _ => readsBack_whileLoop
  case forLoop => exact fun _ _ _ => readsBack_forLoop
  case directive => exact readsBack_directive
  case nil => exact fun _ h => absurd h List.not_mem_nil
  case cons => exact fun _ _ hop hrest => List.forall_mem_cons.2 ⟨hop, hrest⟩

/-- The JSON form of operations is legible if their constants are faithful. -/
theorem legible_and_all :
    (∀ op : Operation, (∀ x ∈ op.constants, Faithful x) → op.toJson.Legible) ∧
      ∀ ops : List Operation, (∀ x ∈ ops.flatMap constants, Faithful x) →
        (arr (toJsons ops)).Legible := by
  apply Operation.induction
  case gate =>
    intro g qubits h
    rw [constants_gate] at h
    simp [toJson, Gate.legible h, legible_ofList, Bit.legible]
  case measure =>
    intro qubits clbits h
    simp [toJson, legible_ofList, Bit.legible]
  case ifThen =>
    intro condition thenBody ih h
    rw [constants_ifThen] at h
    simp [toJson, Condition.legible, ih h]
  case ifElse =>
    intro condition thenBody elseBody ihThen ihElse h
    rw [constants_ifElse, List.forall_mem_append] at h
    simp [toJson, Condition.legible, ihThen h.1, ihElse h.2]
  case whileLoop =>
    intro condition body ih h
    rw [constants_whileLoop] at h
    simp [toJson, Condition.legible, ih h]
  case forLoop =>
    intro iteration loopVar body ih h
    rw [constants_forLoop] at h
    simp [toJson, Iteration.legible, legible_field?, ih h]
  case directive =>
    intro d qubits h
    simp [toJson, Directive.legible, legible_ofList, Bit.legible]
  case nil => exact fun _ => legible_arr_nil
  case cons =>
    intro op rest ihOp ihRest h
    rw [List.flatMap_cons, List.forall_mem_append] at h
    exact legible_arr_cons.2 ⟨ihOp h.1, ihRest h.2⟩

end Operation

/-! ## Circuits -/

theorem Register.ofJson?_asWritten {kind : BitKind} (r : Register kind) :
    ofJson? r.toJson.asWritten = some r := by
  simp [toJson, ofJson?, fields?, lookup?, asWritten, asWrittenFields]

theorem Register.legible {kind : BitKind} (r : Register kind) : r.toJson.Legible := by
  simp [toJson]

namespace Circuit

def constants (c : Circuit) : List Float := c.nodes.flatMap Operation.ownConstants

theorem constants_eq (c : Circuit) : c.constants = c.operations.flatMap Operation.constants :=
  Operation.flatMap_nodesAll c.operations

/-- The JSON form of a circuit holds the circuit, unless a constant is no number. -/
theorem ofJson?_asWritten {c : Circuit} (h : c.toJson.depth ≤ maxDepth) :
    ofJson? c.toJson.asWritten = ifFinite c.constants c := by
  have hlist := depth_lt_of_field h
    (show ("operations", arr (Operation.toJsons c.operations)) ∈ _ by simp)
  have hoperations : (arr (asWrittenItems (Operation.toJsons c.operations))).asList?
      (Operation.ofJson? .strict) = ifFinite c.constants c.operations := by
    rw [Operation.toJsons_eq] at hlist ⊢
    rw [asWrittenItems_eq, asList?, List.map_map, constants_eq]
    apply mapM_ifFinite
    intro op hop
    have hitem := depth_lt_of_item (Nat.le_of_lt hlist) (List.mem_map_of_mem hop)
    exact Operation.readsBack_and_all.1 op maxDepth .strict (Nat.le_of_lt hitem) (Nat.le_refl _)
  simp [toJson, ofJson?, fields?, lookup?, asWritten, asWrittenFields, withDefault?, hoperations,
    asList?_ofList Register.ofJson?_asWritten]

theorem legible {c : Circuit} (h : ∀ x ∈ c.constants, Faithful x) : c.toJson.Legible := by
  rw [constants_eq] at h
  simp [toJson, legible_ofList, Register.legible, Operation.legible_and_all.2 c.operations h]

theorem readUnchecked?_write {c : Circuit} (hdepth : c.toJson.depth ≤ maxDepth)
    (h : ∀ x ∈ c.constants, Faithful x) : readUnchecked? c.write = ifFinite c.constants c := by
  rw [readUnchecked?, write, parse?_pretty (legible h) hdepth]
  exact ofJson?_asWritten hdepth

end Circuit

/-- **A written circuit reads back exactly if its constants are numbers.** The circuit is valid, its
text nests no deeper than a reader allows, and its finite constants are spelled so that they read
back. Then reading the text gives the circuit itself, unless a constant at some depth is NaN or
infinite: what is read then is no circuit. -/
theorem written_circuits_read_back {c : Circuit} (hvalid : c.validate = .ok ())
    (hdepth : c.toJson.depth ≤ 127) (hfaithful : ∀ x ∈ c.constants, Faithful x) :
    ((∃ d, Circuit.read c.write = .ok d) ↔ ∀ x ∈ c.constants, x.isFinite = true) ∧
      ((∀ x ∈ c.constants, x.isFinite = true) → Circuit.read c.write = .ok c) ∧
      ((∃ x ∈ c.constants, x.isNaN = true ∨ x.isInf = true) →
        Circuit.read c.write = .error .notACircuit) := by
  have hread := Circuit.readUnchecked?_write hdepth hfaithful
  have hfinite : (∀ x ∈ c.constants, x.isFinite = true) → Circuit.read c.write = .ok c := by
    intro h
    rw [Circuit.read, hread, ifFinite_of_finite h]
    simp [hvalid]
  have hlost : (∃ x ∈ c.constants, x.isFinite = false) → Circuit.read c.write = .error .notACircuit := by
    intro h
    rw [Circuit.read, hread, ifFinite_of_not_finite h]
  refine ⟨⟨?_, fun h => ⟨c, hfinite h⟩⟩, hfinite, ?_⟩
  · rintro ⟨d, hd⟩
    by_contra h
    have hlost := hlost (by simpa using h)
    rw [hlost] at hd
    cases hd
  · rintro ⟨x, hx, hnumber⟩
    exact hlost ⟨x, hx, (isFinite_eq_false_iff x).2 hnumber⟩

/-- A conditional around a loop, with a name that needs escapes and a gate under two kinds of
controls whose parameter holds a constant. -/
def nestedCircuit (value : Float) : Circuit :=
  { name := "a \"b\"\n\x01", qregs := [⟨"q", 4⟩], cregs := [⟨"c", 2⟩]
    operations := [
      .ifElse ⟨.bit ⟨"c", 1⟩, 1⟩
        [.forLoop (.range 0 (-6) (-2)) (some "i")
          [.gate (.controlled "ccrx" 1 (some 0)
              (.controlled "crx" 1 none
                (.standard (.rotation .rx (.binary .mul (.symbol "i") (.neg (.constant value)))) none)
                (some "inner")) none)
            [⟨"q", 0⟩, ⟨"q", 1⟩, ⟨"q", 2⟩]]]
        (some [.whileLoop ⟨.register "c", 3⟩ [.measure [⟨"q", 3⟩] [⟨"c", 0⟩]],
          .directive (.delay 5) [⟨"q", 1⟩]])] }

theorem written_circuits_read_back_nestedCircuit :
    Circuit.read (nestedCircuit 0.1).write = .ok (nestedCircuit 0.1) ∧
      Circuit.read (nestedCircuit (0 / 0)).write = .error .notACircuit := by
  have hnumber := written_circuits_read_back (c := nestedCircuit 0.1) rfl (by decide +kernel)
    (by decide +kernel)
  have hnan := written_circuits_read_back (c := nestedCircuit (0 / 0)) rfl (by decide +kernel)
    (by decide +kernel)
  exact ⟨hnumber.2.1 (by decide +kernel),
    hnan.2.2 ⟨0 / 0, List.mem_singleton_self _, .inl (by decide +kernel)⟩⟩

end CircuitCalls
