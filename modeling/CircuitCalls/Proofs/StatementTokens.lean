import CircuitCalls.Proofs.Elaboration
import CircuitCalls.Proofs.ExpressionTokens
import CircuitCalls.Qasm.Parser.Statement

/-!
# Statements read from their tokens

Every statement has a canonical form: sizes and counts are always written, a body always stands in
braces, and an alternative is written exactly if there is one.
-/

namespace CircuitCalls.Qasm

/-! ## Writing statements -/

def braced (tokens : List Token) : List Token :=
  .symbol .leftBrace :: (tokens ++ [.symbol .rightBrace])

def Selection.tokens : Selection → List Token
  | all => []
  | index place => [.symbol .leftBracket, .int place.toUInt64, .symbol .rightBracket]
  | slice first last =>
    [.symbol .leftBracket, .int first.toUInt64, .symbol .colon, .int last.toUInt64,
      .symbol .rightBracket]

def Operand.tokens (o : Operand) : List Token := .identifier o.register :: o.selection.tokens

def operandTokens (operands : List Operand) : List Token :=
  commaSeparated (operands.map Operand.tokens)

def Modifier.tokens : Modifier → List Token
  | ctrl count => .keyword .ctrl :: parenthesized [.int count.toUInt64]
  | negctrl count => .keyword .negctrl :: parenthesized [.int count.toUInt64]
  | inv => [.keyword .inv]
  | pow exponent => .keyword .pow :: parenthesized exponent.tokens

def modifierTokens (modifiers : List Modifier) : List Token :=
  modifiers.flatMap fun m => m.tokens ++ [.symbol .atSign]

/-- The name of a gate; two gates have a keyword for a name. -/
def gateToken (name : String) : Token :=
  if name = "U" then .keyword .gateU
  else if name = "CX" then .keyword .gateCX
  else .identifier name

def parameterTokens : List Expression → List Token
  | [] => []
  | parameters => parenthesized (commaSeparated (parameters.map Expression.tokens))

def GateCall.tokens (call : GateCall) : List Token :=
  modifierTokens call.modifiers ++ gateToken call.name ::
    (parameterTokens call.parameters ++ (operandTokens call.qubits ++ [.symbol .semicolon]))

def LoopDomain.tokens : LoopDomain → List Token
  | range start none finish =>
    .symbol .leftBracket :: (start.tokens ++ .symbol .colon :: (finish.tokens ++
      [.symbol .rightBracket]))
  | range start (some step) finish =>
    .symbol .leftBracket :: (start.tokens ++ .symbol .colon :: (step.tokens ++ .symbol .colon ::
      (finish.tokens ++ [.symbol .rightBracket])))
  | values items => braced (commaSeparated (items.map Expression.tokens))

def declarationKeyword : BitKind → Keyword
  | .quantum => .qubit
  | .classical => .bit

namespace Statement

mutual

def tokens : Statement → List Token
  | .includeFile path => [.keyword .includeFile, .string path, .symbol .semicolon]
  | .declare kind name size =>
    [.keyword (declarationKeyword kind), .symbol .leftBracket, .int size.toUInt64,
      .symbol .rightBracket, .identifier name, .symbol .semicolon]
  | .gate call => call.tokens
  | .measure qubits bits =>
    .keyword .measure :: (operandTokens qubits ++ ((match bits with
      | [] => []
      | bits => .symbol .arrow :: operandTokens bits) ++ [.symbol .semicolon]))
  | .reset qubits => .keyword .reset :: (operandTokens qubits ++ [.symbol .semicolon])
  | .barrier qubits => .keyword .barrier :: (operandTokens qubits ++ [.symbol .semicolon])
  | .delay duration qubits =>
    .keyword .delay :: .symbol .leftBracket :: (duration.tokens ++ .symbol .rightBracket ::
      (operandTokens qubits ++ [.symbol .semicolon]))
  | .ifElse test thenBody elseBody =>
    .keyword .ifKey :: (parenthesized test.tokens ++ (braced (tokensAll thenBody) ++
      match elseBody with
      | none => []
      | some body => .keyword .elseKey :: braced (tokensAll body)))
  | .whileLoop test body =>
    .keyword .whileKey :: (parenthesized test.tokens ++ braced (tokensAll body))
  | .forLoop loopVar domain body =>
    .keyword .forKey :: .identifier loopVar :: .keyword .inKey ::
      (domain.tokens ++ braced (tokensAll body))

def tokensAll : List Statement → List Token
  | [] => []
  | s :: more => s.tokens ++ tokensAll more

end

end Statement

/-! ## Statements that can be written -/

def Modifier.isUnsigned : Modifier → Bool
  | pow exponent => exponent.isUnsigned
  | _ => true

def LoopDomain.isUnsigned : LoopDomain → Bool
  | range start step finish => start.isUnsigned && step.all Expression.isUnsigned && finish.isUnsigned
  | values items => items.all Expression.isUnsigned

def GateCall.isWritable (call : GateCall) : Bool :=
  call.modifiers.all Modifier.isUnsigned && call.parameters.all Expression.isUnsigned &&
    !call.qubits.isEmpty

namespace Statement

mutual

/-- Whether a statement has operands where it needs them, and no negative number: a minus sign is an
operator and not part of a number. -/
def isWritable : Statement → Bool
  | .gate call => call.isWritable
  | .measure qubits _ => !qubits.isEmpty
  | .reset qubits => !qubits.isEmpty
  | .delay duration qubits => duration.isUnsigned && !qubits.isEmpty
  | .ifElse test thenBody elseBody =>
    test.isUnsigned && areWritable thenBody && match elseBody with
      | none => true
      | some body => areWritable body
  | .whileLoop test body => test.isUnsigned && areWritable body
  | .forLoop _ domain body => domain.isUnsigned && areWritable body
  | .includeFile _ | .declare _ _ _ | .barrier _ => true

def areWritable : List Statement → Bool
  | [] => true
  | s :: more => s.isWritable && areWritable more

end

end Statement

/-! ## Reading operands -/

namespace Parser

/-- The next token neither selects from a register nor brings another operand. -/
def AfterOperand (next : Option Token) : Prop :=
  next ≠ some (.symbol .leftBracket) ∧ next ≠ some (.symbol .comma)

theorem reads_selection (s : Selection) :
    Reads selection s.tokens s (· ≠ some (.symbol .leftBracket)) := by
  rw [selection]
  cases s with
  | all => exact .still (reads_unconsumed _) (.pure _) fun _ hnext => hnext
  | index place =>
    exact .consume _ (.size _ (.still (reads_unconsumed _) (.symbol _ (.pure _)) fun _ _ => by simp))
  | slice first last => exact .consume _ (.size _ (.consume _ (.size _ (.symbol _ (.pure _)))))

theorem reads_operand (o : Operand) :
    Reads operand o.tokens o (· ≠ some (.symbol .leftBracket)) :=
  .identifier _ (.last (reads_selection o.selection) _)

/-- Operands behind commas are read up to the first token that brings no other. -/
theorem reads_moreOperands (operands : List Operand) {budget : Nat}
    (hbudget : (commaLed (operands.map Operand.tokens)).length < budget) :
    Reads (moreOperands budget) (commaLed (operands.map Operand.tokens)) operands AfterOperand := by
  induction operands generalizing budget with
  | nil =>
    obtain ⟨budget, rfl⟩ : ∃ b, budget = b + 1 := ⟨budget - 1, by omega⟩
    rw [moreOperands]
    exact .still (reads_unconsumed _) (.pure []) fun _ hnext => hnext.2
  | cons o operands ih =>
    rw [List.map_cons, commaLed_cons] at hbudget ⊢
    rw [List.length_cons, List.length_append] at hbudget
    obtain ⟨budget, rfl⟩ : ∃ b, budget = b + 1 := ⟨budget - 1, by omega⟩
    rw [moreOperands]
    refine .consume _ (.bind (reads_operand o) (.last (ih (by omega)) _) fun next hnext => ?_)
    cases operands with
    | nil => exact hnext.1
    | cons o' operands => simp [commaLed_cons]

theorem reads_operands {operands : List Operand} (hne : operands ≠ []) {budget : Nat}
    (hbudget : (operandTokens operands).length < budget) :
    Reads (Parser.operands budget) (operandTokens operands) operands AfterOperand := by
  cases operands with
  | nil => exact absurd rfl hne
  | cons o operands =>
    rw [operandTokens, List.map_cons, commaSeparated, List.length_append] at hbudget
    refine .bind (reads_operand o) (.last (reads_moreOperands operands (by omega)) _)
      fun next hnext => ?_
    cases operands with
    | nil => exact hnext.1
    | cons o' operands => simp [commaLed_cons]

/-- Operands up to the end of a statement. -/
theorem reads_lastOperands {operands : List Operand} (hne : operands ≠ []) {budget : Nat}
    (hbudget : (operandTokens operands).length < budget) (f : List Operand → Statement)
    {after : Option Token → Prop} :
    Reads (do
        let found ← Parser.operands budget
        symbol .semicolon
        return f found)
      (operandTokens operands ++ [.symbol .semicolon]) (f operands) after :=
  .bind (reads_operands hne hbudget) (.symbol _ (.pure _)) fun _ _ => ⟨by simp, by simp⟩

/-! ## Reading statements without a body -/

section

variable {after : Option Token → Prop}

theorem reads_declaration (kind : BitKind) (name : String) (size : UInt32) :
    Reads (declaration kind)
      [.symbol .leftBracket, .int size.toUInt64, .symbol .rightBracket, .identifier name,
        .symbol .semicolon] (.declare kind name size) after := by
  have hsize : Reads bracketedSize? [.symbol .leftBracket, .int size.toUInt64, .symbol .rightBracket]
      (some size) fun _ => True := .consume _ (.size _ (.symbol _ (.pure _)))
  exact .bind hsize (.identifier _ (.symbol _ (.pure _))) fun _ _ => trivial

theorem reads_includeFile (path : String) :
    Reads includeFile [.string path, .symbol .semicolon] (.includeFile path) after :=
  .next _ _ fun _ => .symbol _ (.pure _)

theorem reads_measure {qubits : List Operand} (hqubits : qubits ≠ []) {budget : Nat}
    (hbudget : (operandTokens qubits).length < budget) :
    Reads (measure budget) (operandTokens qubits ++ [.symbol .semicolon]) (.measure qubits []) after := by
  have hbits : Reads (pure []) [] ([] : List Operand) fun _ => True := .pure []
  exact .bind (reads_operands hqubits hbudget) (.still (reads_unconsumed _) (.still hbits
    (.symbol _ (.pure _)) fun _ _ => trivial) fun _ _ => by simp) fun _ _ => ⟨by simp, by simp⟩

theorem reads_measureBits {qubits bits : List Operand} (hqubits : qubits ≠ []) (hbits : bits ≠ [])
    {budget : Nat} (hbudget : (operandTokens qubits).length + (operandTokens bits).length < budget) :
    Reads (measure budget)
      (operandTokens qubits ++ .symbol .arrow :: (operandTokens bits ++ [.symbol .semicolon]))
      (.measure qubits bits) after :=
  .bind (reads_operands hqubits (by omega)) (.consume _ (.bind (reads_operands hbits (by omega))
    (.symbol _ (.pure _)) fun _ _ => ⟨by simp, by simp⟩)) fun _ _ => ⟨by simp, by simp⟩

theorem reads_barrier (qubits : List Operand) {budget : Nat}
    (hbudget : (operandTokens qubits).length < budget) :
    Reads (barrier budget) (operandTokens qubits ++ [.symbol .semicolon]) (.barrier qubits) after := by
  cases qubits with
  | nil =>
    have hnone : Reads (pure []) [] ([] : List Operand) fun _ => True := .pure []
    exact .still (reads_check _) (.still hnone (.symbol _ (.pure _)) fun _ _ => trivial) fun _ _ => rfl
  | cons o more =>
    exact .still (reads_uncheck _) (reads_lastOperands (List.cons_ne_nil o more) hbudget .barrier)
      fun _ _ => by simp [operandTokens, commaSeparated, Operand.tokens]

theorem reads_delay {duration : Expression} (hduration : duration.isUnsigned = true)
    {qubits : List Operand} (hqubits : qubits ≠ []) {budget : Nat}
    (hbudget : 4 * duration.tokens.length + (operandTokens qubits).length < budget) :
    Reads (delay budget)
      (.symbol .leftBracket :: (duration.tokens ++ .symbol .rightBracket ::
        (operandTokens qubits ++ [.symbol .semicolon])))
      (.delay duration qubits) after := by
  have hexpression := reads_expression hduration (by omega : 4 * duration.tokens.length ≤ budget)
  have hunit : Reads skipUnit [] () (· = some (.symbol .rightBracket)) :=
    .still (reads_peek (some (.symbol .rightBracket))) (.pure ()) fun _ hnext => hnext
  exact .symbol _ (.bind hexpression (.still hunit (.symbol _ (reads_lastOperands hqubits (by omega) _))
    fun _ _ => rfl) fun _ _ => closes_symbol (s := .rightBracket) (by decide))

/-! ## Reading gate calls -/

theorem gateToken_cases (name : String) :
    name = "U" ∧ gateToken name = .keyword .gateU ∨ name = "CX" ∧ gateToken name = .keyword .gateCX ∨
      gateToken name = .identifier name := by
  unfold gateToken
  by_cases hU : name = "U"
  · exact .inl ⟨hU, if_pos hU⟩
  · rw [if_neg hU]
    by_cases hCX : name = "CX"
    · exact .inr (.inl ⟨hCX, if_pos hCX⟩)
    · exact .inr (.inr (if_neg hCX))

theorem reads_controlCount (count : UInt32) :
    Reads controlCount (parenthesized [.int count.toUInt64]) count after :=
  .consume _ (.size _ (.symbol _ (.pure _)))

theorem reads_modifier {m : Modifier} (h : m.isUnsigned = true) {budget : Nat}
    (hbudget : 4 * m.tokens.length ≤ budget) :
    Reads (modifier? budget) m.tokens (some m) after := by
  rw [modifier?]
  cases m with
  | ctrl count => exact .peek _ (.skip _ (.last (reads_controlCount count) _))
  | negctrl count => exact .peek _ (.skip _ (.last (reads_controlCount count) _))
  | inv => exact .peek _ (.skip _ (.pure _))
  | pow exponent =>
    simp only [Modifier.tokens, parenthesized, List.length_cons, List.length_append,
      List.length_nil] at hbudget
    have hexponent := reads_expression h (by omega : 4 * exponent.tokens.length ≤ budget)
    exact .peek _ (.skip _ (.symbol _ (.bind hexponent (.symbol _ (.pure _))
      fun _ _ => closes_symbol (s := .rightParen) (by decide))))

theorem reads_noModifier (name : String) (budget : Nat) :
    Reads (modifier? budget) [] none (· = some (gateToken name)) := by
  rw [modifier?]
  refine .still (reads_peek (some (gateToken name))) ?_ fun _ hnext => hnext
  rcases gateToken_cases name with ⟨-, h⟩ | ⟨-, h⟩ | h <;> rw [h] <;> exact .pure none

/-- Modifiers are read up to the name of the gate, whose token is none of theirs. -/
theorem reads_modifiers {modifiers : List Modifier} (h : modifiers.all Modifier.isUnsigned = true)
    (name : String) {budget : Nat} (hbudget : 4 * (modifierTokens modifiers).length < budget) :
    Reads (Parser.modifiers budget) (modifierTokens modifiers) modifiers
      (· = some (gateToken name)) := by
  induction modifiers generalizing budget with
  | nil =>
    obtain ⟨budget, rfl⟩ : ∃ b, budget = b + 1 := ⟨budget - 1, by omega⟩
    rw [Parser.modifiers]
    exact .still (reads_noModifier name budget) (.pure []) fun _ hnext => hnext
  | cons m modifiers ih =>
    obtain ⟨hm, hmore⟩ : m.isUnsigned = true ∧ modifiers.all Modifier.isUnsigned = true := by
      simpa using h
    have htokens : modifierTokens (m :: modifiers) =
        m.tokens ++ .symbol .atSign :: modifierTokens modifiers := by
      simp [modifierTokens]
    rw [htokens] at hbudget ⊢
    rw [List.length_append, List.length_cons] at hbudget
    obtain ⟨budget, rfl⟩ : ∃ b, budget = b + 1 := ⟨budget - 1, by omega⟩
    rw [Parser.modifiers]
    have hfirst : Reads (modifier? budget) m.tokens (some m) fun _ => True :=
      reads_modifier hm (by omega)
    exact .bind hfirst (.symbol _ (.last (ih hmore (by omega)) _)) fun _ _ => trivial

theorem reads_gateName (name : String) : Reads gateName [gateToken name] name after := by
  rw [gateName]
  refine .next _ _ fun line => ?_
  rcases gateToken_cases name with ⟨rfl, h⟩ | ⟨rfl, h⟩ | h <;> rw [h] <;> exact .pure _

theorem reads_gateParameters {parameters : List Expression}
    (h : parameters.all Expression.isUnsigned = true) {budget : Nat}
    (hbudget : 4 * (parameterTokens parameters).length < budget) :
    Reads (gateParameters budget) (parameterTokens parameters) parameters
      (· ≠ some (.symbol .leftParen)) := by
  cases parameters with
  | nil => exact .still (reads_unconsumed _) (.pure []) fun _ hnext => hnext
  | cons e more =>
    simp only [parameterTokens, parenthesized, List.length_cons, List.length_append,
      List.length_nil] at hbudget
    exact .consume _ (.bind (reads_expressionsUntil (readsEach h) (.inl rfl) (by omega))
      (.symbol _ (.pure _)) fun _ _ => rfl)

theorem isWritable_call {call : GateCall} (h : call.isWritable = true) :
    call.modifiers.all Modifier.isUnsigned = true ∧ call.parameters.all Expression.isUnsigned = true ∧
      call.qubits ≠ [] := by
  simpa [GateCall.isWritable, and_assoc] using h

/-- Behind the name of a gate stands a parenthesis or the name of a register. -/
theorem head_afterName (parameters : List Expression) {qubits : List Operand} (hqubits : qubits ≠ []) :
    ∃ t more, parameterTokens parameters ++ (operandTokens qubits ++ [.symbol .semicolon]) = t :: more ∧
      (t = .symbol .leftParen ∨ ∃ register, t = .identifier register) := by
  cases parameters with
  | cons e more => exact ⟨_, _, rfl, .inl rfl⟩
  | nil =>
    cases qubits with
    | nil => exact absurd rfl hqubits
    | cons o more => exact ⟨_, _, rfl, .inr ⟨o.register, rfl⟩⟩

theorem reads_gateCall {call : GateCall} (h : call.isWritable = true) {budget : Nat}
    (hbudget : 4 * (parameterTokens call.parameters).length + (operandTokens call.qubits).length < budget) :
    Reads (gateCall budget call.modifiers call.name)
      (parameterTokens call.parameters ++ (operandTokens call.qubits ++ [.symbol .semicolon]))
      (.gate call) after := by
  obtain ⟨-, hparameters, hqubits⟩ := isWritable_call h
  refine .bind (reads_gateParameters hparameters (by omega))
    (reads_lastOperands hqubits (by omega) fun qubits => .gate ⟨_, _, qubits, _⟩) fun next _ => ?_
  cases hcall : call.qubits with
  | nil => exact absurd hcall hqubits
  | cons o more => simp [operandTokens, commaSeparated, Operand.tokens]

theorem reads_modifiedCall {call : GateCall} (h : call.isWritable = true) {budget : Nat}
    (hbudget : 4 * call.tokens.length ≤ budget + 1) :
    Reads (modifiedCall budget) call.tokens (.gate call) after := by
  simp only [GateCall.tokens, List.length_append, List.length_cons, List.length_nil] at hbudget
  obtain ⟨hmodifiers, -, -⟩ := isWritable_call h
  have hname : Reads gateName [gateToken call.name] call.name fun _ => True := reads_gateName call.name
  exact .bind (reads_modifiers hmodifiers call.name (by omega))
    (.bind hname (reads_gateCall h (by omega)) fun _ _ => trivial) fun _ _ => rfl

/-- A modifier starts with a keyword of its own. -/
theorem head_modifiers (m : Modifier) (modifiers : List Modifier) :
    ∃ k more, modifierTokens (m :: modifiers) = .keyword k :: more ∧
      (k = .ctrl ∨ k = .negctrl ∨ k = .inv ∨ k = .pow) := by
  cases m <;> exact ⟨_, _, rfl, by simp⟩

/-- A gate call is read from its tokens, with or without modifiers and parameters. -/
theorem reads_gate {call : GateCall} (h : call.isWritable = true) {budget : Nat}
    (hbudget : 4 * call.tokens.length ≤ budget + 1) :
    Reads (statement (budget + 1)) call.tokens (.gate call) after := by
  rw [statement]
  obtain ⟨name, parameters, qubits, modifiers⟩ := call
  cases modifiers with
  | cons m modifiers =>
    have hcall : Reads (modifiedCall budget) _ _ after := reads_modifiedCall h hbudget
    obtain ⟨k, more, hmore, hk⟩ := head_modifiers m modifiers
    rw [GateCall.tokens, hmore, List.cons_append] at hcall ⊢
    rcases hk with rfl | rfl | rfl | rfl <;> exact .peek _ hcall
  | nil =>
    simp only [GateCall.tokens, List.length_append, List.length_cons, List.length_nil] at hbudget
    have hcall : Reads (gateCall budget [] name) _ _ after :=
      reads_gateCall h (by dsimp only; omega)
    change Reads _ (gateToken name ::
      (parameterTokens parameters ++ (operandTokens qubits ++ [.symbol .semicolon]))) _ _
    rcases gateToken_cases name with ⟨rfl, hname⟩ | ⟨rfl, hname⟩ | hname
    · rw [hname]
      exact .peek _ (.skip _ hcall)
    · rw [hname]
      exact .peek _ (.skip _ hcall)
    · -- What stands behind the name tells a gate call from the assignment of a measurement.
      obtain ⟨t, more, hmore, ht⟩ := head_afterName parameters (isWritable_call h).2.2
      rw [hname]
      refine .peek _ (.skip _ ?_)
      rw [namedStatement]
      dsimp only at hcall
      rw [hmore] at hcall ⊢
      rcases ht with rfl | ⟨register, rfl⟩ <;> exact .peek _ hcall

/-! ## Reading conditionals and loops -/

theorem reads_condition {test : Expression} (h : test.isUnsigned = true) {budget : Nat}
    (hbudget : 4 * (parenthesized test.tokens).length ≤ budget) :
    Reads (condition budget) (parenthesized test.tokens) test fun _ => True := by
  simp only [parenthesized, List.length_cons, List.length_append, List.length_nil] at hbudget
  exact .symbol _ (.bind (reads_expression h (by omega)) (.symbol _ (.pure _))
    fun _ _ => closes_symbol (s := .rightParen) (by decide))

/-- A loop variable without a type. -/
theorem reads_untyped {β : Type} {k : Unit → Parser β} {loopVar : String} {us : List Token} {b : β}
    (hk : Reads (k ()) (.identifier loopVar :: .keyword .inKey :: us) b after) :
    Reads (skipLoopType >>= k) (.identifier loopVar :: .keyword .inKey :: us) b after := by
  intro found rest hfound hrest
  have hafter := hk found rest hfound hrest
  obtain ⟨⟨t, line⟩, later, rfl, rfl, hlater⟩ := List.map_eq_cons_iff.1 hfound
  obtain ⟨⟨t', line'⟩, later, rfl, rfl, -⟩ := List.map_eq_cons_iff.1 hlater
  exact hafter

/-- What a loop runs over is read from its tokens, up to the closing bracket or brace. -/
theorem reads_loopDomain {domain : LoopDomain} (h : domain.isUnsigned = true) {budget : Nat}
    (hbudget : 4 * domain.tokens.length ≤ budget) :
    Reads (loopDomain budget) domain.tokens domain after := by
  have colon : ∀ next : Option Token, Closes ((some (Token.symbol .colon)).or next) := fun _ =>
    closes_symbol (by decide)
  have bracket : ∀ next : Option Token, Closes ((some (Token.symbol .rightBracket)).or next) := fun _ =>
    closes_symbol (by decide)
  cases domain with
  | range start step finish =>
    obtain ⟨⟨hstart, hstep⟩, hfinish⟩ :
        (start.isUnsigned = true ∧ step.all Expression.isUnsigned = true) ∧
          finish.isUnsigned = true := by
      simpa [LoopDomain.isUnsigned] using h
    cases step with
    | none =>
      simp only [LoopDomain.tokens, List.length_cons, List.length_append, List.length_nil] at hbudget
      have hstart := reads_expression hstart (by omega : 4 * start.tokens.length ≤ budget)
      have hfinish := reads_expression hfinish (by omega : 4 * finish.tokens.length ≤ budget)
      exact .next _ _ fun _ => .bind hstart (.symbol _ (.bind hfinish (.still (reads_unconsumed _)
        (.symbol _ (.pure _)) fun _ _ => by simp) fun next _ => bracket next)) fun next _ => colon next
    | some step =>
      simp only [LoopDomain.tokens, List.length_cons, List.length_append, List.length_nil] at hbudget
      have hstart := reads_expression hstart (by omega : 4 * start.tokens.length ≤ budget)
      have hstep := reads_expression hstep (by omega : 4 * step.tokens.length ≤ budget)
      have hfinish := reads_expression hfinish (by omega : 4 * finish.tokens.length ≤ budget)
      exact .next _ _ fun _ => .bind hstart (.symbol _ (.bind hstep (.consume _ (.bind hfinish
        (.symbol _ (.pure _)) fun next _ => bracket next)) fun next _ => colon next))
        fun next _ => colon next
  | values items =>
    simp only [LoopDomain.tokens, braced, List.length_cons, List.length_append,
      List.length_nil] at hbudget
    have hitems := reads_expressionsUntil (readsEach h) (.inr rfl) (by omega : _ ≤ budget)
    exact .next _ _ fun _ => .bind hitems (.symbol _ (.pure _)) fun _ _ => rfl

end

/-- A statement starts with a token that neither closes a block nor continues a conditional. -/
theorem head_statement (s : Statement) :
    ∃ t more, s.tokens = t :: more ∧ t ≠ .symbol .rightBrace ∧ t ≠ .keyword .elseKey := by
  cases s with
  | gate call =>
    cases hmodifiers : call.modifiers with
    | nil =>
      refine ⟨gateToken call.name, _, by rw [Statement.tokens, GateCall.tokens, hmodifiers]; rfl, ?_⟩
      rcases gateToken_cases call.name with ⟨-, h⟩ | ⟨-, h⟩ | h <;> simp [h]
    | cons m modifiers =>
      obtain ⟨k, more, hmore, hk⟩ := head_modifiers m modifiers
      refine ⟨.keyword k, _, by rw [Statement.tokens, GateCall.tokens, hmodifiers, hmore]; rfl, ?_⟩
      rcases hk with rfl | rfl | rfl | rfl <;> simp
  | declare kind name size => cases kind <;> exact ⟨_, _, rfl, by simp [declarationKeyword]⟩
  | includeFile path => exact ⟨_, _, rfl, by simp⟩
  | measure qubits bits => exact ⟨_, _, rfl, by simp⟩
  | reset qubits => exact ⟨_, _, rfl, by simp⟩
  | barrier qubits => exact ⟨_, _, rfl, by simp⟩
  | delay duration qubits => exact ⟨_, _, rfl, by simp⟩
  | ifElse test thenBody elseBody => cases elseBody <;> exact ⟨_, _, rfl, by simp⟩
  | whileLoop test body => exact ⟨_, _, rfl, by simp⟩
  | forLoop loopVar domain body => exact ⟨_, _, rfl, by simp⟩

/-! ## Every statement -/

/-- The statement is read from its tokens, unless a conditional goes on behind them. -/
def ReadsStatement (s : Statement) : Prop :=
  ∀ budget, 4 * s.tokens.length ≤ budget + 1 →
    Reads (statement (budget + 1)) s.tokens s (· ≠ some (.keyword .elseKey))

def ReadsBlock (ss : List Statement) : Prop :=
  ∀ budget, 4 * (Statement.tokensAll ss).length + 4 ≤ budget →
    Reads (statementsUntilBrace budget) (Statement.tokensAll ss ++ [.symbol .rightBrace]) ss
      fun _ => True

/-- No statement continues a conditional before it. -/
theorem noElse_tokensAll (ss : List Statement) (tokens : List Token) (next : Option Token)
    (h : tokens.head?.or next ≠ some (.keyword .elseKey)) :
    (Statement.tokensAll ss ++ tokens).head?.or next ≠ some (.keyword .elseKey) := by
  cases ss with
  | nil => exact h
  | cons s ss =>
    obtain ⟨t, more, htokens, -, helse⟩ := head_statement s
    rw [Statement.tokensAll, htokens]
    simpa using helse

theorem readsStatement_declare (kind : BitKind) (name : String) (size : UInt32) :
    ReadsStatement (.declare kind name size) := by
  intro budget _
  rw [statement]
  cases kind with
  | quantum => exact .peek _ (.skip _ (reads_declaration .quantum name size))
  | classical => exact .peek _ (.skip _ (reads_declaration .classical name size))

theorem readsStatement_measure {qubits : List Operand} (hqubits : qubits ≠ []) (bits : List Operand) :
    ReadsStatement (.measure qubits bits) := by
  intro budget hbudget
  rw [statement]
  cases bits with
  | nil =>
    simp only [Statement.tokens, List.nil_append, List.length_cons, List.length_append] at hbudget
    exact .peek _ (.skip _ (reads_measure hqubits (by omega)))
  | cons o more =>
    simp only [Statement.tokens, List.length_cons, List.length_append] at hbudget
    exact .peek _ (.skip _ (reads_measureBits hqubits (List.cons_ne_nil o more) (by omega)))

theorem readsStatement_reset {qubits : List Operand} (hqubits : qubits ≠ []) :
    ReadsStatement (.reset qubits) := by
  intro budget hbudget
  simp only [Statement.tokens, List.length_cons, List.length_append] at hbudget
  rw [statement]
  exact .peek _ (.skip _ (reads_lastOperands hqubits (by omega) .reset))

theorem readsStatement_barrier (qubits : List Operand) : ReadsStatement (.barrier qubits) := by
  intro budget hbudget
  simp only [Statement.tokens, List.length_cons, List.length_append] at hbudget
  rw [statement]
  exact .peek _ (.skip _ (reads_barrier qubits (by omega)))

theorem readsStatement_delay {duration : Expression} (hduration : duration.isUnsigned = true)
    {qubits : List Operand} (hqubits : qubits ≠ []) : ReadsStatement (.delay duration qubits) := by
  intro budget hbudget
  simp only [Statement.tokens, List.length_cons, List.length_append] at hbudget
  rw [statement]
  exact .peek _ (.skip _ (reads_delay hduration hqubits (by omega)))

namespace ReadsBlock

variable {ss : List Statement}

theorem body (h : ReadsBlock ss) {budget : Nat}
    (hbudget : 4 * (braced (Statement.tokensAll ss)).length ≤ budget) :
    Reads (Parser.body budget) (braced (Statement.tokensAll ss)) ss fun _ => True := by
  simp only [braced, List.length_cons, List.length_append, List.length_nil] at hbudget
  obtain ⟨budget, rfl⟩ : ∃ b, budget = b + 1 := ⟨budget - 1, by omega⟩
  rw [Parser.body]
  exact .consume _ (h budget (by omega))

theorem ifThen (h : ReadsBlock ss) {test : Expression} (htest : test.isUnsigned = true) :
    ReadsStatement (.ifElse test ss none) := by
  intro budget hbudget
  simp only [Statement.tokens, List.length_cons, List.length_append] at hbudget
  rw [statement]
  exact .peek _ (.skip _ (.bind (reads_condition htest (by omega)) (.bind (h.body (by omega))
    (.still (reads_unconsumed _) (.pure _) fun _ hnext => hnext) fun _ _ => trivial)
    fun _ _ => trivial))

theorem ifElse {elseBody : List Statement} (h : ReadsBlock ss) (helse : ReadsBlock elseBody)
    {test : Expression} (htest : test.isUnsigned = true) :
    ReadsStatement (.ifElse test ss (some elseBody)) := by
  intro budget hbudget
  simp only [Statement.tokens, List.length_cons, List.length_append] at hbudget
  rw [statement]
  have hbody := helse.body (by omega : _ ≤ budget)
  exact .peek _ (.skip _ (.bind (reads_condition htest (by omega)) (.bind (h.body (by omega))
    (.consume _ (.last hbody.anywhere _)) fun _ _ => trivial) fun _ _ => trivial))

theorem whileLoop (h : ReadsBlock ss) {test : Expression} (htest : test.isUnsigned = true) :
    ReadsStatement (.whileLoop test ss) := by
  intro budget hbudget
  simp only [Statement.tokens, List.length_cons, List.length_append] at hbudget
  rw [statement]
  have hbody := h.body (by omega : _ ≤ budget)
  exact .peek _ (.skip _ (.bind (reads_condition htest (by omega)) (.last hbody.anywhere _) fun _ _ => trivial))

theorem forLoop (h : ReadsBlock ss) (loopVar : String) {domain : LoopDomain}
    (hdomain : domain.isUnsigned = true) : ReadsStatement (.forLoop loopVar domain ss) := by
  intro budget hbudget
  simp only [Statement.tokens, List.length_cons, List.length_append] at hbudget
  rw [statement]
  have hloop : Reads (loopDomain budget) domain.tokens domain fun _ => True :=
    reads_loopDomain hdomain (by omega)
  have hbody := h.body (by omega : _ ≤ budget)
  exact .peek _ (.skip _ (reads_untyped (.identifier _ (.step (expect_cons (.keyword .inKey))
    (.bind hloop (.last hbody.anywhere _) fun _ _ => trivial)))))

theorem nil : ReadsBlock [] := by
  intro budget hbudget
  obtain ⟨budget, rfl⟩ : ∃ b, budget = b + 1 := ⟨budget - 1, by omega⟩
  rw [statementsUntilBrace]
  exact .peek _ (.skip _ (.pure []))

theorem cons {s : Statement} (hs : ReadsStatement s) (h : ReadsBlock ss) : ReadsBlock (s :: ss) := by
  intro budget hbudget
  obtain ⟨t, more, htokens, hbrace, helse⟩ := head_statement s
  have hlength : 0 < s.tokens.length := by simp [htokens]
  rw [Statement.tokensAll, List.length_append] at hbudget
  obtain ⟨budget, rfl⟩ : ∃ b, budget = b + 2 := ⟨budget - 2, by omega⟩
  have hsteps : Reads (do
        let first ← statement (budget + 1)
        let rest ← statementsUntilBrace (budget + 1)
        return first :: rest)
      (s.tokens ++ (Statement.tokensAll ss ++ [.symbol .rightBrace])) (s :: ss) fun _ => True := by
    refine .bind (hs budget (by omega)) (.last (h (budget + 1) (by omega)) _) fun _ _ => ?_
    exact noElse_tokensAll ss _ _ (by simp)
  rw [Statement.tokensAll, List.append_assoc, statementsUntilBrace]
  rw [htokens] at hsteps ⊢
  refine .peek t ?_
  split
  · cases ‹some t = none›
  · cases ‹some t = some (.symbol .rightBrace)›
    exact absurd rfl hbrace
  · exact hsteps

end ReadsBlock

/-- Every statement is read from its tokens, and every block from those of its statements. -/
theorem reads_statement_and_block :
    (∀ s : Statement, s.isWritable = true → ReadsStatement s) ∧
    ∀ ss : List Statement, Statement.areWritable ss = true → ReadsBlock ss := by
  apply Statement.induction
  case includeFile =>
    intro path _ budget _
    rw [statement]
    exact .peek _ (.skip _ (reads_includeFile path))
  case declare => exact fun kind name size _ => readsStatement_declare kind name size
  case gate => exact fun call h budget hbudget => reads_gate h hbudget
  case measure =>
    intro qubits bits h
    exact readsStatement_measure (by simpa [Statement.isWritable] using h) bits
  case reset =>
    intro qubits h
    exact readsStatement_reset (by simpa [Statement.isWritable] using h)
  case barrier => exact fun qubits _ => readsStatement_barrier qubits
  case delay =>
    intro duration qubits h
    obtain ⟨hduration, hqubits⟩ : duration.isUnsigned = true ∧ qubits ≠ [] := by
      simpa [Statement.isWritable] using h
    exact readsStatement_delay hduration hqubits
  case ifThen =>
    intro test thenBody ih h
    obtain ⟨htest, hthen⟩ : test.isUnsigned = true ∧ Statement.areWritable thenBody = true := by
      simpa [Statement.isWritable] using h
    exact (ih hthen).ifThen htest
  case ifElse =>
    intro test thenBody elseBody ihthen ihelse h
    obtain ⟨⟨htest, hthen⟩, helse⟩ : (test.isUnsigned = true ∧ Statement.areWritable thenBody = true) ∧
        Statement.areWritable elseBody = true := by
      simpa [Statement.isWritable] using h
    exact (ihthen hthen).ifElse (ihelse helse) htest
  case whileLoop =>
    intro test body ih h
    obtain ⟨htest, hbody⟩ : test.isUnsigned = true ∧ Statement.areWritable body = true := by
      simpa [Statement.isWritable] using h
    exact (ih hbody).whileLoop htest
  case forLoop =>
    intro loopVar domain body ih h
    obtain ⟨hdomain, hbody⟩ : domain.isUnsigned = true ∧ Statement.areWritable body = true := by
      simpa [Statement.isWritable] using h
    exact (ih hbody).forLoop loopVar hdomain
  case nil => exact fun _ => .nil
  case cons =>
    intro s ss ihs ihss h
    obtain ⟨hs, hss⟩ : s.isWritable = true ∧ Statement.areWritable ss = true := by
      simpa [Statement.areWritable] using h
    exact .cons (ihs hs) (ihss hss)

/-- The statements of a source are read up to its end. -/
theorem reads_statementsToEnd {ss : List Statement} (h : Statement.areWritable ss = true) {budget : Nat}
    (hbudget : 4 * (Statement.tokensAll ss).length < budget) :
    Reads (statementsToEnd budget) (Statement.tokensAll ss) ss (· = none) := by
  induction ss generalizing budget with
  | nil =>
    obtain ⟨budget, rfl⟩ : ∃ b, budget = b + 1 := ⟨budget - 1, by omega⟩
    rw [statementsToEnd]
    exact .still (reads_peek none) (.pure []) fun _ hnext => hnext
  | cons s ss ih =>
    obtain ⟨hs, hss⟩ : s.isWritable = true ∧ Statement.areWritable ss = true := by
      simpa [Statement.areWritable] using h
    obtain ⟨t, more, htokens, -⟩ := head_statement s
    have hlength : 0 < s.tokens.length := by simp [htokens]
    rw [Statement.tokensAll, List.length_append] at hbudget
    obtain ⟨budget, rfl⟩ : ∃ b, budget = b + 2 := ⟨budget - 2, by omega⟩
    have hsteps : Reads (do
          let first ← statement (budget + 1)
          let rest ← statementsToEnd (budget + 1)
          return first :: rest)
        (s.tokens ++ Statement.tokensAll ss) (s :: ss) (· = none) := by
      refine .bind (reads_statement_and_block.1 s hs budget (by omega)) (.last (ih hss (by omega)) _) ?_
      rintro _ rfl
      simpa using noElse_tokensAll ss [] none (by simp)
    rw [Statement.tokensAll, statementsToEnd]
    rw [htokens] at hsteps ⊢
    exact .peek t hsteps

end Parser

def versionLine : List Token := [.keyword .openqasm, .int 3, .symbol .semicolon]

/-- Statements are read from their tokens, wherever these stand. -/
theorem statements_follow_their_tokens {statements : List Statement}
    (h : Statement.areWritable statements = true) {located : List Located}
    (htokens : located.map (·.token) = versionLine ++ Statement.tokensAll statements) :
    Script.ofTokens located = .ok ⟨"3.0", statements⟩ := by
  have hlength : located.length = (Statement.tokensAll statements).length + 3 := by
    have := congrArg List.length htokens
    simpa [versionLine] using this
  have hscript : Parser.Reads (Parser.script (Parser.budgetFor located.length))
      (versionLine ++ Statement.tokensAll statements) ⟨"3.0", statements⟩ (· = none) := by
    have hstatements := Parser.reads_statementsToEnd h
      (by rw [Parser.budgetFor]; omega : _ < Parser.budgetFor located.length)
    exact .step (Parser.expect_cons _) (.step (fun _ _ => rfl) (.symbol _ (.last hstatements _)))
  have hread := hscript located [] htokens rfl
  rw [List.append_nil] at hread
  rw [Script.ofTokens, hread]

/-- Statements of every kind, among them nested conditionals with and without an alternative. -/
def nestedStatements : List Statement :=
  let q : Operand := ⟨"q", .all⟩
  let q0 : Operand := ⟨"q", .index 0⟩
  let angle : Expression :=
    .binary .div (.unary .neg (.binary .sub (.int 1) (.binary .sub (.constant .pi) (.name "a"))))
      (.call "f" [.index "b" (.int 9223372036854775807), .float 0.5])
  [.includeFile "stdgates.inc",
    .declare .quantum "q" 4,
    .declare .classical "b" 1,
    .gate ⟨"U", [angle, .bool true, .int 0], [q0], [.negctrl 2, .pow angle, .inv, .ctrl 1]⟩,
    .gate ⟨"CX", [], [q0, ⟨"q", .slice 1 2⟩], []⟩,
    .gate ⟨"h", [], [q], []⟩,
    .measure [q] [],
    .measure [q0] [⟨"b", .all⟩],
    .reset [q],
    .barrier [],
    .forLoop "i" (.range (.int 0) (some (.int 2)) (.int 6))
      [.whileLoop (.binary .eq (.name "b") (.int 1))
        [.ifElse (.name "b") [.ifElse (.name "b") [] none] (some [.barrier [q, q0]])],
        .delay (.name "d") [q]],
    .forLoop "j" (.range (.int 0) none (.int 6)) [],
    .forLoop "k" (.values []) []]

theorem statements_follow_their_tokens_nestedStatements :
    Statement.areWritable nestedStatements = true ∧
    Script.ofTokens ((versionLine ++ Statement.tokensAll nestedStatements).map (⟨·, 1⟩)) =
      .ok ⟨"3.0", nestedStatements⟩ := by
  have h : Statement.areWritable nestedStatements = true := by decide
  exact ⟨h, statements_follow_their_tokens h (List.map_map.trans (List.map_id _))⟩

end CircuitCalls.Qasm
