import CircuitCalls.Proofs.ParserProgress

/-!
# The loops of the parser

Each loop of the parser runs rounds on what has been read so far (`rounds`). A round may go on, and then
it has taken a token, or end the loop. So every loop ends with the tokens, and so do all parsers that are
made of such loops: with a budget that is linear in the number of tokens, parsing gives an answer that no
larger budget changes, and a source that is accepted has been read to its last token
(`parsing_ends_with_the_tokens`).
-/

namespace CircuitCalls.Qasm.Parser

variable {α β σ : Type}

/-! ## Places in the tokens -/

/-- A parser that succeeds at a place in the tokens leaves off at a place that is not before it and not
behind the last token, and that is further on if the result is one for which `onward` holds. -/
def Moves (p : Parser α) (onward : α → Prop) : Prop :=
  ∀ (tokens : List Located) (place : Nat) (a : α) (rest : List Located), place ≤ tokens.length →
    p (tokens.drop place) = .ok (a, rest) →
    ∃ place', place ≤ place' ∧ place' ≤ tokens.length ∧ rest = tokens.drop place' ∧
      (onward a → place < place')

theorem moves_of_takes {p : Parser α} {onward : α → Prop}
    (h : ∀ {left a rest}, p left = .ok (a, rest) →
      ∃ taken, left = taken ++ rest ∧ (onward a → taken ≠ [])) : Moves p onward := by
  intro tokens place a rest hplace ha
  obtain ⟨taken, htaken, hne⟩ := h ha
  have hrest : rest = tokens.drop (place + taken.length) := by
    rw [← List.drop_drop, htaken, List.drop_left]
  have hlength : taken.length + rest.length = tokens.length - place := by
    rw [← List.length_drop, htaken, List.length_append]
  refine ⟨place + taken.length, by omega, by omega, hrest, fun hon => ?_⟩
  have := List.length_pos_iff.2 (hne hon)
  omega

theorem moves_of_advances {p : Parser α} (h : ∀ left, Advances left p p 1 0) :
    Moves p fun _ => True :=
  moves_of_takes fun ha => by
    obtain ⟨taken, htaken, hleft⟩ := (h _).takes ha
    exact ⟨taken, hleft, fun _ => List.length_pos_iff.1 htaken⟩

/-! ## Rounds -/

/-- Runs rounds from a state until one of them gives no new state. -/
def rounds (round : Nat → σ → Parser (Option σ)) : Nat → σ → Parser σ
  | 0, _ => exhausted
  | budget + 1, s => do
    let next ← round budget s
    match next with
    | some s => rounds round budget s
    | none => return s

/-- The loop runs rounds from a state, and a round that goes on has moved on. -/
structure RunsRounds (loop : Nat → Parser σ) (round : Nat → σ → Parser (Option σ)) (start : σ) : Prop where
  eq_rounds : ∀ budget, loop budget = rounds round budget start
  moves : ∀ budget s, Moves (round budget s) (·.isSome = true)

/-- The round that adds an item to those found so far, or ends the loop without one. -/
def gathering (item : Nat → Parser (Option α)) (budget : Nat) (found : List α) :
    Parser (Option (List α)) :=
  Option.map (fun x => found ++ [x]) <$> item budget

/-- What a step of a loop reads is taken from the front of `left`, and the step takes something unless it
ends the loop. -/
structure TakesItem (left : List Located) (p : Parser (Option α)) : Prop where
  takes : ∀ {found rest}, p left = .ok (found, rest) →
    ∃ taken, left = taken ++ rest ∧ (found.isSome = true → taken ≠ [])

namespace TakesItem

variable {left : List Located}

theorem none : TakesItem left (pure none : Parser (Option α)) where
  takes := by
    intro found rest h
    cases h
    exact ⟨[], rfl, by simp⟩

theorem of_advances {p : Parser (Option α)} (h : Advances left p p 1 0) : TakesItem left p where
  takes := by
    intro found rest hfound
    obtain ⟨taken, htaken, hleft⟩ := h.takes hfound
    exact ⟨taken, hleft, fun _ => List.length_pos_iff.1 htaken⟩

theorem congr {p q : Parser (Option α)} (h : TakesItem left q) (hp : p left = q left) :
    TakesItem left p where
  takes hfound := h.takes (hp.symm.trans hfound)

theorem peek {k : Option Token → Parser (Option α)} (h : TakesItem left (k (ahead left))) :
    TakesItem left (peek? >>= k) := h.congr rfl

theorem bind {p : Parser β} {k : β → Parser (Option α)} (hp : Advances left p p 0 0)
    (hk : ∀ b rest, TakesItem rest (k b)) : TakesItem left (p >>= k) where
  takes := by
    intro found rest h
    obtain ⟨b, middle, hb, hfound⟩ := exists_of_bind_eq_ok h
    obtain ⟨first, -, hmiddle⟩ := hp.takes hb
    obtain ⟨second, hrest, hsecond⟩ := (hk b middle).takes hfound
    refine ⟨first ++ second, by rw [hmiddle, hrest, List.append_assoc], fun hsome hnil => ?_⟩
    exact hsecond hsome (List.append_eq_nil_iff.1 hnil).2

theorem consume {t : Token} {k : Bool → Parser (Option α)}
    (htaken : ∀ rest, Advances rest (k true) (k true) 0 0) (hleft : TakesItem left (k false)) :
    TakesItem left (Parser.consume t >>= k) := by
  by_cases h : ahead left = some t
  · cases left with
    | nil => cases h
    | cons u rest =>
      have hskip : Advances (u :: rest) (skip >>= fun _ => k true) (skip >>= fun _ => k true) 1 0 :=
        .skip (htaken rest)
      refine congr (of_advances hskip) ?_
      rw [bind_apply, consume_eq, if_pos h]
      rfl
  · refine congr hleft ?_
    rw [bind_apply, consume_eq, if_neg h]
    rfl

theorem moves {p : Parser (Option α)} (h : ∀ left, TakesItem left p) : Moves p (·.isSome = true) :=
  moves_of_takes fun hfound => (h _).takes hfound

theorem map {p : Parser (Option α)} (h : TakesItem left p) (f : α → β) :
    TakesItem left (Option.map f <$> p) where
  takes := by
    intro next rest hnext
    rw [map_eq_pure_bind] at hnext
    obtain ⟨x, middle, hx, hpure⟩ := exists_of_bind_eq_ok hnext
    cases hpure
    obtain ⟨taken, hleft, hne⟩ := h.takes hx
    exact ⟨taken, hleft, fun hsome => hne (by simpa using hsome)⟩

end TakesItem

/-- A parser of a list that reads an item and then the rest gathers its items in rounds. -/
theorem map_append_eq_rounds {loop : Nat → Parser (List α)} {item : Nat → Parser (Option α)}
    (hzero : loop 0 = exhausted)
    (hsucc : ∀ budget, loop (budget + 1) = item budget >>= fun found =>
      (found.elim (pure []) fun x => (x :: ·) <$> loop budget)) (budget : Nat) (found : List α) :
    (found ++ ·) <$> loop budget = rounds (gathering item) budget found := by
  induction budget generalizing found with
  | zero =>
    rw [hzero]
    rfl
  | succ budget ih =>
    rw [hsucc, rounds, gathering, map_bind, bind_map_left]
    refine bind_congr fun next => ?_
    cases next with
    | none => simp
    | some x =>
      have := ih (found ++ [x])
      simp only [Option.elim_some, Option.map_some, Functor.map_map]
      rw [← this]
      simp

theorem runsRounds_gathering {loop : Nat → Parser (List α)} {item : Nat → Parser (Option α)}
    (hzero : loop 0 = exhausted)
    (hsucc : ∀ budget, loop (budget + 1) = item budget >>= fun found =>
      (found.elim (pure []) fun x => (x :: ·) <$> loop budget))
    (hitem : ∀ budget left, TakesItem left (item budget)) : RunsRounds loop (gathering item) [] where
  eq_rounds budget := by
    rw [← map_append_eq_rounds hzero hsucc]
    simp
  moves budget found := TakesItem.moves fun left => (hitem budget left).map _

/-! ## The six loops -/

def statement? (budget : Nat) : Parser (Option Statement) := do
  let token ← peek?
  match token with
  | none => return none
  | some _ => some <$> statement budget

def blockStatement? (budget : Nat) : Parser (Option Statement) := do
  let token ← peek?
  match token with
  | none => fail (.unexpectedEnd "'\x7d'")
  | some (.symbol .rightBrace) =>
    skip
    return none
  | some _ => some <$> statement budget

def signedModifier? (budget : Nat) : Parser (Option Modifier) := do
  let found ← modifier? budget
  match found with
  | some m =>
    symbol .atSign
    return some m
  | none => return none

def commaItem? (item : Parser α) : Parser (Option α) := do
  let comma ← consume (.symbol .comma)
  if comma then some <$> item else return none

/-- The operand `left` joined with the next one, if an operator comes that binds tightly enough. -/
def joined? (least budget : Nat) (left : Expression) : Parser (Option Expression) := do
  let token ← peek?
  match token.bind BinaryOperator.ofToken? with
  | some op =>
    if op.precedence < least then
      return none
    else
      skip
      let right ← expressionAbove budget (op.precedence + 1)
      return some (.binary op left right)
  | none => return none

theorem Advances.map {left : List Located} {p q : Parser α} {least limit : Nat}
    (h : Advances left p q least limit) (f : α → β) : Advances left (f <$> p) (f <$> q) least limit := by
  rw [map_eq_pure_bind, map_eq_pure_bind]
  refine h.bind fun a rest => ?_
  rw [Nat.sub_self]
  exact .pure (f a)

theorem takesItem_statement {budget : Nat} {left : List Located} :
    TakesItem left (some <$> statement budget) :=
  .of_advances (((statementsAdvance (Nat.le_refl budget)).statement (by omega)).map some)

theorem takesItem_comma {item : Parser α} (h : ∀ rest, Advances rest item item 1 0)
    (left : List Located) : TakesItem left (commaItem? item) :=
  .consume (fun rest => ((h rest).map some).mono (Nat.zero_le 1) (Nat.le_refl 0)) .none

theorem runsRounds_statementsToEnd : RunsRounds statementsToEnd (gathering statement?) [] := by
  refine runsRounds_gathering rfl (fun budget => ?_) fun budget left => ?_
  · rw [statementsToEnd, statement?, bind_assoc]
    refine bind_congr fun token => ?_
    cases token <;> simp
  · refine .peek ?_
    cases left with
    | nil => exact .none
    | cons t rest => exact takesItem_statement

/-- A block is read in rounds of a statement each, until its brace comes. -/
theorem runsRounds_statementsUntilBrace :
    RunsRounds statementsUntilBrace (gathering blockStatement?) [] := by
  refine runsRounds_gathering rfl (fun budget => ?_) fun budget left => ?_
  · rw [statementsUntilBrace, blockStatement?, bind_assoc]
    refine bind_congr fun token => ?_
    split
    · rfl
    · simp
    · simp
  · refine .peek ?_
    cases left with
    | nil => exact .of_advances (.fail _)
    | cons t rest =>
      obtain ⟨token, line⟩ := t
      cases token with
      | symbol s =>
        cases s with
        | rightBrace => exact .of_advances (.skip (.pure _))
        | _ => exact takesItem_statement
      | _ => exact takesItem_statement

theorem runsRounds_modifiers : RunsRounds modifiers (gathering signedModifier?) [] := by
  refine runsRounds_gathering rfl (fun budget => ?_) fun budget left => ?_
  · rw [modifiers, signedModifier?, bind_assoc]
    refine bind_congr fun found => ?_
    cases found <;> simp
  · refine .bind (.modifier (Nat.le_refl budget) (by omega)) fun found rest => ?_
    cases found with
    | none => exact .none
    | some m => exact .of_advances (.bind (.symbol _) fun _ _ => .pure _)

theorem runsRounds_moreOperands :
    RunsRounds moreOperands (gathering fun _ => commaItem? operand) [] := by
  refine runsRounds_gathering rfl (fun budget => ?_) fun budget left => ?_
  · rw [moreOperands, commaItem?, bind_assoc]
    refine bind_congr fun comma => ?_
    cases comma <;> simp
  · exact takesItem_comma (fun _ => .operand) left

theorem runsRounds_moreExpressions :
    RunsRounds moreExpressions (gathering fun budget => commaItem? (expression budget)) [] := by
  refine runsRounds_gathering rfl (fun budget => ?_) fun budget left => ?_
  · rw [moreExpressions, commaItem?, bind_assoc]
    refine bind_congr fun comma => ?_
    cases comma <;> simp [expression]
  · exact takesItem_comma (fun _ => .expression (Nat.le_refl budget) (by omega)) left

/-- Operators are read in rounds, each of which joins the next operand. -/
theorem runsRounds_operatorsAfter (least : Nat) (e : Expression) :
    RunsRounds (fun budget => operatorsAfter budget least e) (joined? least) e where
  eq_rounds budget := by
    induction budget generalizing e with
    | zero => rfl
    | succ budget ih =>
      rw [operatorsAfter, rounds, joined?, bind_assoc]
      refine bind_congr fun token => ?_
      cases token.bind BinaryOperator.ofToken? with
      | none => simp
      | some op =>
        by_cases h : op.precedence < least
        · simp [h]
        · simp [h, ih]
  moves budget e := by
    refine TakesItem.moves fun left => ?_
    refine .peek ?_
    cases left with
    | nil => exact .none
    | cons t rest =>
      generalize (ahead (t :: rest)).bind BinaryOperator.ofToken? = found
      cases found with
      | none => exact .none
      | some op =>
        dsimp only
        split
        · exact .none
        · exact .of_advances (.skip (.bind ((expressionsAdvance (Nat.le_refl budget)).above _ (by omega))
            fun _ _ => .pure _))

/-! ## Whole sources -/

def atEnd : Except Error Script → Except Halt (Script × List Located)
  | .ok s => .ok (s, [])
  | .error e => .error (.failed e)

/-- **Parsing ends with the tokens.** A budget that is linear in the number of tokens is never spent: the
answer is the same with all larger budgets, and a source that is accepted has been read to its end.
A statement, an operand and an expression that are read move the place in the tokens forward and not past
the end, and the budget they need is linear in the tokens left there. Each loop runs rounds that
go on only after a token has been taken. -/
theorem parsing_ends_with_the_tokens (tokens : List Located) :
    (∀ budget, budgetFor tokens.length ≤ budget →
      script budget tokens = atEnd (Script.ofTokens tokens)) ∧
    (∀ budget, Moves (statement budget) (fun _ => True) ∧ Moves (expression budget) fun _ => True) ∧
    (Moves operand fun _ => True) ∧
    (∀ budget place, 4 * (tokens.length - place) + 3 ≤ budget →
      statement budget (tokens.drop place) ≠ .error .exhausted ∧
      expression budget (tokens.drop place) ≠ .error .exhausted) ∧
    RunsRounds statementsToEnd (gathering statement?) [] ∧
    RunsRounds statementsUntilBrace (gathering blockStatement?) [] ∧
    RunsRounds modifiers (gathering signedModifier?) [] ∧
    RunsRounds moreOperands (gathering fun _ => commaItem? operand) [] ∧
    RunsRounds moreExpressions (gathering fun budget => commaItem? (expression budget)) [] ∧
    ∀ least e, RunsRounds (fun budget => operatorsAfter budget least e) (joined? least) e := by
  refine ⟨?_, ?_, ?_, ?_, runsRounds_statementsToEnd, runsRounds_statementsUntilBrace,
    runsRounds_modifiers, runsRounds_moreOperands, runsRounds_moreExpressions,
    runsRounds_operatorsAfter⟩
  · intro budget hbudget
    have hadvances : Advances tokens (script (budgetFor tokens.length)) (script budget) 0
        (tokens.length + 1) := .script hbudget (by rw [budgetFor]; omega)
    obtain ⟨hsame, hends⟩ := hadvances.same (Nat.lt_succ_self _)
    rw [← hsame, Script.ofTokens]
    cases hresult : script (budgetFor tokens.length) tokens with
    | ok found =>
      obtain ⟨s, rest⟩ := found
      rw [rest_script hresult]
      rfl
    | error halt =>
      cases halt with
      | failed e => rfl
      | exhausted => exact absurd hresult hends
  · intro budget
    exact ⟨moves_of_advances fun _ => (statementsAdvance (Nat.le_refl budget)).statement (by omega),
      moves_of_advances fun _ => .expression (Nat.le_refl budget) (by omega)⟩
  · exact moves_of_advances fun _ => .operand
  · intro budget place hbudget
    rw [← List.length_drop] at hbudget
    exact ⟨((statementsAdvance (Nat.le_refl budget)).statement (by omega)).ends,
      (Advances.expression (Nat.le_refl budget) (by omega)).ends⟩

end CircuitCalls.Qasm.Parser
