import CircuitCalls.Proofs.ExpressionTokens

/-!
# How operators group

The tokens of an expression hold parentheses in three places only: around a left operand that binds more
loosely than the operator, around a right operand that binds no more tightly than it, and around a binary
operand of an operator in front. The parser takes every expression back from these tokens, as long as
the token behind them cannot go on with it (`Parser.Ends`). Operators without any parentheses between
them therefore group by their precedence, those of one precedence from the left.
-/

namespace CircuitCalls.Qasm

/-- The next token is no operator between operands, and if the tokens end in a name, it does not make it
that of a function or of a register. -/
def Parser.Ends (tokens : List Token) (next : Option Token) : Prop :=
  next.bind BinaryOperator.ofToken? = none ∧ NameEnds tokens next

namespace Expression

def isBinary : Expression → Bool
  | .binary _ _ _ => true
  | _ => false

/-- The expression is written without negative literals, and without an operator between operands
outside of parentheses and brackets. -/
structure IsOperand (e : Expression) : Prop where
  unsigned : e.isUnsigned = true
  notBinary : e.isBinary = false

/-- An operand is never put in parentheses. -/
theorem IsOperand.enclosed {e : Expression} (h : e.IsOperand) {least : Nat} (hleast : least ≤ 12)
    (tokens : List Token) : e.enclosed least tokens = tokens := by
  have hstrength : e.strength = 12 := by
    cases e with
    | binary op left right => cases h.notBinary
    | _ => rfl
  rw [Expression.enclosed, hstrength, if_neg (Nat.not_lt.2 hleast)]

end Expression

/-- The grouping of two operators between three operands: the first one takes the operand in the middle,
unless the second one binds more tightly. -/
def grouped (first second : BinaryOperator) (a b c : Expression) : Expression :=
  if second.precedence ≤ first.precedence then .binary second (.binary first a b) c
  else .binary first a (.binary second b c)

section

variable {first second : BinaryOperator} {a b c : Expression}

theorem tokens_binary {op : BinaryOperator} (ha : a.IsOperand) (hb : b.IsOperand) :
    (Expression.binary op a b).tokens = a.tokens ++ .symbol op.symbol :: b.tokens := by
  rw [Expression.tokens, ha.enclosed (Nat.le_of_lt op.precedence_lt), hb.enclosed op.precedence_lt]

/-- No parentheses are needed for the grouping by precedence. -/
theorem tokens_grouped (ha : a.IsOperand) (hb : b.IsOperand) (hc : c.IsOperand) :
    (grouped first second a b c).tokens =
      a.tokens ++ .symbol first.symbol :: (b.tokens ++ .symbol second.symbol :: c.tokens) := by
  unfold grouped
  by_cases hle : second.precedence ≤ first.precedence
  · have hleft : (Expression.binary first a b).enclosed second.precedence
        (Expression.binary first a b).tokens = (Expression.binary first a b).tokens :=
      if_neg (Nat.not_lt.2 hle)
    rw [if_pos hle, Expression.tokens, hleft, hc.enclosed second.precedence_lt, tokens_binary ha hb,
      List.append_assoc, List.cons_append]
  · have hright : (Expression.binary second b c).enclosed (first.precedence + 1)
        (Expression.binary second b c).tokens = (Expression.binary second b c).tokens :=
      if_neg (Nat.not_lt.2 (Nat.lt_of_not_le hle))
    rw [if_neg hle, Expression.tokens, hright, ha.enclosed (Nat.le_of_lt first.precedence_lt),
      tokens_binary hb hc]

theorem isUnsigned_grouped (ha : a.IsOperand) (hb : b.IsOperand) (hc : c.IsOperand) :
    (grouped first second a b c).isUnsigned = true := by
  unfold grouped
  split <;> simp [Expression.isUnsigned, ha.unsigned, hb.unsigned, hc.unsigned]

end

/-- The tokens are read as the expression, and nothing behind them is taken, wherever the next token does
not go on with them. Four steps for each token are enough. -/
def ReadAs (tokens : List Token) (e : Expression) : Prop :=
  ∀ budget, 4 * tokens.length ≤ budget →
    Parser.Reads (Parser.expression budget) tokens e (Parser.Ends tokens)

theorem readAs_tokens {e : Expression} (h : e.isUnsigned = true) : ReadAs e.tokens e := by
  intro budget hbudget
  have hreads := (Parser.climbs_tokens e h).2.reads e.tokens_ne_nil hbudget (Nat.zero_le _)
  refine hreads.weaken ?_
  rintro next ⟨hoperator, hname⟩
  refine ⟨hname, fun op hop => ?_⟩
  rw [hoperator] at hop
  cases hop

/-- Reading takes every expression without negative literals back from its tokens and leaves exactly what
follows them. In particular two operators between three operands group by precedence and else from the
left, and an operator in front of an operand binds more tightly than any that follows. -/
theorem operators_group_by_precedence :
    (∀ e : Expression, e.isUnsigned = true → ReadAs e.tokens e) ∧
    (∀ (first second : BinaryOperator) (a b c : Expression),
      a.IsOperand → b.IsOperand → c.IsOperand →
      ReadAs (a.tokens ++ .symbol first.symbol :: (b.tokens ++ .symbol second.symbol :: c.tokens))
        (grouped first second a b c)) ∧
    ∀ (before : UnaryOperator) (op : BinaryOperator) (a b : Expression), a.IsOperand → b.IsOperand →
      ReadAs (.symbol before.symbol :: (a.tokens ++ .symbol op.symbol :: b.tokens))
        (.binary op (.unary before a) b) := by
  refine ⟨fun e h => readAs_tokens h, ?_, ?_⟩
  · intro first second a b c ha hb hc
    rw [← tokens_grouped ha hb hc]
    exact readAs_tokens (isUnsigned_grouped ha hb hc)
  · intro before op a b ha hb
    have hbefore : (Expression.unary before a).IsOperand := ⟨ha.unsigned, rfl⟩
    have htokens : (Expression.binary op (.unary before a) b).tokens =
        .symbol before.symbol :: (a.tokens ++ .symbol op.symbol :: b.tokens) := by
      rw [tokens_binary hbefore hb, Expression.tokens, ha.enclosed (Nat.le_refl _), List.cons_append]
    rw [← htokens]
    exact readAs_tokens (by simp [Expression.isUnsigned, ha.unsigned, hb.unsigned])

/-- `-(a + 2) ** b[0] - (x - f(y)) * !z < 1` -/
def mixedOperators : Expression :=
  .binary .lt
    (.binary .sub
      (.binary .pow (.unary .neg (.binary .add (.name "a") (.int 2))) (.index "b" (.int 0)))
      (.binary .mul (.binary .sub (.name "x") (.call "f" [.name "y"])) (.unary .not (.name "z"))))
    (.int 1)

/-- It is read up to a semicolon; and `x ** y ** z` and `-x ** y` group from the left. -/
theorem operators_group_by_precedence_mixedOperators :
    (mixedOperators.isUnsigned = true ∧
      Parser.expression 120 (mixedOperators.tokens.map (⟨·, 1⟩) ++ [⟨.symbol .semicolon, 2⟩]) =
        .ok (mixedOperators, [⟨.symbol .semicolon, 2⟩])) ∧
    ReadAs [.identifier "x", .symbol .power, .identifier "y", .symbol .power, .identifier "z"]
      (.binary .pow (.binary .pow (.name "x") (.name "y")) (.name "z")) ∧
    ReadAs [.symbol .minus, .identifier "x", .symbol .power, .identifier "y"]
      (.binary .pow (.unary .neg (.name "x")) (.name "y")) := by
  obtain ⟨hread, hgroup, hbefore⟩ := operators_group_by_precedence
  have hunsigned : mixedOperators.isUnsigned = true := by decide
  have hends : Parser.Ends mixedOperators.tokens (some (.symbol .semicolon)) :=
    ⟨rfl, fun _ _ => ⟨by decide, by decide⟩⟩
  refine ⟨⟨hunsigned, ?_⟩, ?_, ?_⟩
  · exact hread mixedOperators hunsigned 120 (by decide) _ [⟨.symbol .semicolon, 2⟩]
      (List.map_map.trans (List.map_id _)) hends
  · exact hgroup .pow .pow (.name "x") (.name "y") (.name "z") ⟨rfl, rfl⟩ ⟨rfl, rfl⟩ ⟨rfl, rfl⟩
  · exact hbefore .neg .pow (.name "x") (.name "y") ⟨rfl, rfl⟩ ⟨rfl, rfl⟩

end CircuitCalls.Qasm
