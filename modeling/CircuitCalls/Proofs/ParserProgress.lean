import CircuitCalls.Proofs.Reading
import CircuitCalls.Qasm.Parser.Statement

/-!
# Parsers go forward and end

A parser that succeeds has taken tokens from the front of those that were left, and it never spends a
budget that is linear in their number. `Advances` says both, of the same parser with two budgets at
once, so that it also tells that a larger budget changes nothing. There is one rule for each way to put
parsers together; the budgets are followed by induction through expressions (`expressionsAdvance`) and
statements (`statementsAdvance`).
-/

namespace CircuitCalls.Qasm.Parser

variable {α β : Type}

theorem exists_of_bind_eq_ok {p : Parser α} {k : α → Parser β} {left rest : List Located} {b : β}
    (h : (p >>= k) left = .ok (b, rest)) :
    ∃ a middle, p left = .ok (a, middle) ∧ k a middle = .ok (b, rest) := by
  obtain ⟨⟨a, middle⟩, ha, hb⟩ := bind_eq_ok_iff.1 (bind_apply p k left ▸ h)
  exact ⟨a, middle, ha, hb⟩

/-- A parser that succeeds on `left` takes at least `least` tokens from its front. If fewer than `limit`
tokens are left, then `p` does not spend its budget, and `q` does the same as `p`. -/
structure Advances (left : List Located) (p q : Parser α) (least limit : Nat) : Prop where
  takes : ∀ {a rest}, p left = .ok (a, rest) → ∃ taken, least ≤ taken.length ∧ left = taken ++ rest
  same : left.length < limit → p left = q left ∧ p left ≠ .error .exhausted

namespace Advances

variable {left : List Located} {p q : Parser α} {k k' : α → Parser β} {least limit : Nat}

theorem mono {fewer shorter : Nat} (h : Advances left p q least limit) (hleast : fewer ≤ least)
    (hlimit : shorter ≤ limit) : Advances left p q fewer shorter where
  takes := by
    intro a rest ha
    obtain ⟨taken, hlength, htaken⟩ := h.takes ha
    exact ⟨taken, by omega, htaken⟩
  same hlength := h.same (by omega)

theorem ends (h : Advances left p q least (left.length + 1)) : p left ≠ .error .exhausted :=
  (h.same (Nat.lt_succ_self _)).2

/-- Only what the parsers do on `left` matters. -/
theorem congr {p' q' : Parser α} (h : Advances left p q least limit) (hp : p' left = p left)
    (hq : q' left = q left) : Advances left p' q' least limit where
  takes ha := h.takes (hp.symm.trans ha)
  same hlength := by
    rw [hp, hq]
    exact h.same hlength

theorem pure (a : α) : Advances left (Pure.pure a) (Pure.pure a) 0 limit where
  takes := by
    intro b rest hb
    cases hb
    exact ⟨[], Nat.zero_le _, rfl⟩
  same _ := ⟨rfl, by rintro ⟨⟩⟩

theorem fail (e : Error) : Advances left (Parser.fail e : Parser α) (Parser.fail e) least limit where
  takes := by rintro _ _ ⟨⟩
  same _ := ⟨rfl, by rintro ⟨⟩⟩

/-- A budget of zero is enough where no input is short enough. -/
theorem exhausted : Advances left (Parser.exhausted : Parser α) q least 0 where
  takes := by rintro _ _ ⟨⟩
  same h := absurd h (Nat.not_lt_zero _)

/-- What the first parser takes is no longer left for the second. -/
theorem bind {m : Nat} (hp : Advances left p q m limit)
    (hk : ∀ a rest, Advances rest (k a) (k' a) (least - m) (limit - m)) :
    Advances left (p >>= k) (q >>= k') least limit where
  takes := by
    intro b rest hb
    obtain ⟨a, middle, ha, hb⟩ := exists_of_bind_eq_ok hb
    obtain ⟨first, hfirst, hmiddle⟩ := hp.takes ha
    obtain ⟨second, hsecond, hrest⟩ := (hk a middle).takes hb
    refine ⟨first ++ second, ?_, by rw [hmiddle, hrest, List.append_assoc]⟩
    rw [List.length_append]
    omega
  same := by
    intro hlength
    obtain ⟨hsame, hends⟩ := hp.same hlength
    rw [bind_apply, bind_apply, ← hsame]
    cases hresult : p left with
    | error halt =>
      rw [hresult] at hends
      rw [error_bind, error_bind]
      exact ⟨rfl, fun h => hends (by cases h; rfl)⟩
    | ok found =>
      obtain ⟨a, middle⟩ := found
      obtain ⟨taken, htaken, rfl⟩ := hp.takes hresult
      rw [List.length_append] at hlength
      exact (hk a middle).same (by omega)

theorem ite {c : Prop} [Decidable c] {p' q' : Parser α} (hp : c → Advances left p q least limit)
    (hp' : ¬ c → Advances left p' q' least limit) :
    Advances left (if c then p else p') (if c then q else q') least limit := by
  by_cases h : c
  · rw [if_pos h, if_pos h]
    exact hp h
  · rw [if_neg h, if_neg h]
    exact hp' h

/-! ## Single tokens -/

theorem peek {k k' : Option Token → Parser β}
    (h : Advances left (k (ahead left)) (k' (ahead left)) least limit) :
    Advances left (peek? >>= k) (peek? >>= k') least limit := h.congr rfl rfl

theorem skip {t : Located} {k k' : Unit → Parser β}
    (h : Advances left (k ()) (k' ()) (least - 1) (limit - 1)) :
    Advances (t :: left) (Parser.skip >>= k) (Parser.skip >>= k') least limit where
  takes := by
    intro b rest hb
    obtain ⟨taken, htaken, rfl⟩ := h.takes (hb : k () left = .ok (b, rest))
    exact ⟨t :: taken, by rw [List.length_cons]; omega, rfl⟩
  same hlength := h.same (by rw [List.length_cons] at hlength; omega)

theorem next {expected : String} {k k' : Located → Parser β}
    (h : ∀ t rest, Advances rest (k t) (k' t) (least - 1) (limit - 1)) :
    Advances left (Parser.next expected >>= k) (Parser.next expected >>= k') least limit := by
  cases left with
  | nil => exact (fail (.unexpectedEnd expected)).congr rfl rfl
  | cons t rest =>
    have hskip : Advances (t :: rest) (Parser.skip >>= fun _ => k t) (Parser.skip >>= fun _ => k' t)
        least limit := skip (h t rest)
    exact hskip.congr rfl rfl

theorem check {t : Token} {k k' : Bool → Parser β}
    (h : ∀ found, Advances left (k found) (k' found) least limit) :
    Advances left (Parser.check t >>= k) (Parser.check t >>= k') least limit :=
  (h (decide (ahead left = some t))).congr rfl rfl

/-- Where the token is taken, one token less has to follow. -/
theorem consume {t : Token} {k k' : Bool → Parser β}
    (htaken : ∀ rest, Advances rest (k true) (k' true) (least - 1) (limit - 1))
    (hleft : Advances left (k false) (k' false) least limit) :
    Advances left (Parser.consume t >>= k) (Parser.consume t >>= k') least limit := by
  have hconsume (f : Bool → Parser β) : (Parser.consume t >>= f) left =
      (if ahead left = some t then Parser.skip >>= fun _ => f true else f false) left := by
    rw [bind_apply, consume_eq]
    split <;> rfl
  have hbranches : Advances left
      (if ahead left = some t then Parser.skip >>= fun _ => k true else k false)
      (if ahead left = some t then Parser.skip >>= fun _ => k' true else k' false) least limit := by
    refine ite (fun h => ?_) fun _ => hleft
    cases left with
    | nil => cases h
    | cons u rest => exact skip (htaken rest)
  exact hbranches.congr (hconsume k) (hconsume k')

theorem expect (t : Token) : Advances left (Parser.expect t) (Parser.expect t) 1 limit :=
  next fun _ _ => ite (fun _ => .pure ()) fun _ => .fail _

theorem symbol (s : Symbol) : Advances left (Parser.symbol s) (Parser.symbol s) 1 limit :=
  expect (.symbol s)

theorem identifier : Advances left Parser.identifier Parser.identifier 1 limit := by
  refine next fun t rest => ?_
  split
  · exact .pure _
  · exact .fail _

theorem size : Advances left Parser.size Parser.size 1 limit := by
  refine next fun t rest => ?_
  split
  · exact ite (fun _ => .pure _) fun _ => .fail _
  · exact .fail _

theorem bracketedSize : Advances left bracketedSize? bracketedSize? 0 limit :=
  consume (fun _ => bind size fun _ _ => bind (symbol _) fun _ _ => .pure _) (.pure _)

end Advances

/-! ## Expressions -/

/-- The parsers of expressions advance with `budget`, and do the same with a `larger` one. How many tokens
a budget is enough for differs a little: a list of expressions is read by an expression, that by its first
operand, and each step costs one. -/
structure ExpressionsAdvance (budget larger : Nat) : Prop where
  above : ∀ {left limit} least, 4 * limit ≤ budget + 1 →
    Advances left (expressionAbove budget least) (expressionAbove larger least) 1 limit
  operators : ∀ {left limit} least e, 4 * limit ≤ budget + 3 →
    Advances left (operatorsAfter budget least e) (operatorsAfter larger least e) 0 limit
  unary : ∀ {left limit}, 4 * limit ≤ budget + 2 →
    Advances left (Parser.unary budget) (Parser.unary larger) 1 limit
  primary : ∀ {left limit}, 4 * limit ≤ budget + 3 →
    Advances left (Parser.primary budget) (Parser.primary larger) 1 limit
  list : ∀ {left limit} close, 4 * limit ≤ budget →
    Advances left (expressionsUntil budget close) (expressionsUntil larger close) 0 limit
  more : ∀ {left limit}, 4 * limit ≤ budget + 3 →
    Advances left (moreExpressions budget) (moreExpressions larger) 0 limit

namespace ExpressionsAdvance

variable {budget larger limit : Nat} {left : List Located}

/-- Without a budget there is nothing to read. -/
theorem zero (larger : Nat) : ExpressionsAdvance 0 larger := by
  have none_left {limit : Nat} (h : 4 * limit ≤ 3) : limit = 0 := by omega
  constructor
  · intro left limit least h
    rw [none_left (by omega : 4 * limit ≤ 3)]
    exact .exhausted
  · intro left limit least e h
    rw [none_left h]
    exact .exhausted
  · intro left limit h
    rw [none_left (by omega : 4 * limit ≤ 3)]
    exact .exhausted
  · intro left limit h
    rw [none_left h]
    exact .exhausted
  · intro left limit close h
    rw [none_left (by omega : 4 * limit ≤ 3)]
    exact .exhausted
  · intro left limit h
    rw [none_left h]
    exact .exhausted

theorem above_succ (h : ExpressionsAdvance budget larger) (least : Nat)
    (hlimit : 4 * limit ≤ budget + 2) :
    Advances left (expressionAbove (budget + 1) least) (expressionAbove (larger + 1) least) 1 limit := by
  rw [expressionAbove, expressionAbove]
  exact .bind (h.unary hlimit) fun e _ => h.operators least e (by omega)

/-- An operator is a token of its own, which pays for the step. -/
theorem operators_succ (h : ExpressionsAdvance budget larger) (least : Nat) (e : Expression)
    (hlimit : 4 * limit ≤ budget + 4) :
    Advances left (operatorsAfter (budget + 1) least e) (operatorsAfter (larger + 1) least e) 0 limit := by
  rw [operatorsAfter, operatorsAfter]
  refine .peek ?_
  cases left with
  | nil => exact .pure e
  | cons t rest =>
    generalize (ahead (t :: rest)).bind BinaryOperator.ofToken? = found
    cases found with
    | none => exact .pure e
    | some op =>
      refine .ite (fun _ => .pure e) fun _ => .skip (.bind (h.above _ (by omega)) fun e' _ => ?_)
      exact h.operators least _ (by omega)

/-- A sign takes a token before the operand, and without one the operand takes it. -/
theorem unary_succ (h : ExpressionsAdvance budget larger) (hlimit : 4 * limit ≤ budget + 3) :
    Advances left (Parser.unary (budget + 1)) (Parser.unary (larger + 1)) 1 limit := by
  rw [Parser.unary, Parser.unary]
  refine .peek ?_
  cases left with
  | nil => exact h.primary hlimit
  | cons t rest =>
    obtain ⟨token, line⟩ := t
    have hsign (op : UnaryOperator) : Advances (⟨token, line⟩ :: rest)
        (skip >>= fun _ => Parser.unary budget >>= fun e => pure (Expression.unary op e))
        (skip >>= fun _ => Parser.unary larger >>= fun e => pure (Expression.unary op e)) 1 limit :=
      .skip (.bind (h.unary (by omega)) fun _ _ => .pure _)
    cases token with
    | symbol s =>
      cases s with
      | minus => exact hsign .neg
      | not => exact hsign .not
      | _ => exact h.primary hlimit
    | _ => exact h.primary hlimit

/-- Every form of an operand starts with a token that is taken. -/
theorem primary_succ (h : ExpressionsAdvance budget larger) (hlimit : 4 * limit ≤ budget + 4) :
    Advances left (Parser.primary (budget + 1)) (Parser.primary (larger + 1)) 1 limit := by
  change Advances left (next "expression" >>= _) (next "expression" >>= _) 1 limit
  refine .next fun t rest => ?_
  obtain ⟨token, line⟩ := t
  cases token with
  | int value => exact .ite (fun _ => .pure _) fun _ => .fail _
  | float value => exact .pure _
  | keyword k =>
    cases k with
    | pi => exact .pure _
    | tau => exact .pure _
    | euler => exact .pure _
    | trueKey => exact .pure _
    | falseKey => exact .pure _
    | _ => exact .fail _
  | identifier name =>
    refine .peek ?_
    cases rest with
    | nil => exact .pure _
    | cons t' rest =>
      obtain ⟨token', line'⟩ := t'
      cases token' with
      | symbol s =>
        cases s with
        | leftParen =>
          exact .skip (.bind (h.list .rightParen (by omega)) fun _ _ =>
            .bind (.symbol _) fun _ _ => .pure _)
        | leftBracket =>
          exact .skip (.bind (h.above 0 (by omega)) fun _ _ => .bind (.symbol _) fun _ _ => .pure _)
        | _ => exact .pure _
      | _ => exact .pure _
  | symbol s =>
    cases s with
    | leftParen => exact .bind (h.above 0 (by omega)) fun _ _ => .bind (.symbol _) fun _ _ => .pure _
    | _ => exact .fail _
  | string text => exact .fail _

theorem list_succ (h : ExpressionsAdvance budget larger) (close : Symbol)
    (hlimit : 4 * limit ≤ budget + 1) :
    Advances left (expressionsUntil (budget + 1) close) (expressionsUntil (larger + 1) close) 0 limit := by
  rw [expressionsUntil, expressionsUntil]
  refine .check fun closed => .ite (fun _ => .pure _) fun _ => ?_
  exact .bind (h.above 0 hlimit) fun _ _ => .bind (h.more (by omega)) fun _ _ => .pure _

theorem more_succ (h : ExpressionsAdvance budget larger) (hlimit : 4 * limit ≤ budget + 4) :
    Advances left (moreExpressions (budget + 1)) (moreExpressions (larger + 1)) 0 limit := by
  rw [moreExpressions, moreExpressions]
  refine .consume (fun rest => ?_) (.pure [])
  exact .bind (h.above 0 (by omega)) fun _ _ => .bind (h.more (by omega)) fun _ _ => .pure _

end ExpressionsAdvance

theorem expressionsAdvance {budget larger : Nat} (h : budget ≤ larger) :
    ExpressionsAdvance budget larger := by
  induction budget generalizing larger with
  | zero => exact .zero larger
  | succ budget ih =>
    obtain ⟨larger, rfl⟩ : ∃ b, larger = b + 1 := ⟨larger - 1, by omega⟩
    have hless := ih (by omega : budget ≤ larger)
    exact ⟨hless.above_succ, hless.operators_succ, hless.unary_succ, hless.primary_succ, hless.list_succ,
      hless.more_succ⟩

theorem Advances.expression {budget larger limit : Nat} {left : List Located} (h : budget ≤ larger)
    (hlimit : 4 * limit ≤ budget + 1) :
    Advances left (Parser.expression budget) (Parser.expression larger) 1 limit :=
  (expressionsAdvance h).above 0 hlimit

/-! ## Operands -/

namespace Advances

variable {left : List Located} {budget larger limit : Nat}

theorem selection : Advances left Parser.selection Parser.selection 0 limit := by
  refine consume (fun _ => bind size fun _ _ => ?_) (.pure _)
  refine consume (fun _ => bind size fun _ _ => ?_) ?_
  · exact bind (symbol _) fun _ _ => .pure _
  · exact bind (symbol _) fun _ _ => .pure _

theorem operand : Advances left Parser.operand Parser.operand 1 limit :=
  bind identifier fun _ _ => bind selection fun _ _ => .pure _

theorem moreOperands (h : budget ≤ larger) (hlimit : limit ≤ budget) :
    Advances left (Parser.moreOperands budget) (Parser.moreOperands larger) 0 limit := by
  induction budget generalizing larger limit left with
  | zero =>
    obtain rfl : limit = 0 := by omega
    exact .exhausted
  | succ budget ih =>
    obtain ⟨larger, rfl⟩ : ∃ b, larger = b + 1 := ⟨larger - 1, by omega⟩
    rw [Parser.moreOperands, Parser.moreOperands]
    refine consume (fun _ => bind operand fun _ _ => ?_) (.pure [])
    exact bind (ih (by omega) (by omega)) fun _ _ => .pure _

theorem operands (h : budget ≤ larger) (hlimit : limit ≤ budget + 1) :
    Advances left (Parser.operands budget) (Parser.operands larger) 1 limit :=
  bind operand fun _ _ => bind (moreOperands h (by omega)) fun _ _ => .pure _

/-! ## Statements without a body -/

theorem includeFile : Advances left Parser.includeFile Parser.includeFile 0 limit := by
  refine next fun t rest => ?_
  split
  · exact bind (symbol _) fun _ _ => .pure _
  · exact .fail _

theorem declaration (kind : BitKind) :
    Advances left (Parser.declaration kind) (Parser.declaration kind) 0 limit :=
  bind bracketedSize fun _ _ => bind identifier fun _ _ => bind (symbol _) fun _ _ => .pure _

theorem namedDeclaration (kind : BitKind) :
    Advances left (Parser.namedDeclaration kind) (Parser.namedDeclaration kind) 0 limit :=
  bind identifier fun _ _ => bind bracketedSize fun _ _ => bind (symbol _) fun _ _ => .pure _

theorem measure (h : budget ≤ larger) (hlimit : limit ≤ budget + 1) :
    Advances left (Parser.measure budget) (Parser.measure larger) 0 limit := by
  refine bind (operands h hlimit) fun _ _ => consume (fun _ => ?_) ?_
  · exact bind (operands h (by omega)) fun _ _ => bind (symbol _) fun _ _ => .pure _
  · exact bind (.pure _) fun _ _ => bind (symbol _) fun _ _ => .pure _

theorem measureInto (h : budget ≤ larger) (hlimit : limit ≤ budget + 1) (register : String) :
    Advances left (Parser.measureInto budget register) (Parser.measureInto larger register) 0 limit :=
  bind selection fun _ _ => bind (symbol _) fun _ _ => bind (expect _) fun _ _ =>
    bind (operands h (by omega)) fun _ _ => bind (symbol _) fun _ _ => .pure _

theorem reset (h : budget ≤ larger) (hlimit : limit ≤ budget + 1) :
    Advances left (Parser.reset budget) (Parser.reset larger) 0 limit :=
  bind (operands h hlimit) fun _ _ => bind (symbol _) fun _ _ => .pure _

theorem barrier (h : budget ≤ larger) (hlimit : limit ≤ budget + 1) :
    Advances left (Parser.barrier budget) (Parser.barrier larger) 0 limit := by
  refine check fun bare => ?_
  cases bare with
  | true => exact bind (.pure _) fun _ _ => bind (symbol _) fun _ _ => .pure _
  | false => exact bind (operands h hlimit) fun _ _ => bind (symbol _) fun _ _ => .pure _

theorem skipUnit : Advances left Parser.skipUnit Parser.skipUnit 0 limit := by
  refine peek ?_
  cases left with
  | nil => exact .pure _
  | cons t rest =>
    obtain ⟨token, line⟩ := t
    cases token with
    | identifier name => exact (skip (.pure ())).congr rfl rfl
    | _ => exact .pure _

theorem delay (h : budget ≤ larger) (hlimit : 4 * limit ≤ budget + 1) :
    Advances left (Parser.delay budget) (Parser.delay larger) 0 limit :=
  bind (symbol _) fun _ _ => bind (expression h (by omega)) fun _ _ => bind skipUnit fun _ _ =>
    bind (symbol _) fun _ _ => bind (operands h (by omega)) fun _ _ => bind (symbol _) fun _ _ => .pure _

/-! ## Gate calls -/

theorem controlCount : Advances left Parser.controlCount Parser.controlCount 0 limit :=
  consume (fun _ => bind size fun _ _ => bind (symbol _) fun _ _ => .pure _) (.pure _)

theorem modifier (h : budget ≤ larger) (hlimit : 4 * limit ≤ budget + 4) :
    Advances left (modifier? budget) (modifier? larger) 0 limit := by
  refine peek ?_
  cases left with
  | nil => exact .pure _
  | cons t rest =>
    obtain ⟨token, line⟩ := t
    cases token with
    | keyword k =>
      cases k with
      | ctrl => exact skip (bind controlCount fun _ _ => .pure _)
      | negctrl => exact skip (bind controlCount fun _ _ => .pure _)
      | inv => exact skip (.pure _)
      | pow =>
        exact skip (bind (symbol _) fun _ _ => bind (expression h (by omega)) fun _ _ =>
          bind (symbol _) fun _ _ => .pure _)
      | _ => exact .pure _
    | _ => exact .pure _

theorem modifiers (h : budget ≤ larger) (hlimit : 4 * limit ≤ budget + 3) :
    Advances left (Parser.modifiers budget) (Parser.modifiers larger) 0 limit := by
  induction budget generalizing larger limit left with
  | zero =>
    obtain rfl : limit = 0 := by omega
    exact .exhausted
  | succ budget ih =>
    obtain ⟨larger, rfl⟩ : ∃ b, larger = b + 1 := ⟨larger - 1, by omega⟩
    rw [Parser.modifiers, Parser.modifiers]
    refine bind (modifier (by omega) hlimit) fun found rest => ?_
    cases found with
    | none => exact .pure _
    | some m =>
      exact bind (symbol _) fun _ _ => bind (ih (by omega) (by omega)) fun _ _ => .pure _

theorem gateName : Advances left Parser.gateName Parser.gateName 1 limit := by
  refine next fun t rest => ?_
  split
  · exact .pure _
  · exact .pure _
  · exact .pure _
  · exact .fail _

theorem gateParameters (h : budget ≤ larger) (hlimit : 4 * limit ≤ budget + 4) :
    Advances left (Parser.gateParameters budget) (Parser.gateParameters larger) 0 limit :=
  consume (fun _ => bind ((expressionsAdvance h).list _ (by omega)) fun _ _ =>
    bind (symbol _) fun _ _ => .pure _) (.pure _)

theorem gateCall (h : budget ≤ larger) (hlimit : 4 * limit ≤ budget + 4) (modifiers : List Modifier)
    (name : String) :
    Advances left (Parser.gateCall budget modifiers name) (Parser.gateCall larger modifiers name) 0
      limit :=
  bind (gateParameters h hlimit) fun _ _ => bind (operands h (by omega)) fun _ _ =>
    bind (symbol _) fun _ _ => .pure _

theorem modifiedCall (h : budget ≤ larger) (hlimit : 4 * limit ≤ budget + 3) :
    Advances left (Parser.modifiedCall budget) (Parser.modifiedCall larger) 1 limit :=
  bind (modifiers h hlimit) fun _ _ => bind gateName fun _ _ => gateCall h (by omega) _ _

theorem namedStatement (h : budget ≤ larger) (hlimit : 4 * limit ≤ budget + 4) (name : String) :
    Advances left (Parser.namedStatement budget name) (Parser.namedStatement larger name) 0 limit := by
  refine peek ?_
  cases left with
  | nil => exact gateCall h hlimit _ _
  | cons t rest =>
    obtain ⟨token, line⟩ := t
    cases token with
    | symbol s =>
      cases s with
      | assign => exact measureInto h (by omega) name
      | leftBracket => exact measureInto h (by omega) name
      | _ => exact gateCall h hlimit _ _
    | _ => exact gateCall h hlimit _ _

/-! ## Conditionals and loops -/

theorem condition (h : budget ≤ larger) (hlimit : 4 * limit ≤ budget + 4) :
    Advances left (Parser.condition budget) (Parser.condition larger) 0 limit :=
  bind (symbol _) fun _ _ => bind (expression h (by omega)) fun _ _ => bind (symbol _) fun _ _ => .pure _

theorem skipLoopType : Advances left Parser.skipLoopType Parser.skipLoopType 0 limit := by
  refine peek ?_
  have hsecond (k : Option Token → Parser Unit) (h : ∀ second, Advances left (k second) (k second) 0 limit) :
      Advances left (peekSecond? >>= k) (peekSecond? >>= k) 0 limit :=
    (h (ahead left.tail)).congr rfl rfl
  refine hsecond _ fun second => ?_
  refine ite (fun htyped => ?_) fun _ => .pure ()
  cases left with
  | nil => cases htyped
  | cons t rest => exact skip (bind bracketedSize fun _ _ => .pure ())

theorem range (h : budget ≤ larger) (hlimit : 4 * limit ≤ budget + 1) :
    Advances left (Parser.range budget) (Parser.range larger) 0 limit := by
  refine bind (expression h hlimit) fun _ _ => bind (symbol _) fun _ _ =>
    bind (expression h (by omega)) fun _ _ => consume (fun _ => ?_) ?_
  · exact bind (expression h (by omega)) fun _ _ => bind (symbol _) fun _ _ => .pure _
  · exact bind (symbol _) fun _ _ => .pure _

theorem loopDomain (h : budget ≤ larger) (hlimit : 4 * limit ≤ budget + 4) :
    Advances left (Parser.loopDomain budget) (Parser.loopDomain larger) 0 limit := by
  refine next fun t rest => ?_
  obtain ⟨token, line⟩ := t
  cases token with
  | symbol s =>
    cases s with
    | leftBracket => exact range h (by omega)
    | leftBrace =>
      exact bind ((expressionsAdvance h).list _ (by omega)) fun _ _ => bind (symbol _) fun _ _ => .pure _
    | _ => exact .fail _
  | _ => exact .fail _

end Advances

/-- The parsers of statements advance with `budget`, and do the same with a `larger` one. -/
structure StatementsAdvance (budget larger : Nat) : Prop where
  statement : ∀ {left limit}, 4 * limit ≤ budget + 2 →
    Advances left (Parser.statement budget) (Parser.statement larger) 1 limit
  body : ∀ {left limit}, 4 * limit ≤ budget + 1 →
    Advances left (Parser.body budget) (Parser.body larger) 1 limit
  block : ∀ {left limit}, 4 * limit ≤ budget + 1 →
    Advances left (statementsUntilBrace budget) (statementsUntilBrace larger) 0 limit

namespace StatementsAdvance

variable {budget larger limit : Nat} {left : List Located}

theorem zero (larger : Nat) : StatementsAdvance 0 larger := by
  have none_left {limit : Nat} (h : 4 * limit ≤ 2) : limit = 0 := by omega
  constructor
  · intro left limit h
    rw [none_left h]
    exact .exhausted
  · intro left limit h
    rw [none_left (by omega : 4 * limit ≤ 2)]
    exact .exhausted
  · intro left limit h
    rw [none_left (by omega : 4 * limit ≤ 2)]
    exact .exhausted

/-- Each keyword that a statement can start with is taken before anything inside it is read. -/
theorem statement_succ (h : StatementsAdvance budget larger) (hle : budget ≤ larger)
    (hlimit : 4 * limit ≤ budget + 3) :
    Advances left (Parser.statement (budget + 1)) (Parser.statement (larger + 1)) 1 limit := by
  rw [Parser.statement, Parser.statement]
  refine .peek ?_
  cases left with
  | nil => exact .next fun _ _ => .fail _
  | cons t rest =>
    obtain ⟨token, line⟩ := t
    cases token with
    | keyword k =>
      cases k with
      | includeFile => exact .skip .includeFile
      | qubit => exact .skip (.declaration _)
      | bit => exact .skip (.declaration _)
      | qreg => exact .skip (.namedDeclaration _)
      | creg => exact .skip (.namedDeclaration _)
      | measure => exact .skip (.measure hle (by omega))
      | reset => exact .skip (.reset hle (by omega))
      | barrier => exact .skip (.barrier hle (by omega))
      | delay => exact .skip (.delay hle (by omega))
      | ifKey =>
        exact .skip (.bind (.condition hle (by omega)) fun _ _ => .bind (h.body (by omega)) fun _ _ =>
          .consume (fun _ => .bind (h.body (by omega)) fun _ _ => .pure _) (.pure _))
      | whileKey =>
        exact .skip (.bind (.condition hle (by omega)) fun _ _ => .bind (h.body (by omega)) fun _ _ =>
          .pure _)
      | forKey =>
        exact .skip (.bind .skipLoopType fun _ _ => .bind .identifier fun _ _ => .bind (.expect _)
          fun _ _ => .bind (.loopDomain hle (by omega)) fun _ _ => .bind (h.body (by omega)) fun _ _ =>
            .pure _)
      | ctrl => exact .modifiedCall hle hlimit
      | negctrl => exact .modifiedCall hle hlimit
      | inv => exact .modifiedCall hle hlimit
      | pow => exact .modifiedCall hle hlimit
      | gateU => exact .skip (.gateCall hle (by omega) _ _)
      | gateCX => exact .skip (.gateCall hle (by omega) _ _)
      | _ => exact .next fun _ _ => .fail _
    | identifier name => exact .skip (.namedStatement hle (by omega) name)
    | _ => exact .next fun _ _ => .fail _

theorem body_succ (h : StatementsAdvance budget larger) (hlimit : 4 * limit ≤ budget + 2) :
    Advances left (Parser.body (budget + 1)) (Parser.body (larger + 1)) 1 limit := by
  rw [Parser.body, Parser.body]
  exact .consume (fun _ => h.block (by omega)) (.bind (h.statement hlimit) fun _ _ => .pure _)

/-- A statement of a block takes a token, so that less is left for those behind it. -/
theorem block_succ (h : StatementsAdvance budget larger) (hlimit : 4 * limit ≤ budget + 2) :
    Advances left (statementsUntilBrace (budget + 1)) (statementsUntilBrace (larger + 1)) 0 limit := by
  rw [statementsUntilBrace, statementsUntilBrace]
  refine .peek ?_
  cases left with
  | nil => exact .fail _
  | cons t rest =>
    obtain ⟨token, line⟩ := t
    have hmore : Advances (⟨token, line⟩ :: rest)
        (Parser.statement budget >>= fun first =>
          statementsUntilBrace budget >>= fun more => pure (first :: more))
        (Parser.statement larger >>= fun first =>
          statementsUntilBrace larger >>= fun more => pure (first :: more)) 0 limit :=
      .bind (h.statement hlimit) fun _ _ => .bind (h.block (by omega)) fun _ _ => .pure _
    cases token with
    | symbol s =>
      cases s with
      | rightBrace => exact .skip (.pure _)
      | _ => exact hmore
    | _ => exact hmore

end StatementsAdvance

theorem statementsAdvance {budget larger : Nat} (h : budget ≤ larger) :
    StatementsAdvance budget larger := by
  induction budget generalizing larger with
  | zero => exact .zero larger
  | succ budget ih =>
    obtain ⟨larger, rfl⟩ : ∃ b, larger = b + 1 := ⟨larger - 1, by omega⟩
    have hle : budget ≤ larger := by omega
    exact ⟨(ih hle).statement_succ hle, (ih hle).body_succ, (ih hle).block_succ⟩

/-! ## Sources -/

namespace Advances

variable {left : List Located} {budget larger limit : Nat}

/-- A statement takes a token, so that the budget lasts to the end. -/
theorem statementsToEnd (h : budget ≤ larger) (hlimit : 4 * limit ≤ budget + 1) :
    Advances left (Parser.statementsToEnd budget) (Parser.statementsToEnd larger) 0 limit := by
  induction budget generalizing larger limit left with
  | zero =>
    obtain rfl : limit = 0 := by omega
    exact .exhausted
  | succ budget ih =>
    obtain ⟨larger, rfl⟩ : ∃ b, larger = b + 1 := ⟨larger - 1, by omega⟩
    have hle : budget ≤ larger := by omega
    rw [Parser.statementsToEnd, Parser.statementsToEnd]
    refine peek ?_
    cases left with
    | nil => exact .pure _
    | cons t rest =>
      exact bind ((statementsAdvance hle).statement hlimit) fun _ _ =>
        bind (ih hle (by omega)) fun _ _ => .pure _

theorem version : Advances left Parser.version Parser.version 0 limit := by
  refine next fun t rest => ?_
  split
  · exact .pure _
  · exact .pure _
  · exact .fail _

theorem script (h : budget ≤ larger) (hlimit : 4 * limit ≤ budget + 1) :
    Advances left (Parser.script budget) (Parser.script larger) 0 limit :=
  bind (expect _) fun _ _ => bind version fun _ _ => bind (symbol _) fun _ _ =>
    bind (statementsToEnd h (by omega)) fun _ _ => .pure _

end Advances

/-- Statements are read until nothing is left. -/
theorem rest_statementsToEnd {budget : Nat} {left rest : List Located} {ss : List Statement}
    (h : statementsToEnd budget left = .ok (ss, rest)) : rest = [] := by
  induction budget generalizing left ss with
  | zero => cases h
  | succ budget ih =>
    rw [statementsToEnd] at h
    cases left with
    | nil =>
      cases h
      rfl
    | cons t more =>
      have hsteps : (statement budget >>= fun first => statementsToEnd budget >>= fun ss =>
          pure (first :: ss)) (t :: more) = .ok (ss, rest) := h
      obtain ⟨_, _, -, h⟩ := exists_of_bind_eq_ok hsteps
      obtain ⟨_, _, hmore, h⟩ := exists_of_bind_eq_ok h
      cases h
      exact ih hmore

theorem rest_script {budget : Nat} {left rest : List Located} {s : Script}
    (h : script budget left = .ok (s, rest)) : rest = [] := by
  obtain ⟨_, _, -, h⟩ := exists_of_bind_eq_ok h
  obtain ⟨_, _, -, h⟩ := exists_of_bind_eq_ok h
  obtain ⟨_, _, -, h⟩ := exists_of_bind_eq_ok h
  obtain ⟨_, _, hstatements, h⟩ := exists_of_bind_eq_ok h
  cases h
  exact rest_statementsToEnd hstatements

end CircuitCalls.Qasm.Parser
