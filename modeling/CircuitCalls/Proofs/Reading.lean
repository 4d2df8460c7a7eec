import CircuitCalls.Proofs.Except
import CircuitCalls.Qasm.Parser.Basic

/-!
# What a parser takes

`Reads p tokens a after` says that `p` takes exactly `tokens` and gives `a`, provided that the token
behind them satisfies `after`. The rules follow the steps of a parser: each says what a step takes when
the steps behind it are known to take the rest.
-/

namespace CircuitCalls.Qasm.Parser

variable {α β : Type}

def ahead (left : List Located) : Option Token := left.head?.map (·.token)

/-- The parser takes exactly `tokens`, whatever lines they stand on, and gives `a` wherever the token
behind them is one that `after` allows. -/
def Reads (p : Parser α) (tokens : List Token) (a : α) (after : Option Token → Prop) : Prop :=
  ∀ found rest : List Located, found.map (·.token) = tokens → after (ahead rest) →
    p (found ++ rest) = .ok (a, rest)

theorem bind_apply (p : Parser α) (k : α → Parser β) (left : List Located) :
    (p >>= k) left = p left >>= fun r => k r.1 r.2 := rfl

theorem ahead_append {found rest : List Located} {tokens : List Token}
    (h : found.map (·.token) = tokens) : ahead (found ++ rest) = tokens.head?.or (ahead rest) := by
  cases found with
  | nil => rw [← h]; rfl
  | cons l found => rw [← h]; rfl

namespace Reads

variable {p : Parser α} {k : α → Parser β} {us : List Token} {a : α} {b : β}
  {after after' : Option Token → Prop}

theorem weaken {tokens : List Token} (h : Reads p tokens a after)
    (himp : ∀ next, after' next → after next) : Reads p tokens a after' :=
  fun found rest htokens hrest => h found rest htokens (himp _ hrest)

theorem anywhere {tokens : List Token} (h : Reads p tokens a fun _ => True) :
    Reads p tokens a after :=
  h.weaken fun _ _ => trivial

theorem pure (a : α) : Reads (pure a) [] a after := by
  intro found rest htokens _
  rw [List.map_eq_nil_iff.1 htokens]
  rfl

/-- One parser after another: what the second takes has to start as the first wants it. -/
theorem bind {ts : List Token} (hp : Reads p ts a after') (hk : Reads (k a) us b after)
    (hnext : ∀ next, after next → after' (us.head?.or next)) : Reads (p >>= k) (ts ++ us) b after := by
  intro found rest htokens hrest
  obtain ⟨first, second, rfl, hfirst, hsecond⟩ := List.map_eq_append_iff.1 htokens
  have hahead : after' (ahead (second ++ rest)) := by
    rw [ahead_append hsecond]
    exact hnext _ hrest
  have hp' := hp first (second ++ rest) hfirst hahead
  rw [List.append_assoc, bind_apply, hp', ok_bind]
  exact hk second rest hsecond hrest

/-- A last step that takes nothing. -/
theorem last {ts : List Token} (hp : Reads p ts a after) (f : α → β) :
    Reads (p >>= fun x => Pure.pure (f x)) ts (f a) after := by
  have h : Reads (p >>= fun x => Pure.pure (f x)) (ts ++ []) (f a) after :=
    bind hp (pure (f a)) fun _ hnext => hnext
  rwa [List.append_nil] at h

/-- A parser that takes one token. -/
theorem step {t : Token} (hp : ∀ line left, p (⟨t, line⟩ :: left) = .ok (a, left))
    (hk : Reads (k a) us b after) : Reads (p >>= k) (t :: us) b after := by
  have hp' : Reads p [t] a fun _ => True := by
    intro found rest htokens _
    obtain ⟨⟨t', line⟩, rfl, rfl⟩ := List.map_eq_singleton_iff.1 htokens
    exact hp line rest
  exact bind hp' hk fun _ _ => trivial

/-- A parser that takes nothing. -/
theorem still (hp : Reads p [] a after') (hk : Reads (k a) us b after)
    (hnext : ∀ next, after next → after' (us.head?.or next)) : Reads (p >>= k) us b after :=
  bind hp hk hnext

end Reads

/-! ## The steps of a parser -/

theorem next_cons (expected : String) (t : Token) (line : Nat) (left : List Located) :
    next expected (⟨t, line⟩ :: left) = .ok (⟨t, line⟩, left) := rfl

theorem expect_cons (t : Token) (line : Nat) (left : List Located) :
    expect t (⟨t, line⟩ :: left) = .ok ((), left) := by
  have hexpect : expect t (⟨t, line⟩ :: left) =
      (if t = t then Pure.pure () else unexpected t.text ⟨t, line⟩ : Parser Unit) left := rfl
  rw [hexpect, if_pos rfl]
  rfl

theorem check_eq (t : Token) (left : List Located) :
    check t left = .ok (decide (ahead left = some t), left) := rfl

theorem reads_peek (next : Option Token) : Reads peek? [] next (· = next) := by
  intro found rest htokens hrest
  rw [List.map_eq_nil_iff.1 htokens, ← hrest]
  rfl

theorem reads_check (t : Token) : Reads (check t) [] true (· = some t) := by
  intro found rest htokens hrest
  rw [List.map_eq_nil_iff.1 htokens, List.nil_append, check_eq, decide_eq_true hrest]

theorem reads_uncheck (t : Token) : Reads (check t) [] false (· ≠ some t) := by
  intro found rest htokens hrest
  rw [List.map_eq_nil_iff.1 htokens, List.nil_append, check_eq, decide_eq_false hrest]

theorem consume_eq (t : Token) (left : List Located) :
    consume t left = if ahead left = some t then .ok (true, left.tail) else .ok (false, left) := by
  by_cases h : ahead left = some t
  · have hcheck : check t left = .ok (true, left) := by rw [check_eq, decide_eq_true h]
    rw [if_pos h, consume, bind_apply, hcheck]
    rfl
  · have hcheck : check t left = .ok (false, left) := by rw [check_eq, decide_eq_false h]
    rw [if_neg h, consume, bind_apply, hcheck]
    rfl

/-- A token that is not next is not taken. -/
theorem reads_unconsumed (t : Token) : Reads (consume t) [] false (· ≠ some t) := by
  intro found rest htokens hrest
  rw [List.map_eq_nil_iff.1 htokens, List.nil_append, consume_eq, if_neg hrest]

theorem size_cons (n : UInt32) (line : Nat) (left : List Located) :
    size (⟨.int n.toUInt64, line⟩ :: left) = .ok (n, left) := by
  have hsize : size (⟨.int n.toUInt64, line⟩ :: left) =
      (if n.toUInt64.toNat < UInt32.size then Pure.pure (UInt32.ofNat n.toUInt64.toNat)
        else unexpected "integer below 2^32" ⟨.int n.toUInt64, line⟩ : Parser UInt32) left := rfl
  rw [hsize, if_pos (by simpa using n.toNat_lt), UInt32.toNat_toUInt64, UInt32.ofNat_toNat]
  rfl

namespace Reads

variable {us : List Token} {b : β} {after : Option Token → Prop}

theorem next (expected : String) (t : Token) {k : Located → Parser β}
    (hk : ∀ line, Reads (k ⟨t, line⟩) us b after) :
    Reads (Parser.next expected >>= k) (t :: us) b after := by
  intro found rest htokens hrest
  obtain ⟨⟨t', line⟩, later, rfl, rfl, hlater⟩ := List.map_eq_cons_iff.1 htokens
  exact hk line later rest hlater hrest

theorem symbol (s : Symbol) {k : Unit → Parser β} (hk : Reads (k ()) us b after) :
    Reads (Parser.symbol s >>= k) (.symbol s :: us) b after :=
  step (expect_cons (.symbol s)) hk

theorem identifier (name : String) {k : String → Parser β} (hk : Reads (k name) us b after) :
    Reads (Parser.identifier >>= k) (.identifier name :: us) b after :=
  step (fun _ _ => rfl) hk

theorem size (n : UInt32) {k : UInt32 → Parser β} (hk : Reads (k n) us b after) :
    Reads (Parser.size >>= k) (.int n.toUInt64 :: us) b after :=
  step (size_cons n) hk

theorem skip (t : Token) {k : Unit → Parser β} (hk : Reads (k ()) us b after) :
    Reads (Parser.skip >>= k) (t :: us) b after :=
  step (fun _ _ => rfl) hk

theorem peek (t : Token) {k : Option Token → Parser β} (hk : Reads (k (some t)) (t :: us) b after) :
    Reads (peek? >>= k) (t :: us) b after :=
  still (reads_peek (some t)) hk fun _ _ => rfl

theorem consume (t : Token) {k : Bool → Parser β} (hk : Reads (k true) us b after) :
    Reads (Parser.consume t >>= k) (t :: us) b after :=
  step (fun _ _ => (consume_eq t _).trans (if_pos rfl)) hk

end Reads

end CircuitCalls.Qasm.Parser
