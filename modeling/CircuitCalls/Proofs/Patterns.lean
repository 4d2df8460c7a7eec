import Mathlib.Data.List.Basic

/-!
# Patterns of texts

The lexical rules are given by patterns: characters of a class, rows of them, one pattern behind another,
a choice, and repetition. `Takes` says which texts a pattern has; `leaves` is the search of a matcher that
tries the first of two patterns and the longest row before others, with what each way to take the pattern
off the front of a text leaves. The search finds every such way (`mem_leaves`).
-/

namespace CircuitCalls

/-- A pattern for the front of a text. -/
inductive Pattern where
  | one (p : Char → Bool)
  /-- Any number of characters in a row. -/
  | many (p : Char → Bool)
  | seq (first second : Pattern)
  | either (first second : Pattern)
  /-- Any number of texts of a pattern, one behind the other. -/
  | star (inner : Pattern)

namespace Pattern

/-- What is left behind any number of characters, the most of them first. -/
def leavesMany (p : Char → Bool) : List Char → List (List Char)
  | [] => [[]]
  | c :: rest => if p c then leavesMany p rest ++ [c :: rest] else [c :: rest]

/-- What is left behind any number of steps that shorten the text, at most `bound` of them and the most first. -/
def leavesStar (step : List Char → List (List Char)) : Nat → List Char → List (List Char)
  | 0, text => [text]
  | bound + 1, text =>
    ((step text).filter (·.length < text.length)).flatMap (leavesStar step bound) ++ [text]

/-- What a pattern leaves of a text, in the order in which a search comes to it that prefers the first of
two patterns and the longest row. -/
def leaves : Pattern → List Char → List (List Char)
  | one _, [] => []
  | one p, c :: rest => if p c then [rest] else []
  | many p, text => leavesMany p text
  | seq first second, text => (first.leaves text).flatMap second.leaves
  | either first second, text => first.leaves text ++ second.leaves text
  | star inner, text => leavesStar inner.leaves text.length text

/-- The texts of a pattern. -/
def Takes : Pattern → List Char → Prop
  | one p, text => ∃ c, p c = true ∧ text = [c]
  | many p, text => ∀ c ∈ text, p c = true
  | seq first second, text => ∃ xs ys, first.Takes xs ∧ second.Takes ys ∧ text = xs ++ ys
  | either first second, text => first.Takes text ∨ second.Takes text
  | star inner, text => ∃ parts : List (List Char), (∀ part ∈ parts, inner.Takes part) ∧ text = parts.flatten

/-- Any part of a row may be taken. -/
theorem mem_leavesMany {p : Char → Bool} {text rest : List Char} :
    rest ∈ leavesMany p text ↔ ∃ taken, (∀ c ∈ taken, p c = true) ∧ text = taken ++ rest := by
  induction text with
  | nil => simp [leavesMany]
  | cons c text ih =>
    rw [leavesMany]
    split
    case isTrue hc =>
      rw [List.mem_append, ih, List.mem_singleton]
      constructor
      · rintro (⟨taken, htaken, rfl⟩ | rfl)
        · exact ⟨c :: taken, List.forall_mem_cons.2 ⟨hc, htaken⟩, rfl⟩
        · exact ⟨[], by simp, rfl⟩
      · rintro ⟨taken, htaken, htext⟩
        rcases List.cons_eq_append_iff.1 htext with ⟨-, rfl⟩ | ⟨taken, rfl, rfl⟩
        · exact .inr rfl
        · exact .inl ⟨taken, (List.forall_mem_cons.1 htaken).2, rfl⟩
    case isFalse hc =>
      rw [List.mem_singleton]
      constructor
      · rintro rfl
        exact ⟨[], by simp, rfl⟩
      · rintro ⟨taken, htaken, htext⟩
        rcases List.cons_eq_append_iff.1 htext with ⟨-, rfl⟩ | ⟨taken, rfl, rfl⟩
        · rfl
        · exact absurd (List.forall_mem_cons.1 htaken).1 hc

/-- The texts taken by the steps of a repetition stand one behind the other. -/
theorem exists_of_mem_leavesStar {inner : Pattern} {bound : Nat} {text rest : List Char}
    (ih : ∀ {text rest}, rest ∈ inner.leaves text ↔ ∃ taken, inner.Takes taken ∧ text = taken ++ rest)
    (h : rest ∈ leavesStar inner.leaves bound text) : ∃ taken, inner.star.Takes taken ∧ text = taken ++ rest := by
  have hnone : ∃ taken, inner.star.Takes taken ∧ rest = taken ++ rest := ⟨[], ⟨[], by simp, rfl⟩, rfl⟩
  induction bound generalizing text with
  | zero =>
    obtain rfl := List.mem_singleton.1 h
    exact hnone
  | succ bound hbound =>
    rcases List.mem_append.1 h with hstep | hself
    · obtain ⟨middle, hmiddle, hrest⟩ := List.mem_flatMap.1 hstep
      obtain ⟨part, hpart, rfl⟩ := ih.1 (List.mem_filter.1 hmiddle).1
      obtain ⟨_, ⟨parts, hparts, rfl⟩, rfl⟩ := hbound hrest
      refine ⟨part ++ parts.flatten, ⟨part :: parts, List.forall_mem_cons.2 ⟨hpart, hparts⟩, rfl⟩, ?_⟩
      rw [List.append_assoc]
    · obtain rfl := List.mem_singleton.1 hself
      exact hnone

/-- A bound of the length of the text is enough, as every step that counts takes a character. -/
theorem mem_leavesStar {inner : Pattern} {rest : List Char}
    (ih : ∀ {text rest}, rest ∈ inner.leaves text ↔ ∃ taken, inner.Takes taken ∧ text = taken ++ rest)
    {parts : List (List Char)} (hparts : ∀ part ∈ parts, inner.Takes part) {bound : Nat}
    (hbound : (parts.flatten ++ rest).length ≤ bound) :
    rest ∈ leavesStar inner.leaves bound (parts.flatten ++ rest) := by
  induction parts generalizing bound with
  | nil => cases bound <;> simp [leavesStar]
  | cons part parts hrec =>
    obtain ⟨hpart, hmore⟩ := List.forall_mem_cons.1 hparts
    rw [List.flatten_cons, List.append_assoc] at hbound ⊢
    -- A part without characters takes no step.
    cases part with
    | nil => exact hrec hmore hbound
    | cons c part =>
      cases bound with
      | zero => simp at hbound
      | succ bound =>
        have hshorter : (parts.flatten ++ rest).length ≤ bound := by
          simp only [List.length_append, List.length_cons] at hbound ⊢
          omega
        refine List.mem_append_left _ (List.mem_flatMap.2 ⟨parts.flatten ++ rest, ?_, hrec hmore hshorter⟩)
        refine List.mem_filter.2 ⟨ih.2 ⟨c :: part, hpart, rfl⟩, ?_⟩
        simp only [List.length_append, List.length_cons, decide_eq_true_eq]
        omega

/-- The search misses no way to take a pattern off the front of a text. -/
theorem mem_leaves {pattern : Pattern} {text rest : List Char} :
    rest ∈ pattern.leaves text ↔ ∃ taken, pattern.Takes taken ∧ text = taken ++ rest := by
  induction pattern generalizing text rest with
  | one p =>
    cases text with
    | nil => simp [leaves, Takes]
    | cons c text =>
      rw [leaves]
      split
      case isTrue hc =>
        rw [List.mem_singleton]
        constructor
        · rintro rfl
          exact ⟨[c], ⟨c, hc, rfl⟩, rfl⟩
        · rintro ⟨taken, ⟨d, -, rfl⟩, htext⟩
          exact (List.cons.inj htext).2.symm
      case isFalse hc =>
        constructor
        · intro h
          cases h
        · rintro ⟨taken, ⟨d, hd, rfl⟩, htext⟩
          rw [(List.cons.inj htext).1] at hc
          exact absurd hd hc
  | many p => exact mem_leavesMany
  | seq first second ihFirst ihSecond =>
    simp only [leaves, List.mem_flatMap, ihFirst, ihSecond]
    constructor
    · rintro ⟨middle, ⟨xs, hxs, rfl⟩, ys, hys, rfl⟩
      exact ⟨xs ++ ys, ⟨xs, ys, hxs, hys, rfl⟩, (List.append_assoc _ _ _).symm⟩
    · rintro ⟨taken, ⟨xs, ys, hxs, hys, rfl⟩, rfl⟩
      exact ⟨ys ++ rest, ⟨xs, hxs, List.append_assoc _ _ _⟩, ys, hys, rfl⟩
  | either first second ihFirst ihSecond =>
    simp only [leaves, Takes, List.mem_append, ihFirst, ihSecond, or_and_right, exists_or]
  | star inner ih =>
    constructor
    · exact exists_of_mem_leavesStar ih
    · rintro ⟨_, ⟨parts, hparts, rfl⟩, rfl⟩
      exact mem_leavesStar ih hparts (Nat.le_refl _)

theorem leaves_one_eq_nil {p : Char → Bool} {text : List Char} (h : ∀ c ∈ text.head?, p c = false) :
    (one p).leaves text = [] := by
  cases text with
  | nil => rfl
  | cons c text => simp [leaves, h c rfl]

/-- A row is taken whole at first. -/
theorem leavesMany_append {p : Char → Bool} {taken rest : List Char} (htaken : ∀ c ∈ taken, p c = true)
    (hrest : ∀ c ∈ rest.head?, p c = false) : ∃ more, leavesMany p (taken ++ rest) = rest :: more := by
  induction taken with
  | nil =>
    cases rest with
    | nil => exact ⟨[], rfl⟩
    | cons c rest => exact ⟨[], by simp [leavesMany, hrest c rfl]⟩
  | cons c taken ih =>
    obtain ⟨hc, htaken⟩ := List.forall_mem_cons.1 htaken
    obtain ⟨more, hmore⟩ := ih htaken
    exact ⟨more ++ [c :: (taken ++ rest)], by simp [leavesMany, hc, hmore]⟩

/-! ## Patterns made of others -/

def word : List Char → Pattern
  | [] => many fun _ => false
  | c :: rest => seq (one (· == c)) (word rest)

def row (p : Char → Bool) : Pattern := seq (one p) (many p)

def optional (pattern : Pattern) : Pattern := either pattern (word [])

theorem takes_word {text taken : List Char} : (word text).Takes taken ↔ taken = text := by
  induction text generalizing taken with
  | nil =>
    constructor
    · exact fun h => List.eq_nil_iff_forall_not_mem.2 fun c hc => Bool.false_ne_true (h c hc)
    · rintro rfl
      exact List.forall_mem_nil _
  | cons c rest ih =>
    simp only [word, Takes, ih, beq_iff_eq]
    constructor
    · rintro ⟨_, _, ⟨_, rfl, rfl⟩, rfl, rfl⟩
      rfl
    · rintro rfl
      exact ⟨[c], rest, ⟨c, rfl, rfl⟩, rfl, rfl⟩

theorem takes_row {p : Char → Bool} {taken : List Char} :
    (row p).Takes taken ↔ taken ≠ [] ∧ ∀ c ∈ taken, p c = true := by
  constructor
  · rintro ⟨_, rest, ⟨c, hc, rfl⟩, hrest, rfl⟩
    exact ⟨List.cons_ne_nil _ _, List.forall_mem_cons.2 ⟨hc, hrest⟩⟩
  · rintro ⟨hne, hall⟩
    obtain ⟨c, rest, rfl⟩ := List.exists_cons_of_ne_nil hne
    obtain ⟨hc, hrest⟩ := List.forall_mem_cons.1 hall
    exact ⟨[c], rest, ⟨c, hc, rfl⟩, hrest, rfl⟩

theorem takes_optional {pattern : Pattern} {taken : List Char} :
    pattern.optional.Takes taken ↔ pattern.Takes taken ∨ taken = [] :=
  or_congr_right takes_word

end Pattern

end CircuitCalls
