import CircuitCalls.Proofs.Operation
import Mathlib.Data.List.Lex

/-!
# Paths and document order

A path leads from a circuit to one of its operations, and `Circuit.at?` follows it. Paths are ordered
as the operations stand in the document: an operation before those inside it, an earlier operation of
a list before a later one, and the branch that is taken before its alternative. `Circuit.occurrences`
lists the operations that paths lead to, in this order (`at?_eq_some_iff`, `inOrder_occurrences`).
-/

namespace CircuitCalls

/-! ## Document order -/

/-- The order in which an operation lists its branches. -/
def Branch.rank : Branch → Nat
  | top => 0
  | thenBody => 1
  | elseBody => 2
  | loopBody => 3

/-- A place before another one in the same operation. -/
def Place.Precedes (p q : Place) : Prop :=
  p.branch.rank < q.branch.rank ∨ (p.branch = q.branch ∧ p.index < q.index)

instance : DecidableRel Place.Precedes := fun p q =>
  inferInstanceAs (Decidable (p.branch.rank < q.branch.rank ∨ (p.branch = q.branch ∧ p.index < q.index)))

instance : Std.Asymm Place.Precedes where
  asymm p q := by
    rintro (hpq | ⟨hpq, hi⟩) (hqp | ⟨hqp, hj⟩)
    · omega
    · rw [hqp] at hpq
      omega
    · rw [hpq] at hqp
      omega
    · omega

/-- A path before another one in the document; a path is before all that continue it. -/
def Path.Precedes (p q : Path) : Prop := List.Lex Place.Precedes p q

instance : DecidableRel Path.Precedes := fun p q =>
  inferInstanceAs (Decidable (List.Lex Place.Precedes p q))

namespace Path

theorem precedes_asymm {p q : Path} (h : Precedes p q) : ¬ Precedes q p :=
  (List.Lex.asymm Place.Precedes).asymm p q h

theorem precedes_inner (path : Path) (place : Place) (inner : Path) :
    Precedes path (path ++ place :: inner) := by
  have h := List.Lex.append_left Place.Precedes (@List.Lex.nil _ _ place inner) path
  rwa [List.append_nil] at h

theorem precedes_of_place {p q : Place} (h : p.Precedes q) (path inner inner' : Path) :
    Precedes (path ++ p :: inner) (path ++ q :: inner') :=
  List.Lex.append_left Place.Precedes (.rel h) path

end Path

def InOrder (os : List Occurrence) : Prop := os.Pairwise fun a b => Path.Precedes a.path b.path

/-! ## Following a path -/

namespace Operation

def inside : Branch → Operation → List Operation
  | .thenBody, ifElse _ thenBody _ => thenBody
  | .elseBody, ifElse _ _ elseBody => elseBody.getD []
  | .loopBody, whileLoop _ body => body
  | .loopBody, forLoop _ _ body => body
  | _, _ => []

theorem inside_top (op : Operation) : op.inside .top = [] := by
  cases op <;> rfl

/-- The operation that a path from this one leads to. -/
def follow : Path → Operation → Option Operation
  | [], op => some op
  | place :: path, op => (op.inside place.branch)[place.index]?.bind (follow path)

theorem branch_ne_top_of_follow {path : Path} {op target : Operation}
    (h : follow path op = some target) : ∀ place ∈ path, place.branch ≠ .top := by
  induction path generalizing op with
  | nil => exact fun place hplace => by cases hplace
  | cons place inner ih =>
    obtain ⟨child, hchild, hfollow⟩ := Option.bind_eq_some_iff.1 h
    refine List.forall_mem_cons.2 ⟨fun htop => ?_, ih hfollow⟩
    rw [htop, inside_top] at hchild
    cases hchild

/-- Induction over operations: from those directly inside to the one around them. -/
theorem induction_inside {P : Operation → Prop}
    (step : ∀ op : Operation, (∀ branch, ∀ child ∈ op.inside branch, P child) → P op) :
    ∀ op, P op := by
  have leaf : ∀ op : Operation, (∀ branch, op.inside branch = []) → P op := by
    intro op hop
    refine step op fun branch child hchild => ?_
    rw [hop branch] at hchild
    cases hchild
  have all : (∀ op, P op) ∧ ∀ ops : List Operation, ∀ op ∈ ops, P op := by
    apply Operation.induction
    case gate => exact fun g qubits => leaf _ fun branch => by cases branch <;> rfl
    case measure => exact fun qubits clbits => leaf _ fun branch => by cases branch <;> rfl
    case directive => exact fun d qubits => leaf _ fun branch => by cases branch <;> rfl
    case ifThen =>
      intro condition thenBody ih
      refine step _ fun branch child hchild => ?_
      cases branch with
      | thenBody => exact ih child hchild
      | _ => cases hchild
    case ifElse =>
      intro condition thenBody elseBody ihThen ihElse
      refine step _ fun branch child hchild => ?_
      cases branch with
      | thenBody => exact ihThen child hchild
      | elseBody => exact ihElse child hchild
      | _ => cases hchild
    case whileLoop =>
      intro condition body ih
      refine step _ fun branch child hchild => ?_
      cases branch with
      | loopBody => exact ih child hchild
      | _ => cases hchild
    case forLoop =>
      intro iteration loopVar body ih
      refine step _ fun branch child hchild => ?_
      cases branch with
      | loopBody => exact ih child hchild
      | _ => cases hchild
    case nil => exact fun op hop => by cases hop
    case cons =>
      intro op rest hop hrest
      exact List.forall_mem_cons.2 ⟨hop, hrest⟩
  exact all.1

/-! ## Occurrences are what paths lead to -/

variable {path : Path} {branch : Branch} {index : Nat} {around : List Operation}

/-- An operation comes first, and then those inside it, branch by branch. -/
theorem occurrences_eq (path : Path) (around : List Operation) (op : Operation) :
    occurrences path around op = ⟨path, around, op⟩ ::
      (occurrencesAll path .thenBody 0 (op :: around) (op.inside .thenBody) ++
        (occurrencesAll path .elseBody 0 (op :: around) (op.inside .elseBody) ++
          occurrencesAll path .loopBody 0 (op :: around) (op.inside .loopBody))) := by
  cases op with
  | ifElse condition thenBody elseBody =>
    cases elseBody <;> simp [occurrences, inside, occurrencesAll]
  | _ => simp [occurrences, inside, occurrencesAll]

/-- What occurs in a list occurs in the operation at some place of it. -/
theorem mem_occurrencesAll {o : Occurrence} {ops : List Operation} :
    o ∈ occurrencesAll path branch index around ops ↔
      ∃ i op, ops[i]? = some op ∧ o ∈ occurrences (path ++ [⟨branch, index + i⟩]) around op := by
  induction ops generalizing index with
  | nil => simp [occurrencesAll]
  | cons op rest ih =>
    rw [occurrencesAll, List.mem_append, ih]
    constructor
    · rintro (ho | ⟨i, child, hi, ho⟩)
      · exact ⟨0, op, rfl, ho⟩
      · refine ⟨i + 1, child, hi, ?_⟩
        rwa [show index + (i + 1) = index + 1 + i by omega]
    · rintro ⟨i, child, hi, ho⟩
      cases i with
      | zero =>
        cases hi
        exact Or.inl ho
      | succ i =>
        refine Or.inr ⟨i, child, hi, ?_⟩
        rwa [show index + 1 + i = index + (i + 1) by omega]

/-- What occurs in an operation is the operation itself, or occurs in one that stands in a branch of it. -/
theorem mem_occurrences {o : Occurrence} {op : Operation} :
    o ∈ occurrences path around op ↔ o = ⟨path, around, op⟩ ∨
      ∃ branch i child, (op.inside branch)[i]? = some child ∧
        o ∈ occurrences (path ++ [⟨branch, i⟩]) (op :: around) child := by
  simp only [occurrences_eq path around op, List.mem_cons, List.mem_append, mem_occurrencesAll,
    Nat.zero_add]
  refine or_congr_right ⟨?_, ?_⟩
  · rintro (h | h | h)
    · exact ⟨_, h⟩
    · exact ⟨_, h⟩
    · exact ⟨_, h⟩
  · rintro ⟨branch, i, child, hi, ho⟩
    cases branch with
    | top =>
      rw [inside_top] at hi
      cases hi
    | thenBody => exact Or.inl ⟨i, child, hi, ho⟩
    | elseBody => exact Or.inr (Or.inl ⟨i, child, hi, ho⟩)
    | loopBody => exact Or.inr (Or.inr ⟨i, child, hi, ho⟩)

/-- The path of an occurrence leads to it. -/
theorem follow_of_mem_occurrences (op : Operation) :
    ∀ (path : Path) (around : List Operation), ∀ o ∈ occurrences path around op,
      ∃ inner, o.path = path ++ inner ∧ follow inner op = some o.operation := by
  induction op using induction_inside with
  | step op ih =>
    intro path around o ho
    rcases mem_occurrences.1 ho with rfl | ⟨branch, i, child, hi, ho⟩
    · exact ⟨[], (List.append_nil path).symm, rfl⟩
    · obtain ⟨inner, hpath, hfollow⟩ := ih branch child (List.mem_of_getElem? hi) _ _ o ho
      refine ⟨⟨branch, i⟩ :: inner, ?_, ?_⟩
      · rw [hpath, List.append_assoc]
        rfl
      · rw [follow, hi, Option.bind_some, hfollow]

/-- Every operation that a path leads to occurs. -/
theorem exists_occurrence_of_follow {inner : Path} {op target : Operation}
    (h : follow inner op = some target) (path : Path) (around : List Operation) :
    ∃ o ∈ occurrences path around op, o.path = path ++ inner ∧ o.operation = target := by
  induction inner generalizing op path around with
  | nil =>
    cases h
    exact ⟨_, mem_occurrences.2 (Or.inl rfl), (List.append_nil path).symm, rfl⟩
  | cons place inner ih =>
    obtain ⟨child, hchild, hfollow⟩ := Option.bind_eq_some_iff.1 h
    obtain ⟨o, ho, hpath, htarget⟩ := ih hfollow (path ++ [place]) (op :: around)
    refine ⟨o, mem_occurrences.2 (Or.inr ⟨place.branch, place.index, child, hchild, ho⟩), ?_, htarget⟩
    rw [hpath, List.append_assoc]
    rfl

/-! ## Occurrences are in document order -/

theorem path_of_mem_occurrencesAll {o : Occurrence} {ops : List Operation}
    (h : o ∈ occurrencesAll path branch index around ops) :
    ∃ i inner, index ≤ i ∧ o.path = path ++ ⟨branch, i⟩ :: inner := by
  obtain ⟨i, op, -, ho⟩ := mem_occurrencesAll.1 h
  obtain ⟨inner, hpath, -⟩ := follow_of_mem_occurrences op _ _ o ho
  refine ⟨index + i, inner, Nat.le_add_right _ _, ?_⟩
  rw [hpath, List.append_assoc]
  rfl

theorem inOrder_occurrencesAll {ops : List Operation}
    (h : ∀ op ∈ ops, ∀ path, InOrder (occurrences path around op)) :
    InOrder (occurrencesAll path branch index around ops) := by
  induction ops generalizing index with
  | nil => exact List.Pairwise.nil
  | cons op rest ih =>
    obtain ⟨hop, hrest⟩ := List.forall_mem_cons.1 h
    rw [occurrencesAll]
    refine List.pairwise_append.2 ⟨hop _, ih hrest, ?_⟩
    intro a ha b hb
    obtain ⟨inner, hpath, -⟩ := follow_of_mem_occurrences op _ _ a ha
    obtain ⟨i, inner', hi, hpath'⟩ := path_of_mem_occurrencesAll hb
    have hplace : Place.Precedes ⟨branch, index⟩ ⟨branch, i⟩ := Or.inr ⟨rfl, hi⟩
    rw [hpath, hpath', List.append_assoc]
    exact Path.precedes_of_place hplace path inner inner'

/-- The occurrences in one branch come before those in a later one. -/
theorem precedes_of_rank_lt {a b : Occurrence} {branch' : Branch} {ops ops' : List Operation}
    (hrank : branch.rank < branch'.rank) (ha : a ∈ occurrencesAll path branch 0 around ops)
    (hb : b ∈ occurrencesAll path branch' 0 around ops') : Path.Precedes a.path b.path := by
  obtain ⟨i, inner, -, hpath⟩ := path_of_mem_occurrencesAll ha
  obtain ⟨i', inner', -, hpath'⟩ := path_of_mem_occurrencesAll hb
  rw [hpath, hpath']
  exact Path.precedes_of_place (Or.inl hrank) path inner inner'

/-- Document order is the order of paths. -/
theorem inOrder_occurrences (op : Operation) :
    ∀ (path : Path) (around : List Operation), InOrder (occurrences path around op) := by
  induction op using induction_inside with
  | step op ih =>
    intro path around
    have hbranch : ∀ branch, InOrder (occurrencesAll path branch 0 (op :: around) (op.inside branch)) :=
      fun branch => inOrder_occurrencesAll fun child hchild path => ih branch child hchild path _
    rw [occurrences_eq]
    refine List.pairwise_cons.2 ⟨?_, List.pairwise_append.2 ⟨hbranch _, List.pairwise_append.2
      ⟨hbranch _, hbranch _, ?_⟩, ?_⟩⟩
    · intro b hb
      simp only [List.mem_append] at hb
      rcases hb with hb | hb | hb <;>
      · obtain ⟨i, inner, -, hpath⟩ := path_of_mem_occurrencesAll hb
        rw [hpath]
        exact Path.precedes_inner path _ inner
    · exact fun a ha b hb => precedes_of_rank_lt (by decide) ha hb
    · intro a ha b hb
      rcases List.mem_append.1 hb with hb | hb
      · exact precedes_of_rank_lt (by decide) ha hb
      · exact precedes_of_rank_lt (by decide) ha hb

end Operation

namespace Circuit

/-- The operation that a path leads to. -/
def at? (c : Circuit) : Path → Option Operation
  | ⟨.top, index⟩ :: inner => c.operations[index]?.bind (Operation.follow inner)
  | _ => none

/-- A path leads to the operation that occurs there. -/
theorem at?_eq_some_iff {c : Circuit} {path : Path} {op : Operation} :
    c.at? path = some op ↔ ∃ o ∈ c.occurrences, o.path = path ∧ o.operation = op := by
  constructor
  · intro h
    match path, h with
    | ⟨.top, index⟩ :: inner, h =>
      obtain ⟨child, hchild, hfollow⟩ := Option.bind_eq_some_iff.1 h
      obtain ⟨o, ho, hpath, hop⟩ := Operation.exists_occurrence_of_follow hfollow [⟨.top, index⟩] []
      refine ⟨o, Operation.mem_occurrencesAll.2 ⟨index, child, hchild, ?_⟩, hpath, hop⟩
      rwa [Nat.zero_add]
  · rintro ⟨o, ho, rfl, rfl⟩
    obtain ⟨index, child, hchild, ho⟩ := Operation.mem_occurrencesAll.1 ho
    obtain ⟨inner, hpath, hfollow⟩ := Operation.follow_of_mem_occurrences child _ _ o ho
    rw [Nat.zero_add] at hpath
    rw [hpath]
    exact Option.bind_eq_some_iff.2 ⟨child, hchild, hfollow⟩

/-- Only the first place of a path is one in the circuit's own list. -/
theorem exists_top_of_at? {c : Circuit} {path : Path} {op : Operation} (h : c.at? path = some op) :
    ∃ index inner, path = ⟨.top, index⟩ :: inner ∧ ∀ place ∈ inner, place.branch ≠ .top := by
  match path, h with
  | ⟨.top, index⟩ :: inner, h =>
    obtain ⟨child, -, hfollow⟩ := Option.bind_eq_some_iff.1 h
    exact ⟨index, inner, rfl, Operation.branch_ne_top_of_follow hfollow⟩

theorem inOrder_occurrences (c : Circuit) : InOrder c.occurrences :=
  Operation.inOrder_occurrencesAll fun op _ path => op.inOrder_occurrences path []

/-- The occurrences that are listed before one are those that come before it in the document. -/
theorem mem_before_iff {c : Circuit} {before after : List Occurrence} {o x : Occurrence}
    (h : c.occurrences = before ++ o :: after) (hx : x ∈ c.occurrences) :
    x ∈ before ↔ Path.Precedes x.path o.path := by
  have horder := c.inOrder_occurrences
  rw [h] at horder hx
  obtain ⟨-, hrest, hbefore⟩ := List.pairwise_append.1 horder
  obtain ⟨hafter, -⟩ := List.pairwise_cons.1 hrest
  refine ⟨fun hmem => hbefore x hmem o List.mem_cons_self, fun hprecedes => ?_⟩
  rcases List.mem_append.1 hx with hmem | hmem
  · exact hmem
  · rcases List.mem_cons.1 hmem with rfl | hmem
    · exact absurd hprecedes (Path.precedes_asymm hprecedes)
    · exact absurd (hafter x hmem) (Path.precedes_asymm hprecedes)

end Circuit

end CircuitCalls
