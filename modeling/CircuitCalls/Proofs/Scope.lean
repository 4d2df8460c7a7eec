import CircuitCalls.Emission
import Mathlib.Data.List.Nodup
import Mathlib.Data.List.Perm.Subperm

/-!
# Names of loop variables

A new loop variable gets a name in the program that no enclosing loop has: a name and as many
numbered candidates as there are enclosing loops are too many names for all of them to be taken. So
the names of nested loops stay distinct, and a symbol is looked up from the innermost loop outwards.
-/

namespace CircuitCalls

theorem toString_nat_inj {m n : Nat} (h : toString m = toString n) : m = n := by
  have hdigits : (Nat.repr m).toList = (Nat.repr n).toList := congrArg String.toList h
  simp only [Nat.toList_repr] at hdigits
  have hvalue := congrArg (fun digits => Nat.ofDigitChars 10 digits 0) hdigits
  simpa using hvalue

namespace Scope

/-- The variables of the enclosing loops in the circuit, innermost first. -/
def sources (scope : Scope) : List String := scope.map (·.source)

/-- The variables of the enclosing loops in the program, innermost first. -/
def emitted (scope : Scope) : List String := scope.map (·.emitted)

theorem uses_eq_true_iff {scope : Scope} {name : String} :
    scope.uses name = true ↔ name ∈ scope.emitted := by
  simp [uses, emitted]

/-! ## New names -/

theorem mem_candidates {scope : Scope} {source name : String} :
    name ∈ scope.candidates source ↔
      ∃ n < scope.length, name = source ++ "_" ++ toString (n + 1) := by
  simp only [candidates, List.mem_map, List.mem_range, eq_comm]

theorem nodup_candidates (scope : Scope) (source : String) : (scope.candidates source).Nodup := by
  refine List.Nodup.map ?_ List.nodup_range
  intro m n h
  have hnumber : toString (m + 1) = toString (n + 1) := (String.append_right_inj _).1 h
  have := toString_nat_inj hnumber
  omega

/-- A numbered name is longer than the name it is made from. -/
theorem not_mem_candidates (scope : Scope) (source : String) : source ∉ scope.candidates source := by
  intro h
  obtain ⟨n, -, hn⟩ := mem_candidates.1 h
  have hlength := congrArg String.length hn
  simp only [String.length_append] at hlength
  have : "_".length = 1 := rfl
  omega

/-- There is a candidate more than there are names in use, so that one of them is free. -/
theorem exists_unused_candidate {scope : Scope} {source : String} (h : source ∈ scope.emitted) :
    ∃ name ∈ scope.candidates source, name ∉ scope.emitted := by
  by_contra hnone
  push Not at hnone
  have hnodup : (source :: scope.candidates source).Nodup :=
    List.nodup_cons.2 ⟨not_mem_candidates scope source, nodup_candidates scope source⟩
  have hsubset : source :: scope.candidates source ⊆ scope.emitted := by
    intro name hname
    rcases List.mem_cons.1 hname with rfl | hname
    · exact h
    · exact hnone name hname
  have hle := (List.subperm_of_subset hnodup hsubset).length_le
  simp only [candidates, emitted, List.length_cons, List.length_map, List.length_range] at hle
  omega

/-- The name is the first numbered form of `source` that is not in use, where `source` itself is. -/
def Numbers (used : List String) (source name : String) : Prop :=
  source ∈ used ∧ ∃ n, name = source ++ "_" ++ toString (n + 1) ∧ name ∉ used ∧
    ∀ m < n, source ++ "_" ++ toString (m + 1) ∈ used

/-- The first free candidate has the least number whose name is free. -/
theorem find?_candidates {scope : Scope} {source name : String}
    (h : (scope.candidates source).find? (!scope.uses ·) = some name) :
    ∃ n, name = source ++ "_" ++ toString (n + 1) ∧ name ∉ scope.emitted ∧
      ∀ m < n, source ++ "_" ++ toString (m + 1) ∈ scope.emitted := by
  rw [candidates, List.find?_map] at h
  obtain ⟨n, hn, rfl⟩ := Option.map_eq_some_iff.1 h
  obtain ⟨hfree, -, hused⟩ := List.find?_range_eq_some.1 hn
  refine ⟨n, rfl, fun hmem => ?_, fun m hm => ?_⟩
  · rw [Function.comp_apply, uses_eq_true_iff.2 hmem] at hfree
    cases hfree
  · have hm' := hused m hm
    rw [Function.comp_apply, Bool.not_not] at hm'
    exact uses_eq_true_iff.1 hm'

/-- Where a name is in use, one of its candidates is found. -/
theorem find?_candidates_freshName {scope : Scope} {source : String} (h : source ∈ scope.emitted) :
    (scope.candidates source).find? (!scope.uses ·) = some (scope.freshName source) := by
  rw [freshName, if_pos (uses_eq_true_iff.2 h)]
  cases hfind : (scope.candidates source).find? (!scope.uses ·) with
  | some name => rfl
  | none =>
    obtain ⟨name, hname, hfree⟩ := exists_unused_candidate h
    have hused := List.find?_eq_none.1 hfind name hname
    simp only [Bool.not_eq_true', Bool.not_eq_false, uses_eq_true_iff] at hused
    exact absurd hused hfree

/-- A new name is the source name if that is free, and its first free numbered form otherwise. -/
theorem freshName_cases (scope : Scope) (source : String) :
    (source ∉ scope.emitted ∧ scope.freshName source = source) ∨
      Numbers scope.emitted source (scope.freshName source) := by
  by_cases h : source ∈ scope.emitted
  · exact .inr ⟨h, find?_candidates (find?_candidates_freshName h)⟩
  · have hfree : ¬ scope.uses source = true := fun hu => h (uses_eq_true_iff.1 hu)
    exact .inl ⟨h, if_neg hfree⟩

theorem freshName_not_mem (scope : Scope) (source : String) :
    scope.freshName source ∉ scope.emitted := by
  rcases freshName_cases scope source with ⟨hfree, heq⟩ | ⟨-, n, -, hfree, -⟩
  · rwa [heq]
  · exact hfree

theorem nodup_emitted_enter {scope : Scope} (h : scope.emitted.Nodup) (source : String) :
    (scope.enter source).emitted.Nodup :=
  List.nodup_cons.2 ⟨freshName_not_mem scope source, h⟩

/-! ## Symbols -/

theorem rename_of_not_mem {scope : Scope} {name : String} (h : name ∉ scope.sources) :
    scope.rename name = name := by
  have hnone : scope.find? (·.source == name) = none := by
    rw [List.find?_eq_none]
    intro binding hb he
    exact h (List.mem_map.2 ⟨binding, hb, beq_iff_eq.1 he⟩)
  rw [rename, hnone]

/-- A symbol gets the name of the first enclosing loop over it, from the inside outwards. -/
theorem emitted_innermost {scope : Scope} {name : String} {i : Nat}
    (hi : scope.sources[i]? = some name) (hfirst : name ∉ scope.sources.take i) :
    scope.emitted[i]? = some (scope.rename name) := by
  induction scope generalizing i with
  | nil => cases hi
  | cons binding rest ih =>
    cases i with
    | zero =>
      have hsource : binding.source = name := Option.some.inj hi
      simp [emitted, rename, hsource]
    | succ i =>
      have hmem : name ∉ binding.source :: (sources rest).take i := hfirst
      rw [List.mem_cons, not_or] at hmem
      have hskip : rename (binding :: rest) name = rename rest name := by
        simp [rename, Ne.symm hmem.1]
      rw [hskip]
      exact ih hi hmem.2

end Scope

end CircuitCalls
