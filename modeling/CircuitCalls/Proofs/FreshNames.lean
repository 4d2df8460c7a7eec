import CircuitCalls.Proofs.Scope
import Mathlib.Order.Bounds.Defs

/-!
# The search for a fresh name

A loop variable whose name an enclosing loop already has is numbered: the names `i_1`, `i_2`, and so on
are tried until one is free. Nothing bounds this search by itself. It ends at the least free number, and
no later than at the number of enclosing loops: the name itself is taken, so that one of as many numbered
names is left over (`fresh_names_are_least`).
-/

namespace CircuitCalls.Scope

def numbered (source : String) (n : Nat) : String := source ++ "_" ++ toString n

/-- Trying the numbers from `start` upwards, `last` is the first whose name is not in use. -/
inductive Search (used : List String) (source : String) : Nat → Nat → Prop where
  | found {n : Nat} : numbered source n ∉ used → Search used source n n
  | next {n last : Nat} : numbered source n ∈ used → Search used source (n + 1) last →
      Search used source n last

/-- The search ends at the least number whose name is free. -/
theorem search_iff {used : List String} {source : String} {start last : Nat} :
    Search used source start last ↔
      IsLeast {n | start ≤ n ∧ numbered source n ∉ used} last := by
  constructor
  · intro h
    induction h with
    | found hfree => exact ⟨⟨Nat.le_refl _, hfree⟩, fun n hn => hn.1⟩
    | @next n last hused _ ih =>
      obtain ⟨⟨hle, hfree⟩, hleast⟩ := ih
      refine ⟨⟨by omega, hfree⟩, fun m hm => hleast ⟨?_, hm.2⟩⟩
      rcases Nat.eq_or_lt_of_le hm.1 with rfl | hlt
      · exact absurd hused hm.2
      · exact hlt
  · rintro ⟨⟨hle, hfree⟩, hleast⟩
    -- The names from `start` up to the least free one are all in use.
    induction hsteps : last - start generalizing start with
    | zero =>
      obtain rfl : start = last := by omega
      exact .found hfree
    | succ steps ih =>
      have hused : numbered source start ∈ used := by
        by_contra hstart
        have := hleast ⟨Nat.le_refl start, hstart⟩
        omega
      have hlater : last ∈ lowerBounds {n | start + 1 ≤ n ∧ numbered source n ∉ used} :=
        fun n hn => hleast ⟨Nat.le_of_succ_le hn.1, hn.2⟩
      exact .next hused (ih hlater (by omega) (by omega))

theorem numbered_inj {source : String} {m n : Nat} (h : numbered source m = numbered source n) :
    m = n := toString_nat_inj ((String.append_right_inj _).1 h)

/-- A name that is taken gets the least free number, which is at most the number of loops. -/
theorem search_freshName {scope : Scope} {source : String} (h : source ∈ scope.emitted) :
    ∃ n, 1 ≤ n ∧ n ≤ scope.length ∧ scope.freshName source = numbered source n ∧
      Search scope.emitted source 1 n := by
  have hfind := find?_candidates_freshName h
  obtain ⟨n, hn, hname⟩ := mem_candidates.1 (List.mem_of_find?_eq_some hfind)
  obtain ⟨m, hname', hfree, hused⟩ := find?_candidates hfind
  obtain rfl : n = m := Nat.succ.inj (numbered_inj (hname.symm.trans hname'))
  rw [hname] at hfree
  refine ⟨n + 1, by omega, hn, hname, search_iff.2 ⟨⟨by omega, hfree⟩, ?_⟩⟩
  rintro k ⟨hk, hkfree⟩
  by_contra hlt
  obtain ⟨k, rfl⟩ : ∃ j, k = j + 1 := ⟨k - 1, by omega⟩
  exact hkfree (hused k (by omega))

/-- **Fresh names are least.** In a scope of loops with different names, a new loop variable keeps its
name if no loop has it. Otherwise the search for a number ends at the least free one, after no more numbers
than there are loops, and it never comes back to the name that is taken. The names stay different. -/
theorem fresh_names_are_least {scope : Scope} (h : scope.emitted.Nodup) (source : String) :
    (source ∉ scope.emitted → scope.freshName source = source) ∧
    (source ∈ scope.emitted → ∃ n, 1 ≤ n ∧ n ≤ scope.length ∧
      scope.freshName source = numbered source n ∧
      Search scope.emitted source 1 n ∧
      IsLeast {m | 1 ≤ m ∧ numbered source m ∉ scope.emitted} n ∧
      scope.freshName source ≠ source) ∧
    (scope.enter source).emitted = scope.freshName source :: scope.emitted ∧
    (scope.enter source).emitted.Nodup := by
  refine ⟨?_, ?_, rfl, nodup_emitted_enter h source⟩
  · intro hfree
    exact if_neg fun hused => hfree (uses_eq_true_iff.1 hused)
  · intro hused
    obtain ⟨n, hpos, hle, hname, hsearch⟩ := search_freshName hused
    refine ⟨n, hpos, hle, hname, hsearch, search_iff.1 hsearch, fun hsame => ?_⟩
    exact freshName_not_mem scope source (hsame.symm ▸ hused)

def threeLoops : Scope := Scope.enter (Scope.enter (Scope.enter [] "i") "i") "i"

/-- The bound is reached. -/
theorem fresh_names_are_least_threeLoops :
    threeLoops.emitted = ["i_2", "i_1", "i"] ∧ threeLoops.length = 3 ∧
    (∃ n, n ≤ 3 ∧ threeLoops.freshName "i" = numbered "i" n ∧ Search threeLoops.emitted "i" 1 n) ∧
    threeLoops.freshName "i_2" = "i_2_1" ∧ (threeLoops.enter "i").emitted.Nodup := by
  have hnames : threeLoops.emitted = ["i_2", "i_1", "i"] := by decide +kernel
  have hnodup : threeLoops.emitted.Nodup := by
    rw [hnames]
    decide
  obtain ⟨-, hnumbered, -, hdistinct⟩ := fresh_names_are_least hnodup "i"
  obtain ⟨n, -, hle, hname, hsearch, -⟩ := hnumbered (by rw [hnames]; decide)
  exact ⟨hnames, rfl, ⟨n, hle, hname, hsearch⟩, by decide +kernel, hdistinct⟩

end CircuitCalls.Scope
