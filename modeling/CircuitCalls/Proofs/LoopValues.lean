import CircuitCalls.Proofs.Execution

/-!
# Values of loop variables

A loop of a circuit gives its variable a list of values; a loop of a program goes from value to value, by
counting or along a list. The header of an emitted loop yields the values of the loop in the circuit, and it
is the only header of its form that does (`Surroundings.header_eq_ok_iff`).
-/

namespace CircuitCalls

/-! ## Rounds of a counting loop -/

theorem strides_eq_zero {distance stride : Int} (hs : 0 < stride) (hd : distance ≤ 0) :
    strides distance stride = 0 := by
  have hlt : (distance + (stride - 1)) / stride < 1 := Int.ediv_lt_of_lt_mul hs (by omega)
  unfold strides
  omega

theorem strides_eq_succ {distance stride : Int} (hs : 0 < stride) (hd : 0 < distance) :
    strides distance stride = strides (distance - stride) stride + 1 := by
  have hq : 1 ≤ (distance + (stride - 1)) / stride := (Int.le_ediv_iff_mul_le hs).2 (by omega)
  have hstep : (distance - stride + (stride - 1)) / stride =
      (distance + (stride - 1)) / stride - 1 := by
    have e : distance - stride + (stride - 1) = distance + (stride - 1) + -1 * stride := by omega
    rw [e, Int.add_mul_ediv_right _ _ (by omega)]
    omega
  unfold strides
  omega

theorem rangeLength_eq_zero {start stop step : Int}
    (h : ¬((0 < step ∧ start < stop) ∨ (step < 0 ∧ stop < start))) :
    rangeLength start stop step = 0 := by
  unfold rangeLength
  split
  · exact strides_eq_zero (by omega) (by omega)
  · split
    · exact strides_eq_zero (by omega) (by omega)
    · rfl

theorem rangeLength_eq_succ {start stop step : Int}
    (h : (0 < step ∧ start < stop) ∨ (step < 0 ∧ stop < start)) :
    rangeLength start stop step = rangeLength (start + step) stop step + 1 := by
  unfold rangeLength
  split
  · rw [strides_eq_succ (by omega) (by omega), Int.sub_sub]
  · split
    · rw [strides_eq_succ (by omega) (by omega)]
      congr 2
      omega
    · omega

/-! ## Values that a cursor yields -/

/-- A loop that stands at the cursor still has these rounds before it. -/
inductive Cursor.Yields : Cursor → List Int → Prop where
  | done {cursor : Cursor} : cursor.next? = none → Yields cursor []
  | next {cursor after : Cursor} {v : Int} {rest : List Int} :
      cursor.next? = some (v, after) → Yields after rest → Yields cursor (v :: rest)

theorem yields_listing (items : List Int) : (Cursor.listing items).Yields items := by
  induction items with
  | nil => exact .done rfl
  | cons v rest ih => exact .next rfl ih

/-- A counting loop visits the values of its range, by induction on how many are left. -/
theorem yields_counting (start stop step : Int) :
    (Cursor.counting start stop step).Yields
      ((List.range (rangeLength start stop step)).map fun k : Nat => start + step * (k : Int)) := by
  -- The induction is on the number of rounds, which each round lowers by one.
  generalize hm : rangeLength start stop step = m
  induction m generalizing start with
  | zero =>
    refine .done ?_
    have hno : ¬((0 < step ∧ start < stop) ∨ (step < 0 ∧ stop < start)) := by
      intro h
      rw [rangeLength_eq_succ h] at hm
      omega
    rw [Cursor.next?, if_neg hno]
  | succ m ih =>
    have hyes : (0 < step ∧ start < stop) ∨ (step < 0 ∧ stop < start) := by
      by_contra h
      rw [rangeLength_eq_zero h] at hm
      omega
    have hrest := ih (start + step) (by rw [rangeLength_eq_succ hyes] at hm; omega)
    have hcons : ((List.range (m + 1)).map fun k : Nat => start + step * (k : Int)) =
        start :: (List.range m).map fun k : Nat => start + step + step * (k : Int) := by
      rw [List.range_succ_eq_map, List.map_cons, List.map_map]
      congr 1
      · simp
      · refine List.map_congr_left fun k _ => ?_
        simp only [Function.comp_apply]
        push_cast
        rw [Int.mul_add, Int.mul_one]
        omega
    rw [hcons]
    exact .next (by rw [Cursor.next?, if_pos hyes]) hrest

theorem Cursor.Yields.unique {cursor : Cursor} {xs ys : List Int} (hx : cursor.Yields xs)
    (hy : cursor.Yields ys) : xs = ys := by
  induction hx generalizing ys with
  | done hnone =>
    cases hy with
    | done _ => rfl
    | next hsome _ => simp [hnone] at hsome
  | next hsome _ ih =>
    cases hy with
    | done hnone => simp [hnone] at hsome
    | next hsome' hrest =>
      obtain ⟨rfl, rfl⟩ : _ = _ ∧ _ = _ := by simpa [hsome] using hsome'
      rw [ih hrest]

/-! ## Headers -/

/-- A header has the form of an iteration: a range keeps its bounds, a list is kept, and a number of rounds
is counted up from 0. -/
inductive LoopHeader.HasForm : LoopHeader → Iteration → Prop where
  | range {loopVar : String} {start stop step : Int64} :
      step ≠ 0 → HasForm (.range loopVar start stop step) (.range start stop step)
  | values {loopVar : String} {items : List Int64} : HasForm (.values loopVar items) (.values items)
  | count {loopVar : String} {stop : Int64} {n : UInt64} :
      stop.toInt = n.toNat → HasForm (.range loopVar 0 stop 1) (.count n)

/-- The header gives its variable the values of the iteration. -/
structure LoopHeader.RunsOver (header : LoopHeader) (iteration : Iteration) : Prop where
  yields : header.cursor.Yields iteration.visited
  form : header.HasForm iteration

namespace LoopHeader

theorem HasForm.yields {header : LoopHeader} {iteration : Iteration} (h : header.HasForm iteration) :
    header.cursor.Yields iteration.visited := by
  cases h with
  | range _ => exact yields_counting _ _ _
  | values => exact yields_listing _
  | @count loopVar stop n hstop =>
    have hlen : rangeLength 0 n.toNat 1 = n.toNat := by simp [rangeLength, strides]
    have hy := yields_counting 0 n.toNat 1
    rw [hlen] at hy
    simpa [cursor, Iteration.visited, hstop] using hy

/-- A header that is emitted has the form of the iteration and the variable that it was asked for. -/
theorem HasForm.of_header {loopVar : String} {header : LoopHeader} {iteration : Iteration}
    (h : Surroundings.header loopVar iteration = .ok header) :
    header.loopVar = loopVar ∧ header.HasForm iteration := by
  cases iteration with
  | range start stop step =>
    simp only [Surroundings.header] at h
    split at h
    · cases h
    next hstep =>
      cases h
      exact ⟨rfl, .range hstep⟩
  | values items =>
    cases h
    exact ⟨rfl, .values⟩
  | count n =>
    simp only [Surroundings.header] at h
    split at h
    next hlt =>
      cases h
      exact ⟨rfl, .count (Int64.toInt_ofNat_of_lt hlt)⟩
    · cases h

/-- The form determines the header, up to its variable. -/
theorem HasForm.header_eq {header : LoopHeader} {iteration : Iteration} (h : header.HasForm iteration) :
    Surroundings.header header.loopVar iteration = .ok header := by
  cases h with
  | range hstep => simp [Surroundings.header, hstep, loopVar]
  | values => rfl
  | @count name stop n hstop =>
    have hlt : n.toNat < roundLimit := by
      have := stop.toInt_lt
      unfold roundLimit
      omega
    have hofNat : Int64.ofNat n.toNat = stop := by
      rw [← Int64.toInt_inj, Int64.toInt_ofNat_of_lt hlt, hstop]
    simp [Surroundings.header, hlt, hofNat, loopVar]

end LoopHeader

/-- The headers that are emitted are those that run over the values of the iteration. -/
theorem Surroundings.header_eq_ok_iff {loopVar : String} {iteration : Iteration} {h : LoopHeader} :
    header loopVar iteration = .ok h ↔ h.loopVar = loopVar ∧ h.RunsOver iteration := by
  constructor
  · intro hh
    obtain ⟨hvar, hform⟩ := LoopHeader.HasForm.of_header hh
    exact ⟨hvar, hform.yields, hform⟩
  · rintro ⟨rfl, -, hform⟩
    exact hform.header_eq

end CircuitCalls
