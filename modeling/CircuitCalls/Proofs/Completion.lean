import CircuitCalls.Command.Compilation
import CircuitCalls.Proofs.Except
import Mathlib.Data.List.Nodup
import Mathlib.Logic.Relation

/-!
# Tasks that finish in any order

The inputs of a batch are compiled by tasks that run at the same time. `TaskPool.Step` lets any task
that is still at work be the next one to finish, so that the results can come in as any permutation of
the tasks (`reaches_iff_perm`). Each result carries the place of its task, no two tasks have the same
place, and `gather` therefore puts the results back into the order of the inputs
(`gather_eq_mapM`): a batch ends as if its inputs had been compiled one after the other.
-/

namespace CircuitCalls

variable {ε α : Type}

/-! ## Tasks at work -/

/-- The tasks of a batch: those still at work, each with its place and its input, and the results that
have come in, the earliest first. -/
structure TaskPool (ε α : Type) where
  working : List (Nat × String)
  finished : List (Nat × Except ε α)

namespace TaskPool

/-- What a task hands in: its place, and what became of its input. -/
def deliver (compile : String → Except ε α) (task : Nat × String) : Nat × Except ε α :=
  (task.1, compile task.2)

/-- The results of inputs in their order, the first of which has the place `first`. -/
def placed (compile : String → Except ε α) (first : Nat) (inputs : List String) :
    List (Nat × Except ε α) :=
  (inputs.zipIdx first).map fun task => (task.2, compile task.1)

/-- One task for each input, none of them finished. -/
def spawn (inputs : List String) : TaskPool ε α := ⟨inputs.zipIdx.map Prod.swap, []⟩

/-- Any task that is at work may finish next. -/
inductive Step (compile : String → Except ε α) : TaskPool ε α → TaskPool ε α → Prop where
  | finish (before : List (Nat × String)) (task : Nat × String) (after : List (Nat × String))
      (finished : List (Nat × Except ε α)) :
      Step compile ⟨before ++ task :: after, finished⟩
        ⟨before ++ after, finished ++ [deliver compile task]⟩

/-- Some tasks may have finished between the two. -/
def Reaches (compile : String → Except ε α) : TaskPool ε α → TaskPool ε α → Prop :=
  Relation.ReflTransGen (Step compile)

/-- The results that have come in, and those that the tasks at work are going to hand in. -/
def results (compile : String → Except ε α) (pool : TaskPool ε α) : List (Nat × Except ε α) :=
  pool.finished ++ pool.working.map (deliver compile)

theorem results_spawn (compile : String → Except ε α) (inputs : List String) :
    (spawn inputs).results compile = placed compile 0 inputs := by
  simp [results, spawn, placed, Function.comp_def, deliver]

variable {compile : String → Except ε α} {pool next : TaskPool ε α}

/-- A task that finishes neither adds nor loses a result. -/
theorem Step.perm_results (h : Step compile pool next) :
    (next.results compile).Perm (pool.results compile) := by
  cases h with
  | finish before task after finished =>
    simp only [results, List.map_append, List.map_cons, List.append_assoc, List.singleton_append]
    exact List.Perm.append_left finished List.perm_middle.symm

theorem Reaches.perm_results (h : Reaches compile pool next) :
    (next.results compile).Perm (pool.results compile) := by
  induction h with
  | refl => exact List.Perm.refl _
  | tail _ hstep ih => exact hstep.perm_results.trans ih

/-- The tasks can finish in whatever order their results are listed. -/
theorem reaches_of_perm (working : List (Nat × String)) (finished order : List (Nat × Except ε α))
    (h : order.Perm (working.map (deliver compile))) :
    Reaches compile ⟨working, finished⟩ ⟨[], finished ++ order⟩ := by
  induction order generalizing working finished with
  | nil =>
    have hnone : working = [] := List.map_eq_nil_iff.1 h.nil_eq.symm
    rw [hnone, List.append_nil]
    exact Relation.ReflTransGen.refl
  | cons first rest ih =>
    obtain ⟨task, htask, rfl⟩ := List.mem_map.1 (h.subset List.mem_cons_self)
    obtain ⟨before, after, rfl⟩ := List.append_of_mem htask
    have hrest : rest.Perm ((before ++ after).map (deliver compile)) := by
      rw [List.map_append, List.map_cons] at h
      rw [List.map_append]
      exact (h.trans List.perm_middle).cons_inv
    have hreaches := ih (before ++ after) (finished ++ [deliver compile task]) hrest
    rw [List.append_assoc, List.singleton_append] at hreaches
    exact Relation.ReflTransGen.head (Step.finish before task after finished) hreaches

/-- All tasks have finished exactly if the results are those of all inputs in some order. -/
theorem reaches_iff_perm {inputs : List String} {finished : List (Nat × Except ε α)} :
    Reaches compile (spawn inputs) ⟨[], finished⟩ ↔
      finished.Perm (placed compile 0 inputs) := by
  rw [← results_spawn]
  constructor
  · intro h
    have hperm := h.perm_results
    rwa [results, List.map_nil, List.append_nil] at hperm
  · intro h
    exact reaches_of_perm _ [] finished h

end TaskPool

/-! ## Results by place -/

/-- Results at distinct places are sorted in one way only. -/
theorem mergeSort_eq_of_perm {finished tasks : List (Nat × Except ε α)} (h : finished.Perm tasks)
    (horder : tasks.Pairwise fun a b => a.1 < b.1) :
    (finished.mergeSort fun a b => a.1 ≤ b.1) = tasks := by
  have hperm : (finished.mergeSort fun a b => a.1 ≤ b.1).Perm tasks :=
    (List.mergeSort_perm finished _).trans h
  have hsorted : (finished.mergeSort fun a b => a.1 ≤ b.1).Pairwise
      fun a b => decide (a.1 ≤ b.1) = true := by
    refine List.pairwise_mergeSort ?_ ?_ finished
    · intro a b c hab hbc
      simp only [decide_eq_true_eq] at hab hbc ⊢
      exact Nat.le_trans hab hbc
    · intro a b
      simp only [Bool.or_eq_true, decide_eq_true_eq]
      exact Nat.le_total a.1 b.1
  have htasks : tasks.Pairwise fun a b => decide (a.1 ≤ b.1) = true :=
    horder.imp fun hlt => decide_eq_true (Nat.le_of_lt hlt)
  -- Two results at the same place are the same one, since the places of the tasks increase.
  have hplaces : ∀ a ∈ tasks, ∀ b ∈ tasks, a.1 = b.1 → a = b := by
    have hnodup : (tasks.map (·.1)).Nodup :=
      List.pairwise_map.2 (horder.imp fun hlt => Nat.ne_of_lt hlt)
    exact fun a ha b hb hab => List.inj_on_of_nodup_map hnodup ha hb hab
  refine hperm.eq_of_pairwise ?_ hsorted htasks
  intro a b ha hb hab hba
  have heq : a.1 = b.1 := Nat.le_antisymm (of_decide_eq_true hab) (of_decide_eq_true hba)
  exact hplaces a (hperm.subset ha) b hb heq

theorem pairwise_placed (compile : String → Except ε α) (first : Nat) (inputs : List String) :
    (TaskPool.placed compile first inputs).Pairwise fun a b => a.1 < b.1 := by
  induction inputs generalizing first with
  | nil => exact List.Pairwise.nil
  | cons input rest ih =>
    refine List.pairwise_cons.2 ⟨?_, ih (first + 1)⟩
    intro b hb
    obtain ⟨task, htask, rfl⟩ := List.mem_map.1 hb
    exact List.le_snd_of_mem_zipIdx htask

theorem mapM_placed (compile : String → Except ε α) (first : Nat) (inputs : List String) :
    (TaskPool.placed compile first inputs).mapM (·.2) = inputs.mapM compile := by
  simp only [TaskPool.placed, List.mapM_map]
  induction inputs generalizing first with
  | nil => rfl
  | cons input rest ih =>
    rw [List.zipIdx_cons, List.mapM_cons, List.mapM_cons, ih]
    rfl

/-- In whatever order the results come in, they are gathered as those of the inputs one by one. -/
theorem gather_eq_mapM {compile : String → Except ε α} {inputs : List String}
    {finished : List (Nat × Except ε α)}
    (h : finished.Perm (TaskPool.placed compile 0 inputs)) :
    gather finished = inputs.mapM compile := by
  rw [gather, mergeSort_eq_of_perm h (pairwise_placed compile 0 inputs), mapM_placed]

theorem compileFile_of_not_has {contents : Contents} {settings : Settings} {format : OutputFormat}
    {path : String} (h : contents.has path = .ok false) :
    compileFile contents settings format path = .error (.fileNotFound path) := by
  unfold compileFile loadCircuit
  rw [h]
  rfl

theorem attempt_eq_ok (task : Except CommandError α) : attempt task = .ok task := by
  cases task <;> rfl

theorem ofExcept_eq (result : Except CommandError α) :
    (ofExcept result : Except CommandError α) = result := by
  cases result <;> rfl

theorem compileAll_eq_gather (contents : Contents) (settings : Settings) (format : OutputFormat)
    (paths : List String) :
    compileAll contents settings format paths =
      gather (TaskPool.placed (compileFile contents settings format) 0 paths) := by
  have hfinished : (paths.zipIdx.mapM fun task =>
      (.ok (task.2, compileFile contents settings format task.1) : Except CommandError _)) =
      .ok (TaskPool.placed (compileFile contents settings format) 0 paths) := List.mapM_pure
  unfold compileAll
  simp only [attempt_eq_ok, ok_bind, pure_eq_ok, ofExcept_eq]
  rw [hfinished, ok_bind]

theorem compileAll_eq_mapM (contents : Contents) (settings : Settings) (format : OutputFormat)
    (paths : List String) :
    compileAll contents settings format paths = paths.mapM (compileFile contents settings format) := by
  rw [compileAll_eq_gather]
  exact gather_eq_mapM (List.Perm.refl _)

/-- **The order in which tasks finish does not matter.** Whenever all tasks of a batch have finished,
the batch ends as if its inputs had been compiled one after the other: with the output of each input in
the order of the inputs if all of them compile, and otherwise with the error of the first input that
does not. -/
theorem completion_order_is_irrelevant (contents : Contents) (settings : Settings)
    (format : OutputFormat) (paths : List String)
    (finished : List (Nat × Except CommandError String))
    (h : TaskPool.Reaches (compileFile contents settings format) (.spawn paths) ⟨[], finished⟩) :
    gather finished = compileAll contents settings format paths ∧
    gather finished = paths.mapM (compileFile contents settings format) ∧
    (∀ outputs, gather finished = .ok outputs ↔
      List.Forall₂ (fun path output => compileFile contents settings format path = .ok output)
        paths outputs) ∧
    ∀ e, gather finished = .error e ↔ ∃ before path after, paths = before ++ path :: after ∧
      (∀ earlier ∈ before, ∃ output, compileFile contents settings format earlier = .ok output) ∧
      compileFile contents settings format path = .error e := by
  have hgather := gather_eq_mapM (TaskPool.reaches_iff_perm.1 h)
  rw [compileAll_eq_mapM, hgather]
  exact ⟨rfl, rfl, fun outputs => mapM_eq_ok_iff, fun e => mapM_eq_error_iff⟩

/-- One file that compiles, one that does not, and none besides. -/
def twoFiles : FileTree := .ofFiles
  [("x.qasm", "OPENQASM 3; qubit q; x q;"), ("bad.qasm", "OPENQASM 3; x q;")]

/-- An input that is given twice, with a missing one in between, and at last one that does not compile. -/
def crowdedBatch : List String := ["x.qasm", "missing.qasm", "x.qasm", "bad.qasm"]

theorem completion_order_is_irrelevant_crowdedBatch :
    let compile := compileFile twoFiles.sources {} .text
    let finished := [(3, compile "bad.qasm"), (2, compile "x.qasm"), (1, compile "missing.qasm"),
      (0, compile "x.qasm")]
    TaskPool.Reaches compile (.spawn crowdedBatch) ⟨[], finished⟩ ∧
    gather finished = .error (.fileNotFound "missing.qasm") := by
  intro compile finished
  have hreaches : TaskPool.Reaches compile (.spawn crowdedBatch) ⟨[], finished⟩ :=
    TaskPool.reaches_iff_perm.2 (List.reverse_perm (TaskPool.placed compile 0 crowdedBatch))
  have hcompiles : (compile "x.qasm").toOption.isSome = true := by decide +kernel
  have hmissing : twoFiles.has "missing.qasm" = false := by decide +kernel
  obtain ⟨-, -, -, herror⟩ :=
    completion_order_is_irrelevant twoFiles.sources {} .text crowdedBatch finished hreaches
  refine ⟨hreaches, (herror _).2
    ⟨["x.qasm"], "missing.qasm", ["x.qasm", "bad.qasm"], rfl, ?_, ?_⟩⟩
  · intro earlier hearlier
    rw [List.mem_singleton.1 hearlier]
    exact isSome_toOption_iff.1 hcompiles
  · exact compileFile_of_not_has (congrArg Except.ok hmissing)

end CircuitCalls
