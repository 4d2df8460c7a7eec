import CircuitCalls.Command.Inspection
import CircuitCalls.Proofs.CallText
import CircuitCalls.Proofs.FileTree

/-!
# Reading the text that shows a circuit

The number of operations, the totals and the numbered bits are read off the lines of the text, and they are
those of the inspection that was written (`Inspection.ofText?_text`). A name that holds the end of a line
would be taken for two lines, so that names are asked to hold none.
-/

namespace CircuitCalls

open Qasm (takeWhile_stop toList_toString)

/-! ## Readers -/

/-- The bits of one kind as a text shows them. -/
structure ShownBits where
  total : Nat
  names : List (Nat × String)
deriving DecidableEq

/-- What a text shows of a circuit. -/
structure Shown where
  operations : Nat
  qubits : ShownBits
  clbits : ShownBits
deriving DecidableEq

namespace Shown

/-- The number that stands before `ending` at the end of a line. -/
def numberBefore? (ending : String) (line : List Char) : Option Nat :=
  (ending.toList.isSuffixOf? line).map fun before =>
    readDigits (before.reverse.takeWhile Char.isDigit).reverse

/-- A number, an arrow and a name. -/
def numberedName? (line : List Char) : Option (Nat × String) :=
  let rest := line.dropWhile (· == ' ')
  (" -> ".toList.isPrefixOf? (rest.dropWhile Char.isDigit)).map fun name =>
    (readDigits (rest.takeWhile Char.isDigit), String.ofList name)

/-- The first line that starts with `heading` and the lines after it, up to an empty one. -/
def paragraph (heading : String) (lines : List (List Char)) : List (List Char) :=
  (lines.dropWhile fun line => !heading.toList.isPrefixOf line).takeWhile fun line => !line.isEmpty

def bits? (heading : String) (lines : List (List Char)) : Option ShownBits :=
  match paragraph heading lines with
  | [] => none
  | first :: rest => do return ⟨← numberBefore? " total):" first, ← rest.mapM numberedName?⟩

def ofText? (text : String) : Option Shown := do
  let lines := pieces '\n' text.toList
  return ⟨← numberBefore? " operations at top level)" (lines.headD []),
    ← bits? "Qubit numbering" lines, ← bits? "Clbit numbering" lines⟩

end Shown

/-! ## Lines -/

/-- Lines that hold no end of a line are the pieces of their text, with an empty piece at the end. -/
theorem pieces_lines {lines : List String} (h : ∀ line ∈ lines, '\n' ∉ line.toList) :
    pieces '\n' (String.join (lines.map (· ++ "\n"))).toList = lines.map String.toList ++ [[]] := by
  induction lines with
  | nil => rfl
  | cons line rest ih =>
    obtain ⟨hline, hrest⟩ := List.forall_mem_cons.1 h
    have htext : (String.join ((line :: rest).map (· ++ "\n"))).toList =
        line.toList ++ '\n' :: (String.join (rest.map (· ++ "\n"))).toList := by simp [String.toList_join]
    rw [htext, pieces_append, pieces_of_not_mem hline, ih hrest]
    rfl

namespace Shown

/-- A number between a mark and the ending is read back. -/
theorem numberBefore?_append (ending : String) (before : List Char) {mark : Char}
    (hmark : mark.isDigit = false) (n : Nat) :
    numberBefore? ending (before ++ mark :: Nat.toDigits 10 n ++ ending.toList) = some n := by
  have hdigits : ∀ c ∈ (Nat.toDigits 10 n).reverse, c.isDigit = true := fun c hc =>
    isDigit_toDigits (List.mem_reverse.1 hc)
  have hreverse : (before ++ mark :: Nat.toDigits 10 n).reverse =
      (Nat.toDigits 10 n).reverse ++ mark :: before.reverse := by simp
  have hsuffix : ending.toList.isSuffixOf? (before ++ mark :: Nat.toDigits 10 n ++ ending.toList) =
      some (before ++ mark :: Nat.toDigits 10 n) := List.isSuffixOf?_eq_some_iff_append_eq.2 rfl
  rw [numberBefore?, hsuffix, Option.map_some, hreverse, takeWhile_stop hdigits hmark, List.reverse_reverse,
    readDigits_toDigits]

/-- A line of the table tells its number and its name, however it is aligned. -/
theorem numberedName?_append (blanks : Nat) (n : Nat) (name : String) :
    numberedName? (List.replicate blanks ' ' ++ (Nat.toDigits 10 n ++ (" -> ".toList ++ name.toList))) =
      some (n, name) := by
  have hdigits : ∀ c ∈ Nat.toDigits 10 n, c.isDigit = true := fun c hc => isDigit_toDigits hc
  have hnot : ∀ c ∈ Nat.toDigits 10 n, (c == ' ') = false := fun c hc => by
    have := hdigits c hc
    rw [beq_eq_false_iff_ne]
    rintro rfl
    contradiction
  obtain ⟨c, digits, hcons⟩ := List.exists_cons_of_ne_nil (Nat.toDigits_ne_nil (b := 10) (n := n))
  have hblanks : (List.replicate blanks ' ' ++ (Nat.toDigits 10 n ++ (" -> ".toList ++ name.toList))).dropWhile
      (· == ' ') = Nat.toDigits 10 n ++ (" -> ".toList ++ name.toList) := by
    rw [List.dropWhile_append_of_pos (by simp), hcons, List.cons_append]
    exact List.dropWhile_cons_of_neg (by simp [hnot c (hcons ▸ List.mem_cons_self)])
  have hnumber : (Nat.toDigits 10 n ++ (" -> ".toList ++ name.toList)).takeWhile Char.isDigit =
      Nat.toDigits 10 n := takeWhile_stop hdigits rfl
  have hname : (Nat.toDigits 10 n ++ (" -> ".toList ++ name.toList)).dropWhile Char.isDigit =
      " -> ".toList ++ name.toList := by
    rw [List.dropWhile_append_of_pos hdigits]
    exact List.dropWhile_cons_of_neg (by decide)
  have hprefix : " -> ".toList.isPrefixOf? (" -> ".toList ++ name.toList) = some name.toList :=
    List.isPrefixOf?_eq_some_iff_append_eq.2 rfl
  rw [numberedName?]
  simp only [hblanks, hname, hprefix, hnumber, Option.map_some, readDigits_toDigits, String.ofList_toList]

/-- A paragraph starts at its heading and ends before the empty line. -/
theorem paragraph_append {heading : String} {before block after : List (List Char)} {first : List Char}
    (hbefore : ∀ line ∈ before, heading.toList.isPrefixOf line = false)
    (hfirst : heading.toList.isPrefixOf first = true) (hblock : ∀ line ∈ first :: block, line ≠ []) :
    paragraph heading (before ++ (first :: block ++ [] :: after)) = first :: block := by
  have hstart : (before ++ (first :: block ++ [] :: after)).dropWhile
      (fun line => !heading.toList.isPrefixOf line) = first :: block ++ [] :: after := by
    rw [List.dropWhile_append_of_pos (by simpa using hbefore)]
    exact List.dropWhile_cons_of_neg (by simp [hfirst])
  rw [paragraph, hstart, List.takeWhile_append_of_pos (by simpa using hblock)]
  simp

theorem bits?_append {heading : String} {before block after : List (List Char)} {first : List Char}
    (hbefore : ∀ line ∈ before, heading.toList.isPrefixOf line = false)
    (hfirst : heading.toList.isPrefixOf first = true) (hblock : ∀ line ∈ first :: block, line ≠ [])
    {total : Nat} (htotal : numberBefore? " total):" first = some total)
    {names : List (Nat × String)} (hnames : block.mapM numberedName? = some names) :
    bits? heading (before ++ (first :: block ++ [] :: after)) = some ⟨total, names⟩ := by
  rw [bits?, paragraph_append hbefore hfirst hblock]
  simp [htotal, hnames]

end Shown

/-! ## Reading an inspection back -/

def Numbering.shown {kind : BitKind} (n : Numbering kind) : ShownBits :=
  ⟨n.size, n.bits.zipIdx.map fun (b, i) => (i, b.text)⟩

theorem toList_numberLine (i : Nat) (name : String) :
    s!"  {rightAligned i} -> {name}".toList =
      List.replicate (2 + (4 - (toString i).length)) ' ' ++
        (Nat.toDigits 10 i ++ (" -> ".toList ++ name.toList)) := by
  change ("  " ++ (String.ofList (List.replicate (4 - (toString i).length) ' ') ++ toString i) ++ " -> " ++
    name).toList = _
  simp only [String.toList_append, String.toList_ofList, toList_toString, List.replicate_add,
    List.append_assoc]
  rfl

theorem mapM_numberedName? {kind : BitKind} (n : Numbering kind) :
    ((numberLines n).map String.toList).mapM Shown.numberedName? = some n.shown.names := by
  have hline : ∀ item : Bit kind × Nat,
      Shown.numberedName? (s!"  {rightAligned item.2} -> {item.1.text}").toList =
        some (item.2, item.1.text) := fun item => by
    rw [toList_numberLine, Shown.numberedName?_append]
  rw [numberLines, List.map_map, List.mapM_map]
  simp only [Function.comp_def, hline]
  exact List.mapM_pure

theorem toList_numberHeading (word : String) (discovery : Discovery) (total : Nat) :
    s!"{word} numbering ({discovery.name}, {total} total):".toList =
      (word ++ " numbering (" ++ discovery.name ++ ",").toList ++ ' ' :: Nat.toDigits 10 total ++
        " total):".toList := by
  change (word ++ " numbering (" ++ discovery.name ++ ", " ++ toString total ++ " total):").toList = _
  simp

/-- A table is found by its heading, up to the empty line after it. -/
theorem bits?_numberTable {kind : BitKind} (word : String) (discovery : Discovery) (n : Numbering kind)
    {before : List (List Char)}
    (hbefore : ∀ line ∈ before, (word ++ " numbering").toList.isPrefixOf line = false)
    (after : List (List Char)) :
    Shown.bits? (word ++ " numbering")
        (before ++ (numberTable word discovery n).map String.toList ++ [] :: after) = some n.shown := by
  have hlines : before ++ (numberTable word discovery n).map String.toList ++ [] :: after =
      (before ++ [[]]) ++ (s!"{word} numbering ({discovery.name}, {n.size} total):".toList ::
        (numberLines n).map String.toList ++ [] :: after) := by simp [numberTable]
  have hfirst : (word ++ " numbering").toList.isPrefixOf
      s!"{word} numbering ({discovery.name}, {n.size} total):".toList = true := by
    rw [toList_numberHeading, List.isPrefixOf_iff_prefix]
    simp
  rw [hlines]
  refine Shown.bits?_append ?_ hfirst ?_ ?_ (mapM_numberedName? n)
  · exact List.forall_mem_append.2 ⟨hbefore, by simp⟩
  · refine List.forall_mem_cons.2 ⟨?_, List.forall_mem_map.2 fun line hline => ?_⟩
    · rw [toList_numberHeading]
      simp
    · obtain ⟨⟨b, k⟩, -, rfl⟩ := List.mem_map.1 hline
      rw [toList_numberLine]
      simp
  · rw [toList_numberHeading, Shown.numberBefore?_append _ _ rfl]

/-- No name that is shown holds the end of a line. -/
structure Inspection.IsPlain (i : Inspection) : Prop where
  name : '\n' ∉ i.name.toList
  qregs : ∀ r ∈ i.qregs, '\n' ∉ r.name.toList
  cregs : ∀ r ∈ i.cregs, '\n' ∉ r.name.toList
  qubits : ∀ b ∈ i.qubits.bits, '\n' ∉ b.register.toList
  clbits : ∀ b ∈ i.clbits.bits, '\n' ∉ b.register.toList

namespace Inspection

instance (i : Inspection) : Decidable i.IsPlain :=
  decidable_of_iff ('\n' ∉ i.name.toList ∧ (∀ r ∈ i.qregs, '\n' ∉ r.name.toList) ∧
      (∀ r ∈ i.cregs, '\n' ∉ r.name.toList) ∧ (∀ b ∈ i.qubits.bits, '\n' ∉ b.register.toList) ∧
      ∀ b ∈ i.clbits.bits, '\n' ∉ b.register.toList)
    ⟨fun ⟨name, qregs, cregs, qubits, clbits⟩ => ⟨name, qregs, cregs, qubits, clbits⟩,
      fun ⟨name, qregs, cregs, qubits, clbits⟩ => ⟨name, qregs, cregs, qubits, clbits⟩⟩

theorem newline_not_mem_toDigits (n : Nat) : '\n' ∉ Nat.toDigits 10 n := fun h => by
  have := isDigit_toDigits h
  contradiction

theorem newline_not_mem_numberTable {kind : BitKind} {n : Numbering kind} {word : String}
    (hword : '\n' ∉ word.toList) (discovery : Discovery) (h : ∀ b ∈ n.bits, '\n' ∉ b.register.toList) :
    ∀ line ∈ numberTable word discovery n, '\n' ∉ line.toList := by
  refine List.forall_mem_cons.2 ⟨by simp, List.forall_mem_cons.2 ⟨?_, ?_⟩⟩
  · have hname : '\n' ∉ discovery.name.toList := by cases discovery <;> decide
    rw [toList_numberHeading]
    simp [hword, hname, newline_not_mem_toDigits]
  · intro line hline
    obtain ⟨⟨b, k⟩, hitem, rfl⟩ := List.mem_map.1 hline
    have hb := h b (List.fst_mem_of_mem_zipIdx hitem)
    rw [toList_numberLine, Bit.text]
    simp [hb, newline_not_mem_toDigits]

theorem toList_firstLine (name : String) (operations : Nat) :
    s!"Circuit {name} ({operations} operations at top level)".toList =
      ("Circuit " ++ name ++ " ").toList ++ '(' :: Nat.toDigits 10 operations ++
        " operations at top level)".toList := by
  change ("Circuit " ++ name ++ " (" ++ toString operations ++ " operations at top level)").toList = _
  simp

theorem toList_registerLine (before between : String) (size : Nat) (name : String) :
    (before ++ toString size ++ between ++ name).toList =
      before.toList ++ Nat.toDigits 10 size ++ between.toList ++ name.toList := by
  simp

/-- The lines of the text are its pieces. -/
theorem IsPlain.newline_not_mem_lines {i : Inspection} (h : i.IsPlain) :
    ∀ line ∈ i.lines, '\n' ∉ line.toList := by
  simp only [lines, opening, List.forall_mem_append, List.forall_mem_cons, List.forall_mem_map]
  refine ⟨⟨⟨⟨⟨?_, by simp, by simp, by simp⟩, fun r hr => ?_⟩, fun r hr => ?_⟩, ?_⟩, ?_⟩
  · rw [toList_firstLine]
    simp [h.name, newline_not_mem_toDigits]
  · refine (toList_registerLine "  qubit[" "] " r.size.toNat r.name).symm ▸ ?_
    simp [h.qregs r hr, newline_not_mem_toDigits]
  · refine (toList_registerLine "  bit[" "]   " r.size.toNat r.name).symm ▸ ?_
    simp [h.cregs r hr, newline_not_mem_toDigits]
  · exact newline_not_mem_numberTable (by simp) _ h.qubits
  · exact newline_not_mem_numberTable (by simp) _ h.clbits

/-- None of the lines before the tables looks like the heading of one. -/
theorem not_isPrefixOf_opening (i : Inspection) {heading : String}
    (h : heading = "Qubit numbering" ∨ heading = "Clbit numbering") :
    ∀ line ∈ i.opening.map String.toList, heading.toList.isPrefixOf line = false := by
  simp only [opening, List.forall_mem_map, List.forall_mem_append, List.forall_mem_cons]
  refine ⟨⟨⟨?_, ?_, ?_, by simp⟩, fun r hr => ?_⟩, fun r hr => ?_⟩
  · rw [toList_firstLine]
    rcases h with rfl | rfl <;> simp [List.isPrefixOf]
  · rcases h with rfl | rfl <;> rfl
  · rcases h with rfl | rfl <;> rfl
  · refine (toList_registerLine "  qubit[" "] " r.size.toNat r.name).symm ▸ ?_
    rcases h with rfl | rfl <;> simp [List.isPrefixOf]
  · refine (toList_registerLine "  bit[" "]   " r.size.toNat r.name).symm ▸ ?_
    rcases h with rfl | rfl <;> simp [List.isPrefixOf]

theorem not_isPrefixOf_qubitTable (discovery : Discovery) (n : Numbering .quantum) :
    ∀ line ∈ (numberTable "Qubit" discovery n).map String.toList,
      "Clbit numbering".toList.isPrefixOf line = false := by
  simp only [numberTable, List.forall_mem_map, List.forall_mem_cons]
  refine ⟨rfl, ?_, fun line hline => ?_⟩
  · rw [toList_numberHeading]
    simp [List.isPrefixOf]
  · obtain ⟨⟨b, k⟩, -, rfl⟩ := List.mem_map.1 hline
    rw [toList_numberLine]
    simp [List.replicate_add, List.isPrefixOf]

def shown (i : Inspection) : Shown := ⟨i.operations, i.qubits.shown, i.clbits.shown⟩

/-- The number of operations, the totals and the numbered bits can be read off the text. -/
theorem ofText?_text {i : Inspection} (h : i.IsPlain) : Shown.ofText? i.text = some i.shown := by
  have hlines : i.lines.map String.toList ++ [[]] =
      i.opening.map String.toList ++ (numberTable "Qubit" i.discovery i.qubits).map String.toList ++
        ((numberTable "Clbit" i.discovery i.clbits).map String.toList ++ [[]]) := by
    simp [lines]
  have hoperations : Shown.numberBefore? " operations at top level)"
      ((i.lines.map String.toList ++ [[]]).headD []) = some i.operations := by
    change Shown.numberBefore? _ (s!"Circuit {i.name} ({i.operations} operations at top level)".toList) = _
    rw [toList_firstLine, Shown.numberBefore?_append _ _ rfl]
  have hqubits : Shown.bits? "Qubit numbering" (i.lines.map String.toList ++ [[]]) = some i.qubits.shown := by
    rw [hlines]
    exact bits?_numberTable "Qubit" i.discovery i.qubits (i.not_isPrefixOf_opening (.inl rfl)) _
  have hclbits : Shown.bits? "Clbit numbering" (i.lines.map String.toList ++ [[]]) = some i.clbits.shown := by
    rw [hlines, ← List.append_assoc]
    exact bits?_numberTable "Clbit" i.discovery i.clbits (List.forall_mem_append.2
      ⟨i.not_isPrefixOf_opening (.inr rfl), not_isPrefixOf_qubitTable _ _⟩) []
  rw [Shown.ofText?, text, pieces_lines h.newline_not_mem_lines]
  simp only [hoperations, hqubits, hclbits, Option.bind_eq_bind, Option.bind_some, Option.pure_def, shown]

end Inspection

end CircuitCalls
