import CircuitCalls.Call.Json
import CircuitCalls.Proofs.JsonReading

/-!
# Programs read back from their text

A call is written as one object: its depth, its name and its contents side by side. Reading the text
of a program gives the program again, as long as its numbers are of machine size
(`written_programs_read_back`). Contents are read back one call at a time; the depth and the name are
found because no contents use their keys.
-/

namespace CircuitCalls

open Json

/-! ## Numbers of machine size -/

/-- The counts and bit numbers that a call is made with. -/
def Call.numbers : Call → List Nat
  | setQubitCount count => [count]
  | setClbitCount count => [count]
  | gate roles _ => roles.targets ++ roles.positive ++ roles.negative
  | measure qubits clbits => qubits ++ clbits
  | beginIf guard => guard.clbits
  | beginWhile guard => guard.clbits
  | _ => []

def Call.Fits (call : Call) : Prop := ∀ n ∈ call.numbers, n < UInt64.size

def Line.Fits (l : Line) : Prop := l.depth < UInt64.size ∧ l.call.Fits

/-- All depths and numbers of the program are machine words. -/
def Program.Fits (p : Program) : Prop := ∀ l ∈ p.lines, l.Fits

instance (call : Call) : Decidable call.Fits :=
  inferInstanceAs (Decidable (∀ n ∈ call.numbers, n < UInt64.size))

instance (l : Line) : Decidable l.Fits := inferInstanceAs (Decidable (_ ∧ _))

instance (p : Program) : Decidable p.Fits := inferInstanceAs (Decidable (∀ l ∈ p.lines, l.Fits))

theorem asCount?_nat {n : Nat} (h : n < UInt64.size) : (nat n).asCount? = some n := asNatBelow?_nat h

theorem exists_count {n : Nat} (h : n < UInt64.size) :
    ∃ value, nat n = value ∧ value.asWritten.asCount? = some n :=
  ⟨nat n, rfl, asCount?_nat h⟩

theorem asList?_numbers {ns : List Nat} (h : ∀ n ∈ ns, n < UInt64.size) :
    (Json.ofList .nat ns).asList? asCount? = some ns :=
  asList?_ofList_of_mem fun n hn => asCount?_nat (h n hn)

theorem depth_numbers_le (ns : List Nat) : (Json.ofList .nat ns).depth ≤ 1 :=
  depth_ofList_le (fun _ => Nat.le_refl 0) ns

theorem legible_numbers {ns : List Nat} (h : ∀ n ∈ ns, n < UInt64.size) :
    (Json.ofList .nat ns).Legible :=
  legible_ofList fun n hn => legible_nat (h n hn)

/-! ## Guards and loop headers -/

theorem Guard.ofJson?_asWritten {g : Guard} (h : ∀ n ∈ g.clbits, n < UInt64.size) :
    ofJson? g.toJson.asWritten = some g := by
  simp [toJson, ofJson?, fields?, lookup?, asWritten, asWrittenFields, asList?_numbers h]

theorem Guard.legible {g : Guard} (h : ∀ n ∈ g.clbits, n < UInt64.size) : g.toJson.Legible := by
  simp [toJson, legible_numbers h]

theorem Guard.depth_toJson_le (g : Guard) : g.toJson.depth ≤ 2 := by
  rw [toJson, depth_obj_le, List.forall_mem_cons, List.forall_mem_singleton]
  exact ⟨depth_numbers_le g.clbits, Nat.zero_le 1⟩

theorem LoopHeader.ofJson?_asWritten (header : LoopHeader) :
    ofJson? header.toJson.asWritten = some header := by
  cases header with
  | range v start stop step =>
    obtain ⟨tag, htag, htagged⟩ := tagged?_head .loose "kind" ["range", "values"] "range"
      [("variable", .str v), ("start", .int start.toInt), ("stop", .int stop.toInt),
        ("step", .int step.toInt)] (by decide) (by simp)
    simp only [toJson, ofJson?, htagged, Option.bind_eq_bind, Option.bind_some]
    rw [if_pos htag]
    simp [fields?, lookup?, asWritten, asWrittenFields]
  | values v items =>
    obtain ⟨tag, htag, htagged⟩ := tagged?_head .loose "kind" ["range", "values"] "values"
      [("variable", .str v), ("values", .ofList (fun n : Int64 => .int n.toInt) items)] (by decide)
      (by simp)
    simp only [toJson, ofJson?, htagged, Option.bind_eq_bind, Option.bind_some]
    rw [if_neg (htag ▸ by decide), if_pos htag]
    simp [fields?, lookup?, asWritten, asWrittenFields, asList?_ofList]

theorem LoopHeader.legible (header : LoopHeader) : header.toJson.Legible := by
  cases header <;> simp [toJson, legible_ofList]

theorem LoopHeader.depth_toJson_le (header : LoopHeader) : header.toJson.depth ≤ 2 := by
  cases header with
  | range v start stop step =>
    rw [toJson, depth_obj_le]
    simp [depth]
  | values v items =>
    have hvalues := depth_ofList_le (fun n : Int64 => Nat.le_refl (int n.toInt).depth) items
    rw [toJson, depth_obj_le]
    simpa [depth] using hvalues

/-! ## Calls -/

namespace Call

-- The name is a variable equal to the literal, so that no step evaluates the tests on it, and a count is
-- one, so that none compares it with the bound.
/-- A call is read back from its name and its contents. -/
theorem ofContents?_asWritten {call : Call} (h : call.Fits) {name : String} (hname : name = call.name) :
    ofContents? name (obj call.contents).asWritten = some call := by
  unfold ofContents?
  dsimp only
  cases call with
  | setQubitCount count =>
    have hname : name = "set_num_qubits" := hname
    obtain ⟨value, hvalue, hcount⟩ := exists_count (h count List.mem_cons_self)
    rw [if_pos hname, contents, hvalue]
    simp [fields?, lookup?, asWritten, asWrittenFields, hcount]
  | setClbitCount count =>
    have hname : name = "set_num_clbits" := hname
    obtain ⟨value, hvalue, hcount⟩ := exists_count (h count List.mem_cons_self)
    rw [if_neg (hname ▸ by decide), if_pos hname, contents, hvalue]
    simp [fields?, lookup?, asWritten, asWrittenFields, hcount]
  | gate roles arguments =>
    have hname : name = "gate" := hname
    obtain ⟨hplain, hnegative⟩ := List.forall_mem_append.1 h
    obtain ⟨htargets, hpositive⟩ := List.forall_mem_append.1 hplain
    rw [if_neg (hname ▸ by decide), if_neg (hname ▸ by decide), if_pos hname]
    simp [contents, fields?, lookup?, asWritten, asWrittenFields, asList?_ofList asString?_str,
      asList?_numbers htargets, asList?_numbers hpositive, asList?_numbers hnegative]
  | measure qubits clbits =>
    have hname : name = "measure" := hname
    obtain ⟨hqubits, hclbits⟩ := List.forall_mem_append.1 h
    rw [if_neg (hname ▸ by decide), if_neg (hname ▸ by decide), if_neg (hname ▸ by decide), if_pos hname]
    simp [contents, fields?, lookup?, asWritten, asWrittenFields, asList?_numbers hqubits,
      asList?_numbers hclbits]
  | beginIf guard =>
    have hname : name = "if" := hname
    rw [if_neg (hname ▸ by decide), if_neg (hname ▸ by decide), if_neg (hname ▸ by decide),
      if_neg (hname ▸ by decide), if_pos hname]
    simp [contents, fields?, lookup?, asWritten, asWrittenFields, Guard.ofJson?_asWritten h]
  | otherwise =>
    have hname : name = "else" := hname
    rw [if_neg (hname ▸ by decide), if_neg (hname ▸ by decide), if_neg (hname ▸ by decide),
      if_neg (hname ▸ by decide), if_neg (hname ▸ by decide), if_pos hname]
  | beginWhile guard =>
    have hname : name = "while" := hname
    rw [if_neg (hname ▸ by decide), if_neg (hname ▸ by decide), if_neg (hname ▸ by decide),
      if_neg (hname ▸ by decide), if_neg (hname ▸ by decide), if_neg (hname ▸ by decide), if_pos hname]
    simp [contents, fields?, lookup?, asWritten, asWrittenFields, Guard.ofJson?_asWritten h]
  | beginFor header =>
    have hname : name = "for" := hname
    rw [if_neg (hname ▸ by decide), if_neg (hname ▸ by decide), if_neg (hname ▸ by decide),
      if_neg (hname ▸ by decide), if_neg (hname ▸ by decide), if_neg (hname ▸ by decide),
      if_neg (hname ▸ by decide), if_pos hname]
    simp [contents, fields?, lookup?, asWritten, asWrittenFields, LoopHeader.ofJson?_asWritten]
  | endBlock =>
    have hname : name = "end" := hname
    rw [if_neg (hname ▸ by decide), if_neg (hname ▸ by decide), if_neg (hname ▸ by decide),
      if_neg (hname ▸ by decide), if_neg (hname ▸ by decide), if_neg (hname ▸ by decide),
      if_neg (hname ▸ by decide), if_neg (hname ▸ by decide), if_pos hname]

/-- The contents of a call hold no doubles, so that its words of 64 bits are all that matters. -/
theorem legible_contents {call : Call} (h : call.Fits) : (obj call.contents).Legible := by
  cases call with
  | setQubitCount count => simp [contents, legible_nat (h count List.mem_cons_self)]
  | setClbitCount count => simp [contents, legible_nat (h count List.mem_cons_self)]
  | gate roles arguments =>
    obtain ⟨hplain, hnegative⟩ := List.forall_mem_append.1 h
    obtain ⟨htargets, hpositive⟩ := List.forall_mem_append.1 hplain
    simp [contents, legible_ofList, legible_numbers htargets, legible_numbers hpositive,
      legible_numbers hnegative]
  | measure qubits clbits =>
    obtain ⟨hqubits, hclbits⟩ := List.forall_mem_append.1 h
    simp [contents, legible_numbers hqubits, legible_numbers hclbits]
  | beginIf guard => simp [contents, Guard.legible h]
  | otherwise => exact legible_obj_nil
  | beginWhile guard => simp [contents, Guard.legible h]
  | beginFor header => simp [contents, LoopHeader.legible]
  | endBlock => exact legible_obj_nil

theorem name_mem_names (call : Call) : call.name ∈ names := by
  cases call <;> simp [name, names]

/-- Contents have no field in common with what stands in front of them. -/
theorem key_contents (call : Call) :
    ∀ field ∈ call.contents, field.1 ≠ "depth" ∧ field.1 ≠ "call" := by
  cases call <;> simp [contents]

theorem depth_contents_le (call : Call) : ∀ field ∈ call.contents, field.2.depth ≤ 2 := by
  have hnumbers : ∀ ns, (Json.ofList .nat ns).depth ≤ 2 :=
    fun ns => Nat.le_succ_of_le (depth_numbers_le ns)
  cases call with
  | setQubitCount count => simp [contents, nat, depth]
  | setClbitCount count => simp [contents, nat, depth]
  | gate roles arguments =>
    have harguments : (Json.ofList .str arguments).depth ≤ 2 :=
      Nat.le_succ_of_le (depth_ofList_le (fun _ => Nat.le_refl 0) arguments)
    simp [contents, harguments, hnumbers, depth]
  | measure qubits clbits => simp [contents, hnumbers]
  | beginIf guard => simp [contents, guard.depth_toJson_le]
  | otherwise => simp [contents]
  | beginWhile guard => simp [contents, guard.depth_toJson_le]
  | beginFor header => simp [contents, header.depth_toJson_le]
  | endBlock => simp [contents]

end Call

/-! ## Lines and programs -/

theorem Line.ofJson?_asWritten {l : Line} (h : l.Fits) : ofJson? l.toJson.asWritten = some l := by
  have hcall : ∀ field ∈ l.call.contents, field.1 ≠ "call" :=
    fun field hfield => (l.call.key_contents field hfield).2
  have hdepth : ∀ field ∈ ("call", str l.call.name) :: l.call.contents, field.1 ≠ "depth" :=
    List.forall_mem_cons.2 ⟨by simp, fun field hfield => (l.call.key_contents field hfield).1⟩
  obtain ⟨name, hname, htagged⟩ := tagged?_head .loose "call" Call.names l.call.name l.call.contents
    l.call.name_mem_names hcall
  obtain ⟨value, hvalue, hcount⟩ := exists_count h.1
  rw [asWritten] at htagged
  rw [toJson, hvalue, List.cons_append, List.singleton_append, asWritten, asWrittenFields, ofJson?]
  simp only [lookup?_head (key_asWrittenFields hdepth), filter_head (key_asWrittenFields hdepth), htagged,
    Option.bind_eq_bind, Option.bind_some, hcount, Call.ofContents?_asWritten h.2 hname]

theorem Line.depth_toJson_le (l : Line) : l.toJson.depth ≤ 3 := by
  rw [toJson, depth_obj_le, List.forall_mem_append]
  refine ⟨?_, l.call.depth_contents_le⟩
  simp [Json.depth, nat]

theorem Line.legible {l : Line} (h : l.Fits) : l.toJson.Legible := by
  simp [toJson, legible_nat h.1, Call.legible_contents h.2]

namespace Program

theorem depth_toJson_le (p : Program) : p.toJson.depth ≤ maxDepth := by
  have hlines : ∀ l ∈ p.lines, l.toJson.depth ≤ 3 := fun l _ => l.depth_toJson_le
  have hcalls : (Json.ofList Line.toJson p.lines).depth ≤ 4 := depth_arr_le.2 (List.forall_mem_map.2 hlines)
  have hwhole : p.toJson.depth ≤ 5 := depth_obj_le.2 (List.forall_mem_singleton.2 hcalls)
  exact Nat.le_trans hwhole (by decide)

theorem ofJson?_asWritten {p : Program} (h : p.Fits) : ofJson? p.toJson.asWritten = some p := by
  have hlines : (Json.ofList (fun l : Line => l.toJson.asWritten) p.lines).asList? Line.ofJson? =
      some p.lines := asList?_ofList_of_mem fun l hl => Line.ofJson?_asWritten (h l hl)
  simp [toJson, ofJson?, fields?, lookup?, asWritten, asWrittenFields, hlines]

theorem legible {p : Program} (h : p.Fits) : p.toJson.Legible := by
  simp [toJson, legible_ofList fun l hl => Line.legible (h l hl)]

end Program

/-- **A written program reads back.** Any program whose depths, counts and bit numbers are machine words
is what its text reads as, whatever its names, arguments and loop variables are. -/
theorem written_programs_read_back {p : Program} (h : p.Fits) : Program.read? p.write = some p := by
  rw [Program.read?, Program.write, parse?_pretty (Program.legible h) p.depth_toJson_le]
  exact Program.ofJson?_asWritten h

/-- All kinds of calls, with the extreme values of machine words and with names that need escapes. -/
def extremeProgram : Program :=
  ⟨[⟨0, .setQubitCount 18446744073709551615⟩, ⟨0, .setClbitCount 0⟩,
    ⟨0, .beginFor (.range "i \"\\\n\x01" (-9223372036854775808) 9223372036854775807 (-1))⟩,
    ⟨1, .gate ⟨"π𝄞/\t", [2], [0, 18446744073709551615], []⟩ ["", "(i * M_PI)"]⟩,
    ⟨0, .endBlock⟩,
    ⟨0, .beginIf ⟨[], 18446744073709551615⟩⟩,
    ⟨18446744073709551615, .measure [1] [0, 0]⟩,
    ⟨0, .otherwise⟩,
    ⟨1, .beginWhile ⟨[4, 3], 0⟩⟩,
    ⟨2, .beginFor (.values "" [-9223372036854775808, 0, 9223372036854775807])⟩]⟩

theorem written_programs_read_back_extremeProgram :
    extremeProgram.Fits ∧ Program.read? extremeProgram.write = some extremeProgram := by
  have hfits : extremeProgram.Fits := by decide
  exact ⟨hfits, written_programs_read_back hfits⟩

end CircuitCalls
