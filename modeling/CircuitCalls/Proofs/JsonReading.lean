import CircuitCalls.Json.Record
import CircuitCalls.Proofs.JsonText

/-!
# Written JSON reads back

`parse?_pretty`: the text of a value reads as the value again, up to the doubles that are no numbers,
which the text holds as `null`. The value may nest as deeply as the reader allows, its whole numbers
have to fit in 64 bits, and its doubles have to be spelled so that they read back.
-/

namespace CircuitCalls

namespace Json

/-- Induction over a value and all that it holds. -/
@[elab_as_elim]
theorem induction {motive : Json → Prop} (null : motive null) (bool : ∀ b, motive (bool b))
    (int : ∀ n, motive (int n)) (float : ∀ x, motive (float x)) (str : ∀ s, motive (str s))
    (arr : ∀ items, (∀ item ∈ items, motive item) → motive (arr items))
    (obj : ∀ fields, (∀ field ∈ fields, motive field.2) → motive (obj fields)) (j : Json) :
    motive j := by
  refine @Json.rec motive (fun items => ∀ item ∈ items, motive item)
    (fun fields => ∀ field ∈ fields, motive field.2) (fun field => motive field.2)
    null bool int float str arr obj ?_ ?_ ?_ ?_ ?_ j
  case refine_1 => exact fun _ h => absurd h List.not_mem_nil
  case refine_2 => exact fun item items hitem hitems => List.forall_mem_cons.2 ⟨hitem, hitems⟩
  case refine_3 => exact fun _ h => absurd h List.not_mem_nil
  case refine_4 => exact fun field fields hfield hfields => List.forall_mem_cons.2 ⟨hfield, hfields⟩
  case refine_5 => exact fun _ _ hvalue => hvalue

mutual

def tokens : Json → List Token
  | null => [.null]
  | bool b => [.bool b]
  | int n => [.int n]
  | float x => [.float x]
  | str s => [.str s]
  | arr items => .openArray :: ([.comma].intercalate (itemTokens items) ++ [.closeArray])
  | obj fields => .openObject :: ([.comma].intercalate (fieldTokens fields) ++ [.closeObject])

def itemTokens : List Json → List (List Token)
  | [] => []
  | item :: items => tokens item :: itemTokens items

def fieldTokens : List (String × Json) → List (List Token)
  | [] => []
  | (key, value) :: fields => (.str key :: .colon :: tokens value) :: fieldTokens fields

end

mutual

/-- How many arrays and objects stand inside one another. -/
def depth : Json → Nat
  | arr items => itemDepth items + 1
  | obj fields => fieldDepth fields + 1
  | _ => 0

def itemDepth : List Json → Nat
  | [] => 0
  | item :: items => max (depth item) (itemDepth items)

def fieldDepth : List (String × Json) → Nat
  | [] => 0
  | (_, value) :: fields => max (depth value) (fieldDepth fields)

end

mutual

/-- The value that the text of a value holds: a double that is no number is written as `null`. -/
def asWritten : Json → Json
  | float x => if x.isFinite then float x else null
  | arr items => arr (asWrittenItems items)
  | obj fields => obj (asWrittenFields fields)
  | j => j

def asWrittenItems : List Json → List Json
  | [] => []
  | item :: items => asWritten item :: asWrittenItems items

def asWrittenFields : List (String × Json) → List (String × Json)
  | [] => []
  | (key, value) :: fields => (key, asWritten value) :: asWrittenFields fields

end

section

variable (items : List Json) (fields : List (String × Json))

theorem itemTokens_eq : itemTokens items = items.map tokens := by
  induction items with
  | nil => rfl
  | cons item items ih => rw [itemTokens, ih, List.map_cons]

theorem fieldTokens_eq :
    fieldTokens fields = fields.map fun (key, value) => .str key :: .colon :: tokens value := by
  induction fields with
  | nil => rfl
  | cons field fields ih => rw [fieldTokens, ih, List.map_cons]

theorem asWrittenItems_eq : asWrittenItems items = items.map asWritten := by
  induction items with
  | nil => rfl
  | cons item items ih => rw [asWrittenItems, ih, List.map_cons]

theorem asWrittenFields_eq :
    asWrittenFields fields = fields.map fun (key, value) => (key, asWritten value) := by
  induction fields with
  | nil => rfl
  | cons field fields ih => rw [asWrittenFields, ih, List.map_cons]

theorem prettyItems_eq (level : Nat) : prettyItems level items = items.map (prettyAt level) := by
  induction items with
  | nil => rfl
  | cons item items ih => rw [prettyItems, ih, List.map_cons]

theorem prettyFields_eq (level : Nat) :
    prettyFields level fields =
      fields.map fun (key, value) => quote key ++ ": " ++ prettyAt level value := by
  induction fields with
  | nil => rfl
  | cons field fields ih => rw [prettyFields, ih, List.map_cons]

variable {items fields}

theorem depth_arr_le {n : Nat} : (arr items).depth ≤ n + 1 ↔ ∀ item ∈ items, item.depth ≤ n := by
  rw [depth, Nat.add_le_add_iff_right]
  induction items with
  | nil => simp [itemDepth]
  | cons item items ih => rw [itemDepth, Nat.max_le, ih, List.forall_mem_cons]

theorem depth_obj_le {n : Nat} :
    (obj fields).depth ≤ n + 1 ↔ ∀ field ∈ fields, field.2.depth ≤ n := by
  rw [depth, Nat.add_le_add_iff_right]
  induction fields with
  | nil => simp [fieldDepth]
  | cons field fields ih => rw [fieldDepth, Nat.max_le, ih, List.forall_mem_cons]

theorem depth_ofList_le {α : Type} {f : α → Json} {n : Nat} (h : ∀ a, (f a).depth ≤ n) (xs : List α) :
    (ofList f xs).depth ≤ n + 1 :=
  depth_arr_le.2 (List.forall_mem_map.2 fun a _ => h a)

theorem depth_lt_of_item {item : Json} {n : Nat} (h : (arr items).depth ≤ n) (hitem : item ∈ items) :
    item.depth < n :=
  Nat.lt_of_lt_of_le
    (Nat.lt_succ_of_le (depth_arr_le.1 (Nat.le_refl (itemDepth items + 1)) item hitem)) h

theorem depth_lt_of_field {key : String} {value : Json} {n : Nat} (h : (obj fields).depth ≤ n)
    (hfield : (key, value) ∈ fields) : value.depth < n :=
  Nat.lt_of_lt_of_le
    (Nat.lt_succ_of_le (depth_obj_le.1 (Nat.le_refl (fieldDepth fields + 1)) (key, value) hfield)) h

end

/-! ## The tokens of a written value -/

/-- A double whose text reads as the double again, if it is a number at all. `number?` gives the nearest
double; a reader that takes the fast path for texts of many digits can miss it by one place, so that for such
a reader fewer doubles are faithful than here. -/
def Faithful (x : Float) : Prop :=
  x.isFinite = true → number? (numberLayout.write x).toList = some (.float x)

instance (x : Float) : Decidable (Faithful x) := inferInstanceAs (Decidable (_ → _))

/-- Values whose numbers can be told from their texts. -/
inductive Legible : Json → Prop
  | null : Legible null
  | bool (b : Bool) : Legible (bool b)
  | int {n : Int} (low : Int64.minValue.toInt ≤ n) (high : n < UInt64.size) : Legible (int n)
  | float {x : Float} (faithful : Faithful x) : Legible (float x)
  | str (s : String) : Legible (str s)
  | arr {items : List Json} (held : ∀ item ∈ items, Legible item) : Legible (arr items)
  | obj {fields : List (String × Json)} (held : ∀ field ∈ fields, Legible field.2) :
      Legible (obj fields)

theorem lexes_field {key : String} {text : String} {tokens : List Token} (h : Lexes text.toList tokens) :
    Lexes (quote key ++ ": " ++ text).toList (.str key :: .colon :: tokens) := by
  have hcolon : Delimited [':', ' '] [.colon] :=
    (delimited_char (c := ':') rfl).append (delimited_char (c := ' ') rfl)
  simpa using ((delimited_quote key).append hcolon).append_lexes h

/-- The written text of a legible value gives its tokens, at every level of nesting. -/
theorem lexes_prettyAt {j : Json} (h : j.Legible) (level : Nat) :
    Lexes (prettyAt level j).toList j.asWritten.tokens := by
  induction h generalizing level with
  | null => exact lexes_null
  | bool b => exact lexes_bool b
  | int low high => exact lexes_number (number?_toString low high)
  | @float x faithful =>
    rw [prettyAt, asWritten]
    split
    · next hx => exact lexes_number (faithful hx)
    · next hx =>
      rw [write_of_not_finite (by simpa using hx)]
      exact lexes_null
  | str s => exact (delimited_quote s).lexes
  | @arr items _ ih =>
    rw [prettyAt, prettyItems_eq, asWritten, asWrittenItems_eq, tokens, itemTokens_eq, List.map_map]
    apply (delimited_bracketed '[' ']' rfl rfl _).lexes
    rw [List.forall₂_map_left_iff, List.forall₂_map_right_iff, List.forall₂_same]
    exact fun item hitem => ih item hitem (level + 1)
  | @obj fields _ ih =>
    rw [prettyAt, prettyFields_eq, asWritten, asWrittenFields_eq, tokens, fieldTokens_eq, List.map_map]
    apply (delimited_bracketed '\x7b' '\x7d' rfl rfl _).lexes
    rw [List.forall₂_map_left_iff, List.forall₂_map_right_iff, List.forall₂_same]
    exact fun field hfield => lexes_field (ih field hfield (level + 1))

/-- The tokens of a text are those of the value that it holds. -/
theorem tokens?_pretty {j : Json} (h : j.Legible) : tokens? j.pretty = some j.asWritten.tokens := by
  have hlexes := lexes_prettyAt h 0 [] (by simp)
  simpa [tokens?, pretty, tokensFrom?, finish?] using hlexes

/-! ## Reading the tokens of a value -/

theorem depth_asWritten_le {j : Json} {n : Nat} (h : j.depth ≤ n) : j.asWritten.depth ≤ n := by
  induction j using induction generalizing n with
  | float x => rw [asWritten]; split <;> exact h
  | arr items ih =>
    cases n with
    | zero => simp [depth] at h
    | succ n =>
      rw [asWritten, asWrittenItems_eq, depth_arr_le, List.forall_mem_map]
      exact fun item hitem => ih item hitem (depth_arr_le.1 h item hitem)
  | obj fields ih =>
    cases n with
    | zero => simp [depth] at h
    | succ n =>
      rw [asWritten, asWrittenFields_eq, depth_obj_le, List.forall_mem_map]
      exact fun field hfield => ih field hfield (depth_obj_le.1 h field hfield)
  | _ => exact h

theorem readFrom?_cons {expecting : Expecting} {stack : List Frame} {token : Token}
    (next : Expecting) (opened : List Frame) {rest : List Token}
    (h : read? expecting stack token = some (next, opened)) :
    readFrom? expecting stack (token :: rest) = readFrom? next opened rest := by
  simp [readFrom?, h]

/-- The tokens of the value read as the value, when what is open leaves room for it. -/
def ReadsBack (j : Json) : Prop :=
  ∀ stack rest, stack.length + j.depth ≤ maxDepth →
    readFrom? .value stack (j.tokens ++ rest) = readFrom? (.after j) stack rest

-- The tokens after a complete item: `held` has been read before it, in reverse.
/-- The items behind the first one are added to the open array one by one. -/
theorem readFrom?_items {items : List Json} (h : ∀ item ∈ items, ReadsBack item)
    {stack : List Frame} (hdepth : ∀ item ∈ items, stack.length + 1 + item.depth ≤ maxDepth)
    (held : List Json) (value : Json) (rest : List Token) :
    readFrom? (.after value) (.array held :: stack)
        ((items.map tokens).flatMap (.comma :: ·) ++ .closeArray :: rest) =
      readFrom? (.after (.arr (held.reverse ++ value :: items))) stack rest := by
  induction items generalizing held value with
  | nil =>
    rw [List.map_nil, List.flatMap_nil, List.nil_append,
      readFrom?_cons (.after (.arr (value :: held).reverse)) stack rfl]
    simp
  | cons item items ih =>
    obtain ⟨hitem, hitems⟩ := List.forall_mem_cons.1 h
    obtain ⟨hfits, hdepth⟩ := List.forall_mem_cons.1 hdepth
    rw [List.map_cons, List.flatMap_cons, List.append_assoc, List.cons_append,
      readFrom?_cons .value (.array (value :: held) :: stack) rfl,
      hitem (_ :: stack) _ hfits, ih hitems hdepth (value :: held) item]
    simp

/-- The fields behind the first one are added to the open object one by one. -/
theorem readFrom?_fields {fields : List (String × Json)} (h : ∀ field ∈ fields, ReadsBack field.2)
    {stack : List Frame} (hdepth : ∀ field ∈ fields, stack.length + 1 + field.2.depth ≤ maxDepth)
    (held : List (String × Json)) (key : String) (value : Json) (rest : List Token) :
    readFrom? (.after value) (.object held (some key) :: stack)
        ((fields.map fun (key, value) => Token.str key :: .colon :: value.tokens).flatMap (.comma :: ·) ++
          .closeObject :: rest) =
      readFrom? (.after (.obj (held.reverse ++ (key, value) :: fields))) stack rest := by
  induction fields generalizing held key value with
  | nil =>
    rw [List.map_nil, List.flatMap_nil, List.nil_append,
      readFrom?_cons (.after (.obj ((key, value) :: held).reverse)) stack rfl]
    simp
  | cons field fields ih =>
    obtain ⟨hfield, hfields⟩ := List.forall_mem_cons.1 h
    obtain ⟨hfits, hdepth⟩ := List.forall_mem_cons.1 hdepth
    rw [List.map_cons, List.flatMap_cons, List.append_assoc, List.cons_append, List.cons_append,
      List.cons_append,
      readFrom?_cons .key (.object ((key, value) :: held) none :: stack) rfl,
      readFrom?_cons .colon (.object ((key, value) :: held) (some field.1) :: stack) rfl,
      readFrom?_cons .value (.object ((key, value) :: held) (some field.1) :: stack) rfl,
      hfield (_ :: stack) _ hfits, ih hfields hdepth ((key, value) :: held) field.1 field.2]
    simp

/-- No value starts with the end of an array. -/
theorem readFrom?_valueOrClose (j : Json) (stack : List Frame) (rest : List Token) :
    readFrom? .valueOrClose stack (j.tokens ++ rest) = readFrom? .value stack (j.tokens ++ rest) := by
  cases j <;> simp [tokens, readFrom?, read?]

theorem open?_of_depth {frame : Frame} {next : Expecting} {stack : List Frame} {depth : Nat}
    (h : stack.length + (depth + 1) ≤ maxDepth) : open? frame next stack = some (next, frame :: stack) :=
  if_pos (by omega)

/-- By induction on the value; each item and field is read in a frame that keeps those before it. -/
theorem readsBack (j : Json) : ReadsBack j := by
  induction j using induction with
  | arr items ih =>
    intro stack rest hdepth
    have hopen : read? .value stack .openArray = some (.valueOrClose, .array [] :: stack) :=
      open?_of_depth hdepth
    have hfits : ∀ item ∈ items, stack.length + 1 + item.depth ≤ maxDepth := by
      intro item hitem
      have := depth_lt_of_item (Nat.le_refl _) hitem
      omega
    rw [tokens, itemTokens_eq, List.cons_append, readFrom?_cons _ _ hopen]
    cases items with
    | nil => exact readFrom?_cons _ _ rfl
    | cons item items =>
      obtain ⟨hitem, hitems⟩ := List.forall_mem_cons.1 ih
      obtain ⟨hfit, hfits⟩ := List.forall_mem_cons.1 hfits
      rw [List.map_cons, intercalate_cons, List.append_assoc, List.append_assoc,
        readFrom?_valueOrClose, hitem (_ :: stack) _ hfit]
      exact readFrom?_items hitems hfits [] item rest
  | obj fields ih =>
    intro stack rest hdepth
    have hopen : read? .value stack .openObject = some (.keyOrClose, .object [] none :: stack) :=
      open?_of_depth hdepth
    have hfits : ∀ field ∈ fields, stack.length + 1 + field.2.depth ≤ maxDepth := by
      intro field hfield
      have := depth_lt_of_field (Nat.le_refl _) hfield
      omega
    rw [tokens, fieldTokens_eq, List.cons_append, readFrom?_cons _ _ hopen]
    cases fields with
    | nil => exact readFrom?_cons _ _ rfl
    | cons field fields =>
      obtain ⟨hfield, hfields⟩ := List.forall_mem_cons.1 ih
      obtain ⟨hfit, hfits⟩ := List.forall_mem_cons.1 hfits
      rw [List.map_cons, intercalate_cons, List.append_assoc, List.append_assoc, List.cons_append,
        List.cons_append, readFrom?_cons .colon (.object [] (some field.1) :: stack) rfl,
        readFrom?_cons .value (.object [] (some field.1) :: stack) rfl, hfield (_ :: stack) _ hfit]
      exact readFrom?_fields hfields hfits [] field.1 field.2 rest
  | _ => exact fun stack rest _ => readFrom?_cons _ stack rfl

/-- **Written JSON reads back.** The value may nest as deeply as the reader allows. -/
theorem parse?_pretty {j : Json} (h : j.Legible) (hdepth : j.depth ≤ maxDepth) :
    parse? j.pretty = some j.asWritten := by
  have hread := readsBack j.asWritten [] [] (by simpa using depth_asWritten_le hdepth)
  rw [parse?, tokens?_pretty h]
  simpa [readFrom?] using hread

/-! ## Scalars, lists and records -/

@[simp] theorem asWritten_str (s : String) : (str s).asWritten = str s := rfl

@[simp] theorem asWritten_int (n : Int) : (int n).asWritten = int n := rfl

@[simp] theorem asWritten_nat (n : Nat) : (nat n).asWritten = nat n := rfl

@[simp] theorem asWritten_ofList {α : Type} (f : α → Json) (xs : List α) :
    (ofList f xs).asWritten = ofList (fun a => (f a).asWritten) xs := by
  rw [ofList, asWritten, asWrittenItems_eq, List.map_map, ofList]
  rfl

@[simp] theorem asString?_str (s : String) : (str s).asString? = some s := rfl

theorem asNatBelow?_nat {bound n : Nat} (h : n < bound) : (nat n).asNatBelow? bound = some n :=
  if_pos ⟨Int.natCast_nonneg n, Int.ofNat_lt.2 h⟩

@[simp] theorem asUInt32?_nat (n : UInt32) : (nat n.toNat).asUInt32? = some n := by
  rw [asUInt32?, asNatBelow?_nat n.toNat_lt_size, Option.map_some, UInt32.ofNat_toNat]

@[simp] theorem asUInt64?_nat (n : UInt64) : (nat n.toNat).asUInt64? = some n := by
  rw [asUInt64?, asNatBelow?_nat n.toNat_lt_size, Option.map_some, UInt64.ofNat_toNat]

@[simp] theorem asInt64?_int (n : Int64) : (int n.toInt).asInt64? = some n := by
  rw [asInt64?, asIntBetween?, if_pos ⟨n.minValue_le_toInt, n.toInt_le⟩, Option.map_some,
    Int64.ofInt_toInt]

section

variable {α : Type} {f : α → Json} {read : Json → Option α}

theorem asList?_ofList_of_mem {xs : List α} (h : ∀ a ∈ xs, read (f a) = some a) :
    (ofList f xs).asList? read = some xs := by
  rw [ofList, asList?]
  induction xs with
  | nil => rfl
  | cons x rest ih =>
    obtain ⟨hx, hrest⟩ := List.forall_mem_cons.1 h
    simp [hx, ih hrest]

theorem asList?_ofList (h : ∀ a, read (f a) = some a) (xs : List α) :
    (ofList f xs).asList? read = some xs :=
  asList?_ofList_of_mem fun a _ => h a

theorem optional?_map (h : ∀ a, read (f a) = some a) (hnull : ∀ a, f a ≠ null) (o : Option α) :
    optional? read (o.map f) = some o := by
  cases o with
  | none => rfl
  | some a => simp [optional?, h, hnull]

end

theorem variant?_asWritten (tag : String) (content : Json) :
    (obj [(tag, content)]).asWritten.variant? = some (tag, some content.asWritten) := rfl

section

variable {name : String} {fields : List (String × Json)}

theorem lookup?_head (h : ∀ field ∈ fields, field.1 ≠ name) (value : Json) :
    lookup? name ((name, value) :: fields) = some (some value) := by
  have hlater : fields.filter (·.1 == name) = [] :=
    List.filter_eq_nil_iff.2 fun field hfield => by simpa using h field hfield
  simp [lookup?, hlater]

theorem filter_head (h : ∀ field ∈ fields, field.1 ≠ name) (value : Json) :
    ((name, value) :: fields).filter (·.1 != name) = fields := by
  have hkept : fields.filter (·.1 != name) = fields :=
    List.filter_eq_self.2 fun field hfield => by simpa using h field hfield
  simp [hkept]

theorem key_asWrittenFields (h : ∀ field ∈ fields, field.1 ≠ name) :
    ∀ field ∈ asWrittenFields fields, field.1 ≠ name := by
  rw [asWrittenFields_eq, List.forall_mem_map]
  exact h

end

-- The name that is told is kept apart from the literal, so that no step evaluates the tests on it.
theorem tagged?_head (strictness : Strictness) (tag : String) (names : List String) (name : String)
    (fields : List (String × Json)) (hname : name ∈ names) (h : ∀ field ∈ fields, field.1 ≠ tag) :
    ∃ told, told = name ∧ (obj ((tag, .str name) :: fields)).asWritten.tagged? strictness tag names =
      some (told, (obj fields).asWritten) := by
  refine ⟨name, rfl, ?_⟩
  have hwritten := key_asWrittenFields h
  simp [asWritten, asWrittenFields, tagged?, lookup?_head hwritten, filter_head hwritten, alternative?,
    hname]

@[simp] theorem legible_str (s : String) : (str s).Legible := .str s

theorem legible_nat {n : Nat} (h : n < UInt64.size) : (nat n).Legible := by
  refine .int ?_ (Int.ofNat_lt.2 h)
  have : Int64.minValue.toInt ≤ 0 := by decide
  omega

@[simp] theorem legible_uint32 (n : UInt32) : (nat n.toNat).Legible :=
  legible_nat (Nat.lt_trans n.toNat_lt_size (by decide))

@[simp] theorem legible_uint64 (n : UInt64) : (nat n.toNat).Legible := legible_nat n.toNat_lt_size

@[simp] theorem legible_int64 (n : Int64) : (int n.toInt).Legible :=
  .int n.minValue_le_toInt (Int.lt_of_le_of_lt n.toInt_le (by decide))

theorem legible_ofList {α : Type} {f : α → Json} {xs : List α} (h : ∀ x ∈ xs, (f x).Legible) :
    (ofList f xs).Legible :=
  .arr (List.forall_mem_map.2 h)

section

variable {j : Json} {key : String} {items : List Json} {fields more : List (String × Json)}

theorem legible_arr_iff : (arr items).Legible ↔ ∀ item ∈ items, item.Legible :=
  ⟨fun | .arr h => h, .arr⟩

theorem legible_obj_iff : (obj fields).Legible ↔ ∀ field ∈ fields, field.2.Legible :=
  ⟨fun | .obj h => h, .obj⟩

@[simp] theorem legible_arr_nil : (arr []).Legible := by simp [legible_arr_iff]

@[simp] theorem legible_arr_cons : (arr (j :: items)).Legible ↔ j.Legible ∧ (arr items).Legible := by
  simp [legible_arr_iff]

@[simp] theorem legible_obj_nil : (obj []).Legible := by simp [legible_obj_iff]

@[simp] theorem legible_obj_cons :
    (obj ((key, j) :: fields)).Legible ↔ j.Legible ∧ (obj fields).Legible := by
  simp [legible_obj_iff]

@[simp] theorem legible_obj_append :
    (obj (fields ++ more)).Legible ↔ (obj fields).Legible ∧ (obj more).Legible := by
  simp only [legible_obj_iff, List.forall_mem_append]

theorem legible_field? {α : Type} {f : α → Json} (h : ∀ a, (f a).Legible) (o : Option α) :
    (obj (field? key f o)).Legible := by
  cases o <;> simp [field?, h]

end

end Json

end CircuitCalls
