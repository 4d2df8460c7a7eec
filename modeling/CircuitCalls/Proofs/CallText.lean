import CircuitCalls.Call.Text
import CircuitCalls.Proofs.Scope
import CircuitCalls.Proofs.TokenText

/-!
# Calls known by their texts

A text is read from the left by cutting off words: a word of one class of characters ends before the
first character outside the class (`cut`). Every part of a call is such a word or a list of words between
marks, so that a call whose names hold no marks of their own is known by its text and the end of its line
(`Call.text_cut`).
-/

namespace CircuitCalls

open Json (intercalate_cons)
open Qasm (isNamePart isNameStart isIdentifier isIdentifier_iff takeWhile_stop toList_toString)

/-! ## Words -/

/-- The text is a word of a class of characters. -/
def Spells (p : Char → Bool) (text : String) : Prop := ∀ c ∈ text.toList, p c = true

theorem Spells.append {p : Char → Bool} {a b : String} (ha : Spells p a) (hb : Spells p b) :
    Spells p (a ++ b) := by
  rw [Spells, String.toList_append]
  exact List.forall_mem_append.2 ⟨ha, hb⟩

theorem spells_ofList {p : Char → Bool} {chars : List Char} (h : ∀ c ∈ chars, p c = true) :
    Spells p (String.ofList chars) := by
  rw [Spells, String.toList_ofList]
  exact h

theorem spells_of_all {p : Char → Bool} {text : String} (h : text.toList.all p = true) : Spells p text :=
  List.all_eq_true.1 h

/-- The text starts with a character outside the class. -/
def Stops (p : Char → Bool) (text : List Char) : Prop := ∃ c rest, text = c :: rest ∧ p c = false

/-- A word ends where its class does. -/
theorem cut {p : Char → Bool} {a b x y : List Char} (ha : ∀ c ∈ a, p c = true)
    (hb : ∀ c ∈ b, p c = true) (hx : Stops p x) (hy : Stops p y) (h : a ++ x = b ++ y) :
    a = b ∧ x = y := by
  obtain ⟨c, x, rfl, hc⟩ := hx
  obtain ⟨d, y, rfl, hd⟩ := hy
  have hword := congrArg (List.takeWhile p) h
  rw [takeWhile_stop ha hc, takeWhile_stop hb hd] at hword
  subst hword
  exact ⟨rfl, List.append_cancel_left h⟩

/-- The same text in front of two texts. -/
theorem skip (text : String) {x y : List Char} (h : text.toList ++ x = text.toList ++ y) : x = y :=
  List.append_cancel_left h

theorem spells_toString (n : Nat) : Spells Char.isDigit (toString n) := by
  rw [Spells, toList_toString]
  exact fun c hc => isDigit_toDigits hc

theorem toList_toString_ne_nil (n : Nat) : (toString n).toList ≠ [] := by
  rw [toList_toString]
  exact Nat.toDigits_ne_nil

theorem number_cut {m n : Nat} {x y : List Char} (hx : Stops Char.isDigit x) (hy : Stops Char.isDigit y)
    (h : (toString m).toList ++ x = (toString n).toList ++ y) : m = n ∧ x = y := by
  obtain ⟨hword, hrest⟩ := cut (spells_toString m) (spells_toString n) hx hy h
  exact ⟨toString_nat_inj (String.toList_inj.1 hword), hrest⟩

def isSignedChar (c : Char) : Bool := c.isDigit || c == '-'

theorem spells_signedText (n : Int64) : Spells isSignedChar (signedText n) := by
  intro c hc
  rw [signedText, Int.toString_eq_repr] at hc
  have digit : ∀ m : Nat, c ∈ (Nat.repr m).toList → isSignedChar c = true := by
    intro m hm
    rw [Nat.toList_repr] at hm
    simp [isSignedChar, isDigit_toDigits hm]
  cases hn : n.toInt with
  | ofNat m =>
    rw [hn] at hc
    exact digit m hc
  | negSucc m =>
    rw [hn, Int.repr, String.toList_append, List.mem_append] at hc
    rcases hc with hc | hc
    · obtain rfl : c = '-' := by simpa using hc
      rfl
    · exact digit _ hc

theorem signedText_inj {m n : Int64} (h : signedText m = signedText n) : m = n := by
  have reads : ∀ k : Int64, Json.number? (signedText k).toList = some (.int k.toInt) := fun k =>
    Json.number?_toString k.minValue_le_toInt (by have := k.toInt_lt; simp [UInt64.size]; omega)
  have hnumber := (reads m).symm.trans (h ▸ reads n)
  exact Int64.toInt_inj.1 (by simpa using hnumber)

theorem signed_cut {m n : Int64} {x y : List Char} (hx : Stops isSignedChar x)
    (hy : Stops isSignedChar y) (h : (signedText m).toList ++ x = (signedText n).toList ++ y) :
    m = n ∧ x = y := by
  obtain ⟨hword, hrest⟩ := cut (spells_signedText m) (spells_signedText n) hx hy h
  exact ⟨signedText_inj (String.toList_inj.1 hword), hrest⟩

/-! ## Lists of words -/

theorem intercalate_append_cons (sep word : List Char) (first words : List (List Char)) :
    sep.intercalate (first ++ word :: words) =
      first.flatMap (· ++ sep) ++ sep.intercalate (word :: words) := by
  induction first with
  | nil => rfl
  | cons w first ih =>
    cases first with
    | nil => simp [List.intercalate_cons_cons]
    | cons v first =>
      rw [List.cons_append, List.cons_append, List.intercalate_cons_cons, ← List.cons_append, ih]
      simp only [List.flatMap_cons, List.append_assoc]

def Words (p : Char → Bool) (words : List (List Char)) : Prop :=
  ∀ word ∈ words, ∀ c ∈ word, p c = true

section

variable {p : Char → Bool} {mark close : Char} {sep : List Char}

theorem stops_led (hmark : p mark = false) (hclose : p close = false) (words : List (List Char))
    (x : List Char) : Stops p (words.flatMap ((mark :: sep) ++ ·) ++ close :: x) := by
  cases words with
  | nil => exact ⟨close, x, rfl, hclose⟩
  | cons word words => exact ⟨mark, _, rfl, hmark⟩

/-- Words behind a mark each, up to another mark. -/
theorem led_cut (hmark : p mark = false) (hclose : p close = false) (hne : mark ≠ close)
    {xs ys : List (List Char)} {x y : List Char} (hxs : Words p xs) (hys : Words p ys)
    (h : xs.flatMap ((mark :: sep) ++ ·) ++ close :: x = ys.flatMap ((mark :: sep) ++ ·) ++ close :: y) :
    xs = ys ∧ x = y := by
  induction xs generalizing ys with
  | nil =>
    cases ys with
    | nil => exact ⟨rfl, (List.cons.inj h).2⟩
    | cons v ys => exact absurd (List.cons.inj h).1.symm hne
  | cons w xs ih =>
    cases ys with
    | nil => exact absurd (List.cons.inj h).1 hne
    | cons v ys =>
      rw [Words, List.forall_mem_cons] at hxs hys
      rw [List.flatMap_cons, List.flatMap_cons, List.append_assoc, List.append_assoc, List.append_assoc,
        List.append_assoc] at h
      obtain ⟨rfl, hmore⟩ := cut hxs.1 hys.1 (stops_led hmark hclose xs x) (stops_led hmark hclose ys y)
        (List.append_cancel_left h)
      obtain ⟨rfl, hrest⟩ := ih hxs.2 hys.2 hmore
      exact ⟨rfl, hrest⟩

/-- Words between marks, up to another mark. None is empty, which an empty list could be taken for. -/
theorem intercalate_cut (hmark : p mark = false) (hclose : p close = false) (hne : mark ≠ close)
    {xs ys : List (List Char)} {x y : List Char} (hxs : Words p xs) (hys : Words p ys)
    (hxs' : [] ∉ xs) (hys' : [] ∉ ys)
    (h : (mark :: sep).intercalate xs ++ close :: x = (mark :: sep).intercalate ys ++ close :: y) :
    xs = ys ∧ x = y := by
  -- An empty list and a list with a first word differ where that word starts.
  have differ : ∀ {w : List Char} {words : List (List Char)} {x y : List Char},
      (∀ c ∈ w, p c = true) → w ≠ [] →
      close :: x ≠ w ++ (words.flatMap ((mark :: sep) ++ ·) ++ close :: y) := by
    intro w words x y hw hwne h
    have hnil := (cut (a := []) (by simp) hw ⟨close, x, rfl, hclose⟩
      (stops_led hmark hclose words y) h).1
    exact hwne hnil.symm
  cases xs with
  | nil =>
    cases ys with
    | nil => exact ⟨rfl, (List.cons.inj h).2⟩
    | cons v ys =>
      rw [intercalate_cons, List.append_assoc] at h
      exact absurd h (differ (hys v List.mem_cons_self) fun hv => hys' (hv ▸ List.mem_cons_self))
  | cons w xs =>
    cases ys with
    | nil =>
      rw [intercalate_cons, List.append_assoc] at h
      exact absurd h.symm (differ (hxs w List.mem_cons_self) fun hw => hxs' (hw ▸ List.mem_cons_self))
    | cons v ys =>
      rw [Words, List.forall_mem_cons] at hxs hys
      rw [intercalate_cons, intercalate_cons, List.append_assoc, List.append_assoc] at h
      obtain ⟨rfl, hmore⟩ := cut hxs.1 hys.1 (stops_led hmark hclose xs x) (stops_led hmark hclose ys y) h
      obtain ⟨rfl, hrest⟩ := led_cut hmark hclose hne hxs.2 hys.2 hmore
      exact ⟨rfl, hrest⟩

/-- Words before a mark each, up to another mark. -/
theorem terminated_cut (hmark : p mark = false) (hclose : p close = false) (hne : mark ≠ close)
    {xs ys : List (List Char)} {x y : List Char} (hxs : Words p xs) (hys : Words p ys)
    (h : xs.flatMap (· ++ mark :: sep) ++ close :: x = ys.flatMap (· ++ mark :: sep) ++ close :: y) :
    xs = ys ∧ x = y := by
  -- Before its mark a word is told from the closing mark.
  have differ : ∀ {w more x : List Char}, (∀ c ∈ w, p c = true) →
      close :: x ≠ w ++ (mark :: sep ++ more) := by
    intro w more x hw h
    have hmarks := (cut (a := []) (by simp) hw ⟨close, x, rfl, hclose⟩ ⟨mark, _, rfl, hmark⟩ h).2
    exact hne (List.cons.inj hmarks).1.symm
  induction xs generalizing ys with
  | nil =>
    cases ys with
    | nil => exact ⟨rfl, (List.cons.inj h).2⟩
    | cons v ys =>
      rw [List.flatMap_cons, List.append_assoc, List.append_assoc] at h
      exact absurd h (differ (hys v List.mem_cons_self))
  | cons w xs ih =>
    cases ys with
    | nil =>
      rw [List.flatMap_cons, List.append_assoc, List.append_assoc] at h
      exact absurd h.symm (differ (hxs w List.mem_cons_self))
    | cons v ys =>
      rw [Words, List.forall_mem_cons] at hxs hys
      rw [List.flatMap_cons, List.flatMap_cons, List.append_assoc, List.append_assoc, List.append_assoc,
        List.append_assoc] at h
      obtain ⟨rfl, hmore⟩ := cut hxs.1 hys.1 ⟨mark, _, rfl, hmark⟩ ⟨mark, _, rfl, hmark⟩ h
      obtain ⟨rfl, hrest⟩ := ih hxs.2 hys.2 (List.append_cancel_left (List.cons.inj hmore).2)
      exact ⟨rfl, hrest⟩

end

theorem toList_braced (separator : String) (items : List String) (x : List Char) :
    (braced separator items).toList ++ x =
      '\x7b' :: (separator.toList.intercalate (items.map String.toList) ++ '\x7d' :: x) := by
  simp [braced, String.toList_intercalate]

/-- Items in braces whose texts are words. -/
theorem braced_cut {α : Type} {p : Char → Bool} {f : α → String} (hf : ∀ a, Spells p (f a))
    (hne : ∀ a, (f a).toList ≠ []) (hinj : ∀ a b, f a = f b → a = b) (hcomma : p ',' = false)
    (hclose : p '\x7d' = false) {separator : String} {sep : List Char}
    (hsep : separator.toList = ',' :: sep) {xs ys : List α} {x y : List Char}
    (h : (braced separator (xs.map f)).toList ++ x = (braced separator (ys.map f)).toList ++ y) :
    xs = ys ∧ x = y := by
  rw [toList_braced, toList_braced, hsep, List.map_map, List.map_map] at h
  have words : ∀ as : List α, Words p (as.map (String.toList ∘ f)) ∧ [] ∉ as.map (String.toList ∘ f) := by
    intro as
    refine ⟨fun word hword => ?_, fun hnil => ?_⟩
    · obtain ⟨a, -, rfl⟩ := List.mem_map.1 hword
      exact hf a
    · obtain ⟨a, -, ha⟩ := List.mem_map.1 hnil
      exact hne a ha
  obtain ⟨hlists, hrest⟩ := intercalate_cut hcomma hclose (by decide) (words xs).1 (words ys).1
    (words xs).2 (words ys).2 (List.cons.inj h).2
  exact ⟨List.map_injective_iff.2 (fun a b hab => hinj a b (String.toList_inj.1 hab)) hlists, hrest⟩

theorem bracedNumbers_cut {separator : String} {sep : List Char} (hsep : separator.toList = ',' :: sep)
    {xs ys : List Nat} {x y : List Char}
    (h : (bracedNumbers separator xs).toList ++ x = (bracedNumbers separator ys).toList ++ y) :
    xs = ys ∧ x = y :=
  braced_cut spells_toString toList_toString_ne_nil (fun _ _ => toString_nat_inj) rfl rfl hsep h

theorem signedText_ne_nil (n : Int64) : (signedText n).toList ≠ [] := by
  rw [signedText, Int.toString_eq_repr]
  cases n.toInt with
  | ofNat m => exact toList_toString_ne_nil m
  | negSucc m => simp [Int.repr]

theorem bracedSigned_cut {xs ys : List Int64} {x y : List Char}
    (h : (braced ", " (xs.map signedText)).toList ++ x = (braced ", " (ys.map signedText)).toList ++ y) :
    xs = ys ∧ x = y :=
  braced_cut spells_signedText signedText_ne_nil (fun _ _ => signedText_inj) rfl rfl rfl h

/-! ## Guards and loop headers -/

namespace Guard

/-- The two ways in which the bits of a guard are written. -/
inductive Writes : List Nat → List Char → Prop where
  | single (b : Nat) : Writes [b] (toString b).toList
  | braced (bits : List Nat) : Writes bits (bracedNumbers ", " bits).toList

theorem exists_writes (simulator : String) (g : Guard) :
    ∃ bits, Writes g.clbits bits ∧
      (g.text simulator).toList = simulator.toList ++ (".read(".toList ++ (bits ++ (") == ".toList ++
        (toString g.value.toNat).toList))) := by
  obtain ⟨clbits, value⟩ := g
  rcases clbits with _ | ⟨b, _ | ⟨b', more⟩⟩
  · exact ⟨_, .braced [], by simp [text]⟩
  · exact ⟨_, .single b, by simp [text]⟩
  · exact ⟨_, .braced (b :: b' :: more), by simp [text]⟩

/-- The bits of a guard can be told from its text, whatever follows: both ways to write them end at the
closing parenthesis. -/
theorem Writes.bits_cut {xs ys : List Nat} {a b x y : List Char} (ha : Writes xs a) (hb : Writes ys b)
    (h : a ++ ')' :: x = b ++ ')' :: y) : xs = ys ∧ x = y := by
  have stops : ∀ z, Stops Char.isDigit (')' :: z) := fun z => ⟨_, z, rfl, rfl⟩
  -- A single number does not start with a brace.
  have differ : ∀ (n : Nat) (bits : List Nat) (x y : List Char),
      (toString n).toList ++ ')' :: x ≠ (bracedNumbers ", " bits).toList ++ ')' :: y := by
    intro n bits x y h
    rw [bracedNumbers, toList_braced] at h
    have hword := (cut (b := []) (spells_toString n) (by simp) (stops x) ⟨_, _, rfl, rfl⟩ h).1
    exact toList_toString_ne_nil n hword
  cases ha with
  | single m =>
    cases hb with
    | single n =>
      obtain ⟨rfl, hrest⟩ := number_cut (stops x) (stops y) h
      exact ⟨rfl, (List.cons.inj hrest).2⟩
    | braced bits => exact absurd h (differ m _ x y)
  | braced bits =>
    cases hb with
    | single n => exact absurd h.symm (differ n _ y x)
    | braced bits' =>
      obtain ⟨rfl, hrest⟩ := bracedNumbers_cut rfl h
      exact ⟨rfl, (List.cons.inj hrest).2⟩

/-- A guard can be told from its text. -/
theorem text_cut {simulator : String} {g k : Guard} {x y : List Char}
    (h : (g.text simulator).toList ++ ')' :: x = (k.text simulator).toList ++ ')' :: y) :
    g = k ∧ x = y := by
  obtain ⟨a, ha, hg⟩ := g.exists_writes simulator
  obtain ⟨b, hb, hk⟩ := k.exists_writes simulator
  simp only [hg, hk, List.append_assoc] at h
  obtain ⟨hbits, hmore⟩ := ha.bits_cut hb (List.append_cancel_left (List.append_cancel_left h))
  obtain ⟨hvalue, hrest⟩ := number_cut ⟨')', x, rfl, rfl⟩ ⟨')', y, rfl, rfl⟩ (skip " == " hmore)
  obtain ⟨clbits, value⟩ := g
  obtain ⟨clbits', value'⟩ := k
  obtain rfl : clbits = clbits' := hbits
  obtain rfl : value = value' := UInt64.toNat_inj.1 hvalue
  exact ⟨rfl, (List.cons.inj hrest).2⟩

end Guard

namespace LoopHeader

/-- The three forms of a step, the last of which could also write the steps of the others. -/
theorem advanceText_cases (loopVar : String) (step : Int64) :
    step = 1 ∧ (advanceText loopVar step).toList = '+' :: '+' :: loopVar.toList ∨
      step = -1 ∧ (advanceText loopVar step).toList = '-' :: '-' :: loopVar.toList ∨
      (advanceText loopVar step).toList = loopVar.toList ++ (" += ".toList ++ (signedText step).toList) := by
  unfold advanceText
  by_cases hup : step = 1
  · rw [if_pos hup, String.toList_append]
    exact .inl ⟨hup, rfl⟩
  rw [if_neg hup]
  by_cases hdown : step = -1
  · rw [if_pos hdown, String.toList_append]
    exact .inr (.inl ⟨hdown, rfl⟩)
  · rw [if_neg hdown, String.toList_append, String.toList_append, List.append_assoc]
    exact .inr (.inr rfl)

/-- The step of a loop can be told from the text of its third part. -/
theorem advanceText_cut {loopVar : String} (hvar : Spells isNamePart loopVar)
    {m n : Int64} {x y : List Char}
    (h : (advanceText loopVar m).toList ++ ')' :: x = (advanceText loopVar n).toList ++ ')' :: y) :
    m = n ∧ x = y := by
  -- A sign in front is told from the blank behind the variable.
  have differ : ∀ (c : Char) (z z' : List Char), isNamePart c = false → c ≠ ' ' →
      c :: z ≠ loopVar.toList ++ ' ' :: z' := by
    intro c z z' hc hblank h
    have hmarks := (cut (a := []) (by simp) hvar ⟨c, z, rfl, hc⟩ ⟨' ', z', rfl, rfl⟩ h).2
    exact hblank (List.cons.inj hmarks).1
  rcases advanceText_cases loopVar m with ⟨rfl, hm⟩ | ⟨rfl, hm⟩ | hm
  all_goals rcases advanceText_cases loopVar n with ⟨rfl, hn⟩ | ⟨rfl, hn⟩ | hn
  all_goals simp only [hm, hn, List.append_assoc] at h
  · exact ⟨rfl, (List.cons.inj (List.append_cancel_left h)).2⟩
  · exact absurd (List.cons.inj h).1 (by decide)
  · exact absurd h (differ '+' _ _ rfl (by decide))
  · exact absurd (List.cons.inj h).1 (by decide)
  · exact ⟨rfl, (List.cons.inj (List.append_cancel_left h)).2⟩
  · exact absurd h (differ '-' _ _ rfl (by decide))
  · exact absurd h.symm (differ '+' _ _ rfl (by decide))
  · exact absurd h.symm (differ '-' _ _ rfl (by decide))
  · have hstep := skip " += " (List.append_cancel_left h)
    obtain ⟨rfl, hrest⟩ := signed_cut ⟨')', x, rfl, rfl⟩ ⟨')', y, rfl, rfl⟩ hstep
    exact ⟨rfl, (List.cons.inj hrest).2⟩

theorem toList_range (loopVar : String) (start stop step : Int64) :
    (range loopVar start stop step).text.toList =
      "int ".toList ++ (loopVar.toList ++ (" = ".toList ++ ((signedText start).toList ++ ("; ".toList ++
        (loopVar.toList ++ ((if 0 < step then " < " else " > ").toList ++ ((signedText stop).toList ++
          ("; ".toList ++ (advanceText loopVar step).toList)))))))) := by
  have htext : (range loopVar start stop step).text = "int " ++ loopVar ++ " = " ++ signedText start ++
      "; " ++ loopVar ++ (if 0 < step then " < " else " > ") ++ signedText stop ++ "; " ++
        advanceText loopVar step := rfl
  simp only [htext, String.toList_append, List.append_assoc]

theorem toList_values (loopVar : String) (items : List Int64) :
    (values loopVar items).text.toList =
      "int ".toList ++ (loopVar.toList ++ (" : ".toList ++
        (braced ", " (items.map signedText)).toList)) := by
  have htext : (values loopVar items).text =
      "int " ++ loopVar ++ " : " ++ braced ", " (items.map signedText) := rfl
  simp only [htext, String.toList_append, List.append_assoc]

/-- A header whose variable is a word is known by its text. -/
theorem text_cut {a b : LoopHeader} (ha : Spells isNamePart a.loopVar)
    (hb : Spells isNamePart b.loopVar) {x y : List Char}
    (h : a.text.toList ++ ')' :: x = b.text.toList ++ ')' :: y) : a = b ∧ x = y := by
  -- Behind the variable stands a blank, and then the mark of the kind of loop.
  have kinds : ∀ {v w : String} {c d : Char} {z z' : List Char},
      Spells isNamePart v → Spells isNamePart w →
      "int ".toList ++ (v.toList ++ (' ' :: c :: z)) = "int ".toList ++ (w.toList ++ (' ' :: d :: z')) →
      v = w ∧ c = d ∧ z = z' := by
    intro v w c d z z' hv hw h
    obtain ⟨hvar, hmarks⟩ := cut hv hw ⟨' ', _, rfl, rfl⟩ ⟨' ', _, rfl, rfl⟩ (skip "int " h)
    simp only [List.cons.injEq, true_and] at hmarks
    exact ⟨String.toList_inj.1 hvar, hmarks⟩
  cases a with
  | range v start stop step =>
    cases b with
    | values w items =>
      simp only [toList_range, toList_values, List.append_assoc] at h
      exact absurd (kinds ha hb h).2.1 (by decide)
    | range w start' stop' step' =>
      simp only [toList_range, List.append_assoc] at h
      obtain ⟨rfl, -, hstart⟩ := kinds ha hb h
      obtain ⟨rfl, hvar⟩ := signed_cut ⟨';', _, rfl, rfl⟩ ⟨';', _, rfl, rfl⟩ (List.cons.inj hstart).2
      have hsign := List.append_cancel_left (skip "; " hvar)
      have width : ∀ n : Int64, (if 0 < n then " < " else " > ").toList.length = 3 := fun n => by
        split <;> rfl
      have hstop := (List.append_inj hsign ((width step).trans (width step').symm)).2
      obtain ⟨rfl, hstep⟩ := signed_cut ⟨';', _, rfl, rfl⟩ ⟨';', _, rfl, rfl⟩ hstop
      obtain ⟨rfl, hrest⟩ := advanceText_cut ha (skip "; " hstep)
      exact ⟨rfl, hrest⟩
  | values v items =>
    cases b with
    | range w start stop step =>
      simp only [toList_range, toList_values, List.append_assoc] at h
      exact absurd (kinds ha hb h).2.1 (by decide)
    | values w items' =>
      simp only [toList_values, List.append_assoc] at h
      obtain ⟨rfl, -, hitems⟩ := kinds ha hb h
      obtain ⟨rfl, hrest⟩ := bracedSigned_cut (List.cons.inj hitems).2
      exact ⟨rfl, (List.cons.inj hrest).2⟩

end LoopHeader

/-! ## Calls -/

def isArgumentChar (c : Char) : Bool :=
  isNamePart c || [' ', '(', ')', '+', '-', '*', '/', '.'].contains c

namespace Call

/-- Names and arguments of the call hold no marks of the text. -/
def Plain : Call → Prop
  | gate roles arguments =>
    Spells isNamePart roles.root ∧ ∀ a ∈ arguments, Spells isArgumentChar a
  | beginFor header => Spells isNamePart header.loopVar
  | _ => True

/-- The word that a call starts with, and the mark behind it. -/
def lead (simulator : String) : Call → String × Char
  | beginIf _ => ("if", ' ')
  | beginWhile _ => ("while", ' ')
  | beginFor _ => ("for", ' ')
  | otherwise | endBlock => ("", '\x7d')
  | _ => (simulator, '.')

def method : Call → String
  | setQubitCount _ => "set_num_qubits"
  | setClbitCount _ => "set_num_clbits"
  | gate roles _ => "gate_" ++ roles.root
  | measure _ _ => "measure"
  | _ => ""

def inside (simulator : String) : Call → String
  | setQubitCount count => "(" ++ toString count ++ ");"
  | setClbitCount count => "(" ++ toString count ++ ");"
  | gate roles arguments =>
    "(" ++ String.join (arguments.map (· ++ ", ")) ++ bracedNumbers ", " roles.targets ++ ", " ++
      bracedNumbers ", " roles.positive ++ ", " ++ bracedNumbers ", " roles.negative ++ ");"
  | measure qubits clbits => "(" ++ bracedNumbers "," qubits ++ ", " ++ bracedNumbers "," clbits ++ ");"
  | beginIf guard => "(" ++ guard.text simulator ++ ") \x7b"
  | beginWhile guard => "(" ++ guard.text simulator ++ ") \x7b"
  | beginFor header => "(" ++ header.text ++ ") \x7b"
  | otherwise => " else \x7b"
  | endBlock => ""

/-- Every call starts with two words and a mark between them. -/
theorem toList_text (simulator : String) (c : Call) :
    (c.text simulator).toList = (c.lead simulator).1.toList ++
      (c.lead simulator).2 :: (c.method.toList ++ (c.inside simulator).toList) := by
  cases c with
  | gate roles arguments =>
    have hlists : [roles.targets, roles.positive, roles.negative].map (bracedNumbers ", ") =
        bracedNumbers ", " roles.targets :: [bracedNumbers ", " roles.positive,
          bracedNumbers ", " roles.negative] := rfl
    simp only [text, lead, method, inside, hlists, String.toList_append, String.toList_intercalate,
      String.toList_join, List.map_append, List.map_cons, List.map_nil, intercalate_append_cons,
      intercalate_cons, List.flatMap_cons, List.flatMap_nil, List.flatMap_map, List.append_assoc,
      List.append_nil]
    rfl
  | _ =>
    simp only [text, lead, method, inside, String.toList_append, List.append_assoc]
    rfl

/-- The kind of a call; the two brackets that follow an opening one are of one kind. -/
def kind : Call → Nat
  | setQubitCount _ => 0
  | setClbitCount _ => 1
  | measure _ _ => 2
  | gate _ _ => 3
  | beginIf _ => 4
  | beginWhile _ => 5
  | beginFor _ => 6
  | otherwise | endBlock => 7

/-- The kind of a call by the two words that its text starts with. -/
def kindFrom (lead : String × Char) (method : String) : Nat :=
  if lead.2 = '.' then
    if method = "set_num_qubits" then 0
    else if method = "set_num_clbits" then 1
    else if method = "measure" then 2
    else 3
  else if lead.2 = ' ' then
    if lead.1 = "if" then 4
    else if lead.1 = "while" then 5
    else 6
  else 7

theorem kind_eq (simulator : String) (c : Call) : c.kind = kindFrom (c.lead simulator) c.method := by
  cases c with
  | gate roles arguments =>
    have differ : ∀ word : String, word.toList.head? ≠ some 'g' → "gate_" ++ roles.root ≠ word := by
      rintro word hword rfl
      rw [String.toList_append] at hword
      exact hword rfl
    simp [kind, kindFrom, lead, method, differ "set_num_qubits" (by decide),
      differ "set_num_clbits" (by decide), differ "measure" (by decide)]
  | _ => simp [kind, kindFrom, lead, method]

theorem spells_lead {simulator : String} (h : Spells isNamePart simulator) (call : Call) :
    Spells isNamePart (call.lead simulator).1 := by
  have hif : Spells isNamePart "if" := spells_of_all rfl
  have hwhile : Spells isNamePart "while" := spells_of_all rfl
  have hfor : Spells isNamePart "for" := spells_of_all rfl
  have hnone : Spells isNamePart "" := spells_of_all rfl
  cases call with
  | beginIf guard => exact hif
  | beginWhile guard => exact hwhile
  | beginFor header => exact hfor
  | otherwise => exact hnone
  | endBlock => exact hnone
  | _ => exact h

theorem spells_method {call : Call} (h : call.Plain) : Spells isNamePart call.method := by
  cases call with
  | gate roles arguments =>
    rw [method]
    exact (spells_of_all rfl).append h.1
  | _ =>
    simp only [method]
    exact spells_of_all rfl

theorem stops_lead (simulator : String) (call : Call) (x : List Char) :
    Stops isNamePart ((call.lead simulator).2 :: x) := by
  cases call <;> exact ⟨_, x, rfl, rfl⟩

theorem stops_inside (simulator : String) (call : Call) (x : List Char) :
    Stops isNamePart ((call.inside simulator).toList ++ '\n' :: x) := by
  cases call with
  | otherwise =>
    simp only [inside]
    exact ⟨' ', _, rfl, rfl⟩
  | endBlock =>
    simp only [inside]
    exact ⟨'\n', _, rfl, rfl⟩
  | _ =>
    simp only [inside, String.toList_append, List.append_assoc]
    exact ⟨'(', _, rfl, rfl⟩

/-- Arguments are told from the numbers in braces behind them. -/
theorem arguments_cut {xs ys : List String} (hxs : ∀ a ∈ xs, Spells isArgumentChar a)
    (hys : ∀ a ∈ ys, Spells isArgumentChar a) {ms ns : List Nat} {x y : List Char}
    (h : xs.flatMap (·.toList ++ ", ".toList) ++ ((bracedNumbers ", " ms).toList ++ x) =
      ys.flatMap (·.toList ++ ", ".toList) ++ ((bracedNumbers ", " ns).toList ++ y)) :
    xs = ys ∧ ms = ns ∧ x = y := by
  have words : ∀ as : List String, (∀ a ∈ as, Spells isArgumentChar a) →
      Words isArgumentChar (as.map String.toList) := by
    intro as has word hword
    obtain ⟨a, ha, rfl⟩ := List.mem_map.1 hword
    exact has a ha
  have hcut : (xs.map String.toList).flatMap (· ++ [',', ' ']) ++ ((bracedNumbers ", " ms).toList ++ x) =
      (ys.map String.toList).flatMap (· ++ [',', ' ']) ++ ((bracedNumbers ", " ns).toList ++ y) := by
    rw [List.flatMap_map, List.flatMap_map]
    exact h
  rw [bracedNumbers, bracedNumbers, toList_braced, toList_braced] at hcut
  obtain ⟨harguments, hmore⟩ := terminated_cut rfl rfl (by decide) (words xs hxs) (words ys hys) hcut
  obtain rfl : xs = ys := List.map_injective_iff.2 (fun _ _ => String.toList_inj.1) harguments
  exact ⟨rfl, bracedNumbers_cut rfl (List.append_cancel_left h)⟩

/-- A call whose names and arguments hold no marks is known by its text and the end of its line. -/
theorem text_cut {simulator : String} (hsim : Spells isNamePart simulator) {c d : Call}
    (hc : c.Plain) (hd : d.Plain) {x y : List Char}
    (h : (c.text simulator).toList ++ '\n' :: x = (d.text simulator).toList ++ '\n' :: y) :
    c = d ∧ x = y := by
  simp only [toList_text, List.append_assoc, List.cons_append] at h
  obtain ⟨hword, hmarks⟩ := cut (spells_lead hsim c) (spells_lead hsim d) (stops_lead _ c _)
    (stops_lead _ d _) h
  obtain ⟨hmark, hmethods⟩ := List.cons.inj hmarks
  obtain ⟨hmethod, hinside⟩ := cut (spells_method hc) (spells_method hd) (stops_inside _ c _)
    (stops_inside _ d _) hmethods
  have hkind : c.kind = d.kind := by
    have hlead : c.lead simulator = d.lead simulator := Prod.ext (String.toList_inj.1 hword) hmark
    rw [kind_eq simulator c, kind_eq simulator d, hlead, String.toList_inj.1 hmethod]
  -- The two words tell the calls apart, and what is inside is cut part by part.
  have close : ∀ z, Stops Char.isDigit (')' :: z) := fun z => ⟨_, z, rfl, rfl⟩
  have lineEnd : ∀ (mark : String) {x y : List Char},
      mark.toList ++ '\n' :: x = mark.toList ++ '\n' :: y → x = y := fun mark _ _ h =>
    (List.cons.inj (skip mark h)).2
  cases c with
  | setQubitCount m =>
    cases d with
    | setQubitCount n =>
      simp only [inside, String.toList_append, List.append_assoc] at hinside
      obtain ⟨rfl, hrest⟩ := number_cut (close _) (close _) (skip "(" hinside)
      exact ⟨rfl, lineEnd ");" hrest⟩
    | _ => cases hkind
  | setClbitCount m =>
    cases d with
    | setClbitCount n =>
      simp only [inside, String.toList_append, List.append_assoc] at hinside
      obtain ⟨rfl, hrest⟩ := number_cut (close _) (close _) (skip "(" hinside)
      exact ⟨rfl, lineEnd ");" hrest⟩
    | _ => cases hkind
  | gate roles arguments =>
    cases d with
    | gate roles' arguments' =>
      simp only [inside, String.toList_append, String.toList_join, List.flatMap_map,
        List.append_assoc] at hinside
      simp only [method, String.toList_append] at hmethod
      obtain ⟨root, targets, positive, negative⟩ := roles
      obtain ⟨root', targets', positive', negative'⟩ := roles'
      obtain rfl : root = root' := String.toList_inj.1 (skip "gate_" hmethod)
      obtain ⟨rfl, htargets, hmore⟩ := arguments_cut hc.2 hd.2 (skip "(" hinside)
      obtain ⟨hpositive, hlast⟩ := bracedNumbers_cut rfl (skip ", " hmore)
      obtain ⟨hnegative, hrest⟩ := bracedNumbers_cut rfl (skip ", " hlast)
      obtain rfl : targets = targets' := htargets
      obtain rfl : positive = positive' := hpositive
      obtain rfl : negative = negative' := hnegative
      exact ⟨rfl, lineEnd ");" hrest⟩
    | _ => cases hkind
  | measure qubits clbits =>
    cases d with
    | measure qubits' clbits' =>
      simp only [inside, String.toList_append, List.append_assoc] at hinside
      obtain ⟨rfl, hclbits⟩ := bracedNumbers_cut rfl (skip "(" hinside)
      obtain ⟨rfl, hrest⟩ := bracedNumbers_cut rfl (skip ", " hclbits)
      exact ⟨rfl, lineEnd ");" hrest⟩
    | _ => cases hkind
  | beginIf guard =>
    cases d with
    | beginIf guard' =>
      simp only [inside, String.toList_append, List.append_assoc] at hinside
      obtain ⟨rfl, hrest⟩ := Guard.text_cut (skip "(" hinside)
      exact ⟨rfl, lineEnd " \x7b" hrest⟩
    | _ => cases hkind
  | otherwise =>
    cases d with
    | otherwise => exact ⟨rfl, lineEnd " else \x7b" hinside⟩
    | endBlock =>
      simp only [inside] at hinside
      exact absurd (List.cons.inj hinside).1 (by decide)
    | _ => cases hkind
  | beginWhile guard =>
    cases d with
    | beginWhile guard' =>
      simp only [inside, String.toList_append, List.append_assoc] at hinside
      obtain ⟨rfl, hrest⟩ := Guard.text_cut (skip "(" hinside)
      exact ⟨rfl, lineEnd " \x7b" hrest⟩
    | _ => cases hkind
  | beginFor header =>
    cases d with
    | beginFor header' =>
      simp only [inside, String.toList_append, List.append_assoc] at hinside
      obtain ⟨rfl, hrest⟩ := LoopHeader.text_cut hc hd (skip "(" hinside)
      exact ⟨rfl, lineEnd " \x7b" hrest⟩
    | _ => cases hkind
  | endBlock =>
    cases d with
    | endBlock => exact ⟨rfl, lineEnd "" hinside⟩
    | otherwise =>
      simp only [inside] at hinside
      exact absurd (List.cons.inj hinside).1 (by decide)
    | _ => cases hkind

/-- No call starts with a blank, so that the indentation of a line ends where the call begins. -/
theorem stops_text {simulator : String} (h : isIdentifier simulator = true) (call : Call)
    (x : List Char) : Stops (· == ' ') ((call.text simulator).toList ++ x) := by
  obtain ⟨first, more, hsim, hfirst, -⟩ := isIdentifier_iff.1 h
  have hblank : (first == ' ') = false := by
    by_contra hblank
    obtain rfl : first = ' ' := by simpa using hblank
    cases hfirst
  rw [toList_text]
  cases call with
  | beginIf guard => simp only [lead]; exact ⟨'i', _, rfl, rfl⟩
  | beginWhile guard => simp only [lead]; exact ⟨'w', _, rfl, rfl⟩
  | beginFor header => simp only [lead]; exact ⟨'f', _, rfl, rfl⟩
  | otherwise => exact ⟨'\x7d', _, rfl, rfl⟩
  | endBlock => exact ⟨'\x7d', _, rfl, rfl⟩
  | _ => simp only [lead, hsim]; exact ⟨first, _, rfl, hblank⟩

end Call

/-! ## Programs -/

theorem spells_identifier {name : String} (h : isIdentifier name = true) : Spells isNamePart name := by
  obtain ⟨first, more, hname, hfirst, hmore⟩ := isIdentifier_iff.1 h
  rw [Spells, hname]
  exact List.forall_mem_cons.2 ⟨by simp [isNamePart, hfirst], hmore⟩

theorem toList_line (settings : Settings) (l : Line) (x : List Char) :
    (l.text settings).toList ++ x =
      List.replicate (settings.indentWidth * l.depth) ' ' ++
        ((l.call.text settings.simulator).toList ++ '\n' :: x) := by
  have hend : "\n".toList = ['\n'] := rfl
  simp only [Line.text, String.toList_append, String.toList_ofList, List.append_assoc, hend,
    List.singleton_append]

/-- The calls of a program are known by its text, though the depths of lines need not be. -/
theorem Program.calls_of_text {settings : Settings} (hsim : isIdentifier settings.simulator = true)
    {p q : Program} (hp : ∀ call ∈ p.calls, call.Plain) (hq : ∀ call ∈ q.calls, call.Plain)
    (h : p.text settings = q.text settings) : p.calls = q.calls := by
  have blanks : ∀ n, ∀ c ∈ List.replicate n ' ', (c == ' ') = true := by
    intro n c hc
    rw [List.eq_of_mem_replicate hc]
    rfl
  have lines : ∀ ls ms : List Line, (∀ l ∈ ls, l.call.Plain) → (∀ m ∈ ms, m.call.Plain) →
      ls.flatMap (fun l => (l.text settings).toList) = ms.flatMap (fun m => (m.text settings).toList) →
      ls.map (·.call) = ms.map (·.call) := by
    intro ls
    induction ls with
    | nil =>
      intro ms _ _ htext
      cases ms with
      | nil => rfl
      | cons m ms => simp [toList_line] at htext
    | cons l ls ih =>
      intro ms hls hms htext
      cases ms with
      | nil => simp [toList_line] at htext
      | cons m ms =>
        rw [List.forall_mem_cons] at hls hms
        rw [List.flatMap_cons, List.flatMap_cons, toList_line, toList_line] at htext
        have hcalls := (cut (blanks _) (blanks _) (Call.stops_text hsim _ _) (Call.stops_text hsim _ _)
          htext).2
        obtain ⟨hcall, hrest⟩ := Call.text_cut (spells_identifier hsim) hls.1 hms.1 hcalls
        rw [List.map_cons, List.map_cons, hcall, ih ms hls.2 hms.2 hrest]
  refine lines p.lines q.lines (List.forall_mem_map.1 hp) (List.forall_mem_map.1 hq) ?_
  have hchars := congrArg String.toList h
  simpa only [Program.text, String.toList_join, List.flatMap_map] using hchars

end CircuitCalls
