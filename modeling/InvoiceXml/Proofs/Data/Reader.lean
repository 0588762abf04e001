import InvoiceXml.Data.Reader
import InvoiceXml.Document.Record
import Mathlib.Tactic.SplitIfs

/-!
# Reading written data

What is written of a text or of data is read as itself, whatever stands behind it. Texts are read
character by character, each as itself or as an escape (`readStringRest_escapedChar`). Items and
members are read one after the other, with one lemma for each way in which that may go on.

* **`readValue_chars`**: data without numbers is read as itself if its containers nest no deeper
  than they may, and is not read at all otherwise;
* `readRaw?_compact`: so is the compact text of data.
-/

namespace InvoiceXml.Data

/-! ### Texts -/

theorem hexValue?_digitChar : ∀ d < 16, hexValue? (Nat.digitChar d) = some d := by decide

/-- A control character in four digits. -/
theorem padLeft_hexDigits : ∀ n < 0x20,
    Text.padLeft 4 (Nat.toDigits 16 n) =
      ['0', '0', Nat.digitChar (n / 16), Nat.digitChar (n % 16)] := by decide

theorem readUnits_hexDigits {n : Nat} (h : n < 0x20) (rest : List Char) :
    readUnits (Text.padLeft 4 (Nat.toDigits 16 n) ++ rest) = some (Char.ofNat n, rest) := by
  have hzero : hexValue? '0' = some 0 := by decide
  have hhigh := hexValue?_digitChar (n / 16) (by omega)
  have hlow := hexValue?_digitChar (n % 16) (by omega)
  have hvalue : 16 * (n / 16) + n % 16 = n := Nat.div_add_mod n 16
  have hread : readHex 4 0 (Text.padLeft 4 (Nat.toDigits 16 n) ++ rest) = some (n, rest) := by
    simp only [padLeft_hexDigits n h, List.cons_append, List.nil_append, readHex, hzero, hhigh,
      hlow, Option.bind_some, Nat.mul_zero, Nat.zero_add, hvalue]
  simp only [readUnits, hread, bind, Option.bind_some]
  rw [if_neg (by omega), if_neg (by omega)]

theorem eq_ofNat_of_toNat {c : Char} {n : Nat} (h : c.toNat = n) : c = Char.ofNat n := by
  rw [← h, Char.ofNat_toNat]

/-- A character is written as it is, or as an escape that is read as the character. -/
theorem escapedChar_cases (c : Char) :
    (escapedChar c = [c] ∧ c ≠ '"' ∧ c ≠ '\\' ∧ ¬c.toNat < 0x20) ∨
      ∃ escape, escapedChar c = '\\' :: escape ∧ ∀ rest, readEscape (escape ++ rest) = some (c, rest) := by
  rw [escapedChar]
  split_ifs with hquote hbackslash hnewline hreturn htab hback hfeed hcontrol
  · exact .inr ⟨['"'], rfl, fun rest => by rw [hquote]; rfl⟩
  · exact .inr ⟨['\\'], rfl, fun rest => by rw [hbackslash]; rfl⟩
  · exact .inr ⟨['n'], rfl, fun rest => by rw [hnewline]; rfl⟩
  · exact .inr ⟨['r'], rfl, fun rest => by rw [hreturn]; rfl⟩
  · exact .inr ⟨['t'], rfl, fun rest => by rw [htab]; rfl⟩
  · exact .inr ⟨['b'], rfl, fun rest => by rw [eq_ofNat_of_toNat hback]; rfl⟩
  · exact .inr ⟨['f'], rfl, fun rest => by rw [eq_ofNat_of_toNat hfeed]; rfl⟩
  · refine .inr ⟨'u' :: Text.padLeft 4 (Nat.toDigits 16 c.toNat), rfl, fun rest => ?_⟩
    rw [List.cons_append, readEscape, readUnits_hexDigits hcontrol, Char.ofNat_toNat]
  · exact .inl ⟨rfl, hquote, hbackslash, hcontrol⟩

/-- **A written character is read as itself.** -/
theorem readStringRest_escapedChar (fuel : Nat) (c : Char) (cs : List Char) :
    readStringRest (fuel + 1) (escapedChar c ++ cs) =
      (readStringRest fuel cs).bind fun (text, rest) => some (c :: text, rest) := by
  rcases escapedChar_cases c with ⟨hself, hquote, hbackslash, hcontrol⟩ | ⟨escape, hescape, hread⟩
  · rw [hself, List.singleton_append, readStringRest, if_neg hcontrol]
    · rfl
    · exact hquote
    · exact hbackslash
  · rw [hescape, List.cons_append, readStringRest, hread]
    rfl

theorem readStringRest_escaped {fuel : Nat} {cs : List Char} (h : cs.length < fuel) (rest : List Char) :
    readStringRest fuel (cs.flatMap escapedChar ++ '"' :: rest) = some (cs, rest) := by
  induction cs generalizing fuel with
  | nil =>
    obtain ⟨fuel, rfl⟩ := Nat.exists_eq_add_of_lt h
    rfl
  | cons c cs ih =>
    obtain ⟨fuel, rfl⟩ := Nat.exists_eq_add_one_of_ne_zero (Nat.ne_of_gt (Nat.zero_lt_of_lt h))
    rw [List.flatMap_cons, List.append_assoc, readStringRest_escapedChar, ih (Nat.lt_of_succ_lt_succ h)]
    rfl

theorem length_le_length_escaped (cs : List Char) : cs.length ≤ (cs.flatMap escapedChar).length := by
  induction cs with
  | nil => simp
  | cons c cs ih =>
    have hone : 1 ≤ (escapedChar c).length := by
      rcases escapedChar_cases c with ⟨hself, -⟩ | ⟨escape, hescape, -⟩
      · simp [hself]
      · simp [hescape]
    rw [List.flatMap_cons, List.length_append, List.length_cons]
    omega

/-- **A written text is read as itself.** -/
theorem readString_stringText (s : String) (rest : List Char) :
    readString (stringText s ++ rest) = some (s, rest) := by
  have hlength := length_le_length_escaped s.toList
  have hbody : s.toList.length < (s.toList.flatMap escapedChar ++ '"' :: rest).length := by
    rw [List.length_append, List.length_cons]
    omega
  rw [stringText, List.cons_append, List.append_assoc, List.singleton_append, readString,
    readStringRest_escaped hbody]
  exact congrArg (fun text => some (text, rest)) String.ofList_toList

/-! ### Data without numbers -/

mutual

/-- Whether there is no number in the data. -/
def HasNoNumber : Data → Prop
  | num _ => False
  | arr items => ItemsHaveNoNumber items
  | obj members => MembersHaveNoNumber members
  | null | bool _ | str _ => True

def ItemsHaveNoNumber : List Data → Prop
  | [] => True
  | item :: rest => HasNoNumber item ∧ ItemsHaveNoNumber rest

def MembersHaveNoNumber : List (String × Data) → Prop
  | [] => True
  | (_, value) :: rest => HasNoNumber value ∧ MembersHaveNoNumber rest

end

theorem skipGap_cons {c : Char} (h : isGap c = false) (cs : List Char) : skipGap (c :: cs) = c :: cs :=
  List.dropWhile_cons_of_neg (by simp [h])

/-- What is written starts with no blank, and with no bracket that closes. -/
theorem exists_chars_eq_cons {data : Data} (h : data.HasNoNumber) :
    ∃ c cs, data.chars = c :: cs ∧ isGap c = false ∧ c ≠ ']' := by
  cases data with
  | null => exact ⟨'n', _, by rw [chars], by decide, by decide⟩
  | bool b => cases b <;> exact ⟨_, _, by rw [chars], by decide, by decide⟩
  | num n => exact h.elim
  | str s => exact ⟨'"', _, by rw [chars, stringText], by decide, by decide⟩
  | arr items => exact ⟨'[', _, by rw [chars], by decide, by decide⟩
  | obj members => exact ⟨'\x7b', _, by rw [chars], by decide, by decide⟩

theorem exists_itemChars_eq_cons {item : Data} {items : List Data} (h : ItemsHaveNoNumber (item :: items)) :
    ∃ c cs, itemChars (item :: items) = c :: cs ∧ isGap c = false ∧ c ≠ ']' := by
  obtain ⟨c, cs, hchars, hgap, hclosing⟩ := exists_chars_eq_cons h.1
  cases items with
  | nil => exact ⟨c, _, congrArg (· ++ [']']) hchars, hgap, hclosing⟩
  | cons next items => exact ⟨c, _, congrArg (· ++ ',' :: itemChars (next :: items)) hchars, hgap, hclosing⟩

/-- What opens no container is read alike at every depth. -/
theorem readValue_of_ne {c : Char} (hgap : isGap c = false) (harray : c ≠ '[')
    (hobject : c ≠ '\x7b') (depth : Nat) (cs : List Char) :
    readValue depth (c :: cs) = readScalar (c :: cs) := by
  cases depth with
  | zero => rw [readValue, skipGap_cons hgap]
  | succ depth =>
    rw [readValue, skipGap_cons hgap]
    split
    · rename_i heq
      exact absurd (List.cons.inj heq).1 harray
    · rename_i heq
      exact absurd (List.cons.inj heq).1 hobject
    · rfl

theorem readValue_zero_array (cs : List Char) : readValue 0 ('[' :: cs) = none := rfl

theorem readValue_zero_object (cs : List Char) : readValue 0 ('\x7b' :: cs) = none := rfl

/-- An array with items is read by its items. -/
theorem readValue_array {item : Data} {items : List Data} (h : ItemsHaveNoNumber (item :: items))
    (depth : Nat) (rest : List Char) :
    readValue (depth + 1) ((arr (item :: items)).chars ++ rest) =
      (readItems (readValue depth) (itemChars (item :: items) ++ rest).length
        (itemChars (item :: items) ++ rest)).map fun read => (arr read.1, read.2) := by
  obtain ⟨c, cs, hchars, hgap, hclosing⟩ := exists_itemChars_eq_cons h
  have hopening : skipGap ('[' :: c :: (cs ++ rest)) = '[' :: c :: (cs ++ rest) := skipGap_cons (by decide) _
  rw [chars, hchars, List.cons_append, List.cons_append]
  simp only [readValue, hopening, skipGap_cons hgap]
  split
  · rename_i heq
    exact absurd (List.cons.inj heq).1 hclosing
  · rfl

/-- An object with members is read by its members. -/
theorem readValue_object (depth : Nat) (key : String) (value : Data) (members : List (String × Data))
    (rest : List Char) :
    readValue (depth + 1) ((obj ((key, value) :: members)).chars ++ rest) =
      (readMembers (readValue depth) (memberChars ((key, value) :: members) ++ rest).length
        (memberChars ((key, value) :: members) ++ rest)).map fun read => (obj read.1, read.2) := by
  have hchars : ∃ cs, memberChars ((key, value) :: members) = '"' :: cs := by
    cases members <;> exact ⟨_, rfl⟩
  obtain ⟨cs, hchars⟩ := hchars
  rw [chars, hchars]
  rfl

/-- Every item takes a character at least. -/
theorem length_le_length_itemChars : (items : List Data) → items.length ≤ (itemChars items).length
  | [] => Nat.zero_le _
  | [item] => by simp [itemChars]
  | item :: next :: rest => by
    have ih := length_le_length_itemChars (next :: rest)
    simp only [itemChars, List.length_append, List.length_cons] at ih ⊢
    omega

/-- Every member takes a character at least. -/
theorem length_le_length_memberChars :
    (members : List (String × Data)) → members.length ≤ (memberChars members).length
  | [] => Nat.zero_le _
  | [(key, value)] => by
    simp only [memberChars, List.length_append, List.length_cons]
    omega
  | (key, value) :: next :: rest => by
    have ih := length_le_length_memberChars (next :: rest)
    simp only [memberChars, List.length_append, List.length_cons] at ih ⊢
    omega

variable {value : Reads Data} {fuel : Nat} {cs rest : List Char} {item : Data}

theorem readItems_of_last (h : value cs = some (item, ']' :: rest)) :
    readItems value (fuel + 1) cs = some ([item], rest) := by
  rw [readItems, h]
  rfl

theorem readItems_of_more (h : value cs = some (item, ',' :: rest)) :
    readItems value (fuel + 1) cs = (readItems value fuel rest).map fun read => (item :: read.1, read.2) := by
  rw [readItems, h, Option.map_eq_bind]
  rfl

theorem readItems_of_none (h : value cs = none) : readItems value (fuel + 1) cs = none := by
  rw [readItems, h]
  rfl

/-- A written key is read, and then the value behind its colon. -/
theorem readMembers_of_key (key : String) (cs : List Char) :
    readMembers value (fuel + 1) (stringText key ++ ':' :: cs) =
      (value cs).bind fun read =>
        match skipGap read.2 with
        | ',' :: rest => (readMembers value fuel rest).map fun others => ((key, read.1) :: others.1, others.2)
        | '\x7d' :: rest => some ([(key, read.1)], rest)
        | _ => none := by
  have hgap : skipGap (stringText key ++ ':' :: cs) = stringText key ++ ':' :: cs := rfl
  simp only [readMembers, hgap, readString_stringText, Option.map_eq_bind]
  rfl

theorem readMembers_of_last {key : String} (h : value cs = some (item, '\x7d' :: rest)) :
    readMembers value (fuel + 1) (stringText key ++ ':' :: cs) = some ([(key, item)], rest) := by
  rw [readMembers_of_key, h]
  rfl

theorem readMembers_of_more {key : String} (h : value cs = some (item, ',' :: rest)) :
    readMembers value (fuel + 1) (stringText key ++ ':' :: cs) =
      (readMembers value fuel rest).map fun others => ((key, item) :: others.1, others.2) := by
  rw [readMembers_of_key, h]
  rfl

theorem readMembers_of_none {key : String} (h : value cs = none) :
    readMembers value (fuel + 1) (stringText key ++ ':' :: cs) = none := by
  rw [readMembers_of_key, h]
  rfl

mutual

/-- **Written data is read as itself** if its containers may nest as deep as they do. -/
theorem readValue_chars : (data : Data) → data.HasNoNumber → (depth : Nat) → (rest : List Char) →
    readValue depth (data.chars ++ rest) = if data.depth ≤ depth then some (data, rest) else none
  | null, _, depth, rest => readValue_of_ne (by decide) (by decide) (by decide) depth _
  | bool true, _, depth, rest => readValue_of_ne (by decide) (by decide) (by decide) depth _
  | bool false, _, depth, rest => readValue_of_ne (by decide) (by decide) (by decide) depth _
  | num _, h, _, _ => h.elim
  | str s, _, depth, rest => by
    have hread : readScalar (stringText s ++ rest) = some (str s, rest) :=
      congrArg (Option.map fun read : String × List Char => (str read.1, read.2))
        (readString_stringText s rest)
    exact (readValue_of_ne (by decide) (by decide) (by decide) depth _).trans hread
  | arr items, _, 0, rest => readValue_zero_array _
  | arr [], _, depth + 1, rest => (if_pos (Nat.le_add_left 1 depth)).symm
  | arr (item :: items), h, depth + 1, rest => by
    have hlength := length_le_length_itemChars (item :: items)
    have hfuel : items.length < (itemChars (item :: items) ++ rest).length := by
      rw [List.length_cons] at hlength
      rw [List.length_append]
      omega
    have hdepth : (arr (item :: items)).depth ≤ depth + 1 ↔ depthItems (item :: items) ≤ depth :=
      Nat.succ_le_succ_iff
    have hopen := readValue_array h depth rest
    rw [readItems_itemChars item items h depth _ hfuel rest] at hopen
    refine hopen.trans ?_
    simp only [hdepth]
    split <;> rfl
  | obj members, _, 0, rest => readValue_zero_object _
  | obj [], _, depth + 1, rest => (if_pos (Nat.le_add_left 1 depth)).symm
  | obj ((key, value) :: members), h, depth + 1, rest => by
    have hlength := length_le_length_memberChars ((key, value) :: members)
    have hfuel : members.length < (memberChars ((key, value) :: members) ++ rest).length := by
      rw [List.length_cons] at hlength
      rw [List.length_append]
      omega
    have hdepth : (obj ((key, value) :: members)).depth ≤ depth + 1 ↔
        depthMembers ((key, value) :: members) ≤ depth := Nat.succ_le_succ_iff
    have hopen := readValue_object depth key value members rest
    rw [readMembers_memberChars key value members h depth _ hfuel rest] at hopen
    refine hopen.trans ?_
    simp only [hdepth]
    split <;> rfl
termination_by data => sizeOf data

/-- The items of an array, up to its bracket. -/
theorem readItems_itemChars : (item : Data) → (items : List Data) → ItemsHaveNoNumber (item :: items) →
    (depth fuel : Nat) → items.length < fuel → (rest : List Char) →
    readItems (readValue depth) fuel (itemChars (item :: items) ++ rest) =
      if depthItems (item :: items) ≤ depth then some (item :: items, rest) else none
  | item, [], h, depth, fuel + 1, _, rest => by
    have hitem := readValue_chars item h.1 depth (']' :: rest)
    have hdepth : depthItems [item] = item.depth := Nat.max_zero _
    rw [itemChars, List.append_assoc, List.singleton_append, hdepth]
    split at hitem
    · rw [readItems_of_last hitem, if_pos ‹_›]
    · rw [readItems_of_none hitem, if_neg ‹_›]
  | item, next :: items, h, depth, fuel + 1, hfuel, rest => by
    have hitem := readValue_chars item h.1 depth (',' :: (itemChars (next :: items) ++ rest))
    have hitems := readItems_itemChars next items h.2 depth fuel (Nat.lt_of_succ_lt_succ hfuel) rest
    have hchars : itemChars (item :: next :: items) = item.chars ++ ',' :: itemChars (next :: items) := rfl
    have hdepth : depthItems (item :: next :: items) = max item.depth (depthItems (next :: items)) := rfl
    rw [hchars, List.append_assoc, List.cons_append, hdepth]
    split at hitem
    · rw [readItems_of_more hitem, hitems]
      split
      · rw [if_pos (by omega)]
        rfl
      · rw [if_neg (by omega)]
        rfl
    · rw [readItems_of_none hitem, if_neg (by omega)]
termination_by item items => sizeOf item + sizeOf items + 1

/-- The members of an object, up to its brace. -/
theorem readMembers_memberChars : (key : String) → (value : Data) → (members : List (String × Data)) →
    MembersHaveNoNumber ((key, value) :: members) → (depth fuel : Nat) → members.length < fuel →
    (rest : List Char) →
    readMembers (readValue depth) fuel (memberChars ((key, value) :: members) ++ rest) =
      if depthMembers ((key, value) :: members) ≤ depth then some ((key, value) :: members, rest) else none
  | key, value, [], h, depth, fuel + 1, _, rest => by
    have hvalue := readValue_chars value h.1 depth ('\x7d' :: rest)
    have hchars : memberChars [(key, value)] ++ rest =
        stringText key ++ ':' :: (value.chars ++ '\x7d' :: rest) := by
      simp [memberChars]
    have hdepth : depthMembers [(key, value)] = value.depth := Nat.max_zero _
    rw [hchars, hdepth]
    split at hvalue
    · rw [readMembers_of_last hvalue, if_pos ‹_›]
    · rw [readMembers_of_none hvalue, if_neg ‹_›]
  | key, value, (next, other) :: members, h, depth, fuel + 1, hfuel, rest => by
    have hvalue := readValue_chars value h.1 depth (',' :: (memberChars ((next, other) :: members) ++ rest))
    have hmembers :=
      readMembers_memberChars next other members h.2 depth fuel (Nat.lt_of_succ_lt_succ hfuel) rest
    have hchars : memberChars ((key, value) :: (next, other) :: members) ++ rest =
        stringText key ++ ':' ::
            (value.chars ++ ',' :: (memberChars ((next, other) :: members) ++ rest)) := by
      simp [memberChars]
    have hdepth : depthMembers ((key, value) :: (next, other) :: members) =
        max value.depth (depthMembers ((next, other) :: members)) := rfl
    rw [hchars, hdepth]
    split at hvalue
    · rw [readMembers_of_more hvalue, hmembers]
      split
      · rw [if_pos (by omega)]
        rfl
      · rw [if_neg (by omega)]
        rfl
    · rw [readMembers_of_none hvalue, if_neg (by omega)]
termination_by _ value members => sizeOf value + sizeOf members + 1

end

/-- **The compact text of data is read as the data** if its containers may nest as deep as they do. -/
theorem readRaw?_compact {data : Data} (h : data.HasNoNumber) :
    readRaw? data.compact = if data.depth ≤ maxDepth then some data else none := by
  have hread := readValue_chars data h maxDepth []
  rw [List.append_nil] at hread
  rw [readRaw?, compact, String.toList_ofList, hread]
  split <;> rfl

end InvoiceXml.Data
