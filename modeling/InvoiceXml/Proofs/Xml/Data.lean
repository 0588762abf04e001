import InvoiceXml.Proofs.Assembly.Visit
import InvoiceXml.Proofs.Text.Numeral
import InvoiceXml.Proofs.Xml.Grammar

/-!
# Texts of data

The texts in data are those of its scalars at any depth, keys excepted. A document is rendered from
scalars: from these texts as they are, and from numbers and truth values, whose characters are all
allowed.

* `isText_of_scalarText`: the text of a scalar has allowed characters if the texts in it have;
* **`texts_subset_of_mem_visitsOfFields`**: what visits find in data are texts of the data.
-/

namespace InvoiceXml

open Xml (IsText isChar)

namespace Data

mutual

/-- The texts in data. -/
def texts : Data → List String
  | .str text => [text]
  | .arr items => textsOfItems items
  | .obj members => textsOfMembers members
  | .null | .bool _ | .num _ => []

def textsOfItems : List Data → List String
  | [] => []
  | item :: rest => texts item ++ textsOfItems rest

def textsOfMembers : List (String × Data) → List String
  | [] => []
  | (_, value) :: rest => texts value ++ textsOfMembers rest

end

theorem texts_subset_of_mem {item : Data} {items : List Data} (h : item ∈ items) :
    item.texts ⊆ (Data.arr items).texts := by
  show item.texts ⊆ textsOfItems items
  induction items with
  | nil => cases h
  | cons first rest ih =>
    rw [textsOfItems]
    rcases List.mem_cons.mp h with rfl | h
    · exact List.subset_append_left _ _
    · exact List.subset_append_of_subset_right _ (ih h)

theorem texts_subset_of_member? {name : String} {value : Data} {members : List (String × Data)}
    (h : member? name members = some value) : value.texts ⊆ (Data.obj members).texts := by
  show value.texts ⊆ textsOfMembers members
  induction members with
  | nil => cases h
  | cons first rest ih =>
    obtain ⟨key, found⟩ := first
    rw [textsOfMembers]
    rw [member?] at h
    split at h
    · obtain rfl := Option.some.inj h
      exact List.subset_append_left _ _
    · exact List.subset_append_of_subset_right _ (ih h)

theorem texts_subset_of_present? {data value : Data} {name : String} (h : data.present? name = some value) :
    value.texts ⊆ data.texts := by
  obtain ⟨hget, -⟩ := Option.filter_eq_some_iff.mp h
  cases data with
  | obj members => exact texts_subset_of_member? hget
  | null | bool _ | num _ | str _ | arr _ => cases hget

end Data

/-! ### Numbers -/

namespace Layout

theorem mem_positionalDigits {digits : List Char} {place : Int} {keepsFraction : Bool} {c : Char}
    (h : c ∈ positionalDigits digits place keepsFraction) : c ∈ digits ∨ c ∈ ['0', '.'] := by
  rw [positionalDigits] at h
  split at h
  · simp only [List.cons_append, List.mem_cons, List.mem_append] at h
    rcases h with rfl | rfl | h | h
    · simp
    · simp
    · simp [List.eq_of_mem_replicate h]
    · exact .inl h
  · dsimp only at h
    by_cases hfits : digits.length ≤ place.toNat + 1
    · rw [if_pos hfits, List.mem_append, List.mem_append] at h
      rcases h with (h | h) | h
      · exact .inl h
      · simp [List.eq_of_mem_replicate h]
      · cases keepsFraction with
        | true => exact .inr (List.mem_reverse.mp h)
        | false => cases h
    · rw [if_neg hfits, List.mem_append, List.mem_cons] at h
      rcases h with h | rfl | h
      · exact .inl (List.mem_of_mem_take h)
      · simp
      · exact .inl (List.mem_of_mem_drop h)

theorem mem_exponentDigits {digits : List Char} {place : Int} {c : Char}
    (h : c ∈ exponentDigits digits place) :
    c ∈ digits ∨ c ∈ Text.digits place.natAbs ∨ c ∈ ['.', 'e', '+', '-'] := by
  simp only [exponentDigits, List.mem_append, List.mem_cons] at h
  rcases h with h | rfl | rfl | h
  · split at h
    · exact .inl h
    · simp only [List.mem_append, List.mem_cons] at h
      rcases h with h | rfl | h
      · exact .inl (List.mem_of_mem_take h)
      · simp
      · exact .inl (List.mem_of_mem_drop h)
  · simp
  · split <;> simp
  · exact .inr (.inl h)

/-- A number is written with digits and a few signs. -/
theorem mem_render {layout : Layout} {x : Binary64} {c : Char} (h : c ∈ (layout.render x).toList) :
    c.isDigit = true ∨ c ∈ ['0', '.', 'e', '+', '-'] := by
  have hdigits : ∀ {n : Nat}, c ∈ Text.digits n → c.isDigit = true := Text.isDigit_of_mem_digits
  have hbody : ∀ isPositional : Bool, ∀ n place keepsFraction,
      c ∈ (if isPositional then positionalDigits (Text.digits n) place keepsFraction
        else exponentDigits (Text.digits n) place) → c.isDigit = true ∨ c ∈ ['0', '.', 'e', '+', '-'] := by
    intro isPositional n place keepsFraction h
    cases isPositional with
    | true =>
      refine (mem_positionalDigits h).imp hdigits fun h => ?_
      exact List.mem_append_left ['e', '+', '-'] h
    | false =>
      rcases mem_exponentDigits h with h | h | h
      · exact .inl (hdigits h)
      · exact .inl (hdigits h)
      · exact .inr (List.mem_cons_of_mem _ h)
  rw [render, String.toList_ofList] at h
  split at h
  · rcases List.mem_cons.mp h with rfl | h
    · simp
    · exact hbody _ _ _ _ h
  · exact hbody _ _ _ _ h

end Layout

/-! ### Scalars -/

theorem Xml.isChar_of_isDigit {c : Char} (h : c.isDigit = true) : isChar c = true := by
  obtain ⟨hleast, hmost⟩ := Char.isDigit_iff_toNat.mp h
  change 48 ≤ c.toNat at hleast
  change c.toNat ≤ 57 at hmost
  exact (Text.inRanges_iff _ _).mpr ⟨(0x20, 0xD7FF), by decide, by omega, by omega⟩

/-- The characters of a number are allowed. -/
theorem Num.isText_dataText (others : Char → Prop) (n : Num) : IsText others n.dataText := by
  intro c hc
  have hsigns : ['0', '.', 'e', '+', '-'].all isChar = true := by decide
  have hfound : c.isDigit = true ∨ c ∈ ['0', '.', 'e', '+', '-'] := by
    cases n with
    | float x => exact Layout.mem_render hc
    | int n =>
      rw [dataText, String.toList_ofList, Text.signedDigits] at hc
      split at hc
      · rcases List.mem_cons.mp hc with rfl | hc
        · simp
        · exact .inl (Text.isDigit_of_mem_digits hc)
      · exact .inl (Text.isDigit_of_mem_digits hc)
  exact .inl (hfound.elim Xml.isChar_of_isDigit (List.all_eq_true.mp hsigns c))

namespace Assembly

theorem isText_flagText (others : Char → Prop) (flag : Bool) : IsText others (ExtraValue.flagText flag) := by
  have hall : ∀ flag, (ExtraValue.flagText flag).toList.all isChar = true := by decide
  exact fun c hc => .inl (List.all_eq_true.mp (hall flag) c hc)

/-- The text of a scalar has allowed characters if the texts in it have. -/
theorem isText_of_scalarText {others : Char → Prop} {data : Data} {text : String}
    (h : scalarText data = some text) (hdata : ∀ text ∈ data.texts, IsText others text) :
    IsText others text := by
  cases data with
  | str s =>
    obtain rfl := Option.some.inj h
    exact hdata s List.mem_cons_self
  | num n =>
    obtain rfl := Option.some.inj h
    exact n.isText_dataText others
  | bool b =>
    obtain rfl := Option.some.inj h
    exact isText_flagText others b
  | null | arr _ | obj _ => cases h

/-! ### Visits -/

variable {groups : GroupIndex}

theorem Inside.texts_subset {bindings innerBindings : Bindings} {path innerPath : FieldPath}
    {value : Option Data}
    {field : Field} {frame innerFrame : Frame} {innerData data : Data}
    (h : Inside groups bindings path value field frame innerBindings innerPath innerData innerFrame)
    (hvalue : ∀ found, value = some found → found.texts ⊆ data.texts) : innerData.texts ⊆ data.texts := by
  have hitem : ∀ (i : Nat) (item : Data), (itemsOf value)[i]? = some item →
      (itemData item).texts ⊆ data.texts := by
    intro i item hitem
    have hmem : item ∈ itemsOf value := List.mem_of_getElem? hitem
    rw [itemData]
    split
    · exact List.nil_subset _
    · cases value with
      | none => cases hmem
      | some found =>
        refine List.Subset.trans ?_ (hvalue found rfl)
        cases found with
        | arr items => exact Data.texts_subset_of_mem hmem
        | null | bool _ | num _ | str _ | obj _ =>
          obtain rfl := List.mem_singleton.mp hmem
          exact List.Subset.refl _
  cases h with
  | object htype =>
    cases value with
    | none => exact List.nil_subset _
    | some found => exact hvalue found rfl
  | shared _ _ _ hfound => exact hitem _ _ hfound
  | bound _ _ hfound => exact hitem _ _ hfound

/-- **What visits find are texts of the data.** -/
theorem texts_subset_of_mem_visitsOfFields : ∀ (fields : List (String × Field)) {bindings : Bindings}
    {path : FieldPath} {data value : Data} {frame : Frame} {visit : Visit},
    visit ∈ visitsOfFields groups bindings path data fields frame → visit.value = some value →
      value.texts ⊆ data.texts := by
  refine Schema.induction_on_shapes fun fields ih => ?_
  intro bindings path data value frame visit hvisit hvalue
  obtain ⟨before, name, field, after, rfl, hfield⟩ := mem_visitsOfFields.mp hvisit
  have hmem : (name, field) ∈ before ++ (name, field) :: after := by simp
  rcases mem_visitsOfField.mp hfield with rfl | ⟨below, hshape, _, _, _, _, hinside, hinner⟩
  · exact Data.texts_subset_of_present? hvalue
  · exact List.Subset.trans (ih name field below hmem hshape hinner hvalue)
      (hinside.texts_subset fun found => Data.texts_subset_of_present?)

end Assembly

end InvoiceXml
