import InvoiceXml.FieldPath
import InvoiceXml.Proofs.Schema.Entry
import InvoiceXml.Proofs.Text.Split

/-!
# Finding fields by the text of a path

The text of a path puts the numbers of items in brackets. Without its parts in brackets
(`Text.withoutBrackets`) it is the dotted path of the names (`withoutBrackets_render`), and that is
where a schema finds the field (**`lookup?_withoutBrackets_render`**), as long as names are plain:
not empty, and free of the point and of the opening bracket.
-/

namespace InvoiceXml

namespace Text

/-- The characters outside of brackets, from inside or outside of one on. -/
def outsideBrackets : (inside : Bool) → List Char → List Char
  | _, [] => []
  | true, c :: cs => outsideBrackets (c ≠ ']') cs
  | false, c :: cs => if c = '[' then outsideBrackets true cs else c :: outsideBrackets false cs

/-- The text without its parts in brackets. -/
def withoutBrackets (s : String) : String := String.ofList (outsideBrackets false s.toList)

theorem outsideBrackets_of_notMem {cs : List Char} (h : '[' ∉ cs) (rest : List Char) :
    outsideBrackets false (cs ++ rest) = cs ++ outsideBrackets false rest := by
  induction cs with
  | nil => rfl
  | cons c cs ih =>
    rw [List.mem_cons, not_or] at h
    rw [List.cons_append, outsideBrackets, if_neg (Ne.symm h.1), ih h.2, List.cons_append]

theorem outsideBrackets_of_inside {cs : List Char} (h : ']' ∉ cs) (rest : List Char) :
    outsideBrackets true (cs ++ ']' :: rest) = outsideBrackets false rest := by
  induction cs with
  | nil => rfl
  | cons c cs ih =>
    rw [List.mem_cons, not_or] at h
    rw [List.cons_append, outsideBrackets, decide_eq_true (Ne.symm h.1), ih h.2]

/-- Whether every bracket that a text opens is closed in it. -/
def IsClosed (cs : List Char) : Prop :=
  ∀ rest, outsideBrackets false (cs ++ rest) = outsideBrackets false cs ++ outsideBrackets false rest

theorem isClosed_of_notMem {cs : List Char} (h : '[' ∉ cs) : IsClosed cs := by
  intro rest
  have hall := outsideBrackets_of_notMem h []
  rw [List.append_nil] at hall
  rw [outsideBrackets_of_notMem h, hall, outsideBrackets, List.append_nil]

theorem isClosed_bracketed {cs : List Char} (h : ']' ∉ cs) : IsClosed ('[' :: (cs ++ [']'])) := by
  intro rest
  simp only [List.cons_append, List.append_assoc, outsideBrackets, if_true, outsideBrackets_of_inside h,
    List.nil_append]

theorem IsClosed.append {cs ds : List Char} (hcs : IsClosed cs) (hds : IsClosed ds) :
    IsClosed (cs ++ ds) := by
  intro rest
  rw [List.append_assoc, hcs, hds, hcs, List.append_assoc]

theorem rightBracket_notMem_digits (n : Nat) : ']' ∉ digits n := by
  intro hmem
  have hdigit := Nat.isDigit_of_mem_toDigits (by decide) (by decide) hmem
  cases hdigit

end Text

open Text (IsClosed outsideBrackets withoutBrackets)

namespace FieldPath

/-- Whether a name can stand in the text of a path: it is not empty, and has no point and no opening
bracket. -/
def IsPlain (name : String) : Prop := name ≠ "" ∧ '.' ∉ name.toList ∧ '[' ∉ name.toList

instance (name : String) : Decidable (IsPlain name) :=
  inferInstanceAs (Decidable (name ≠ "" ∧ '.' ∉ name.toList ∧ '[' ∉ name.toList))

/-- Whether the first step of a path, if there is one, is a name. -/
def StartsWithName : FieldPath → Prop
  | .item _ :: _ => False
  | _ => True

end FieldPath

open FieldPath (IsPlain StartsWithName extend)

/-! ### The text of a path, without brackets -/

section Text

variable {text name : String}

theorem toList_withoutBrackets (text : String) :
    (withoutBrackets text).toList = outsideBrackets false text.toList :=
  String.toList_ofList

theorem withoutBrackets_append (htext : IsClosed text.toList) (other : String) :
    withoutBrackets (text ++ other) = withoutBrackets text ++ withoutBrackets other := by
  rw [← String.toList_inj]
  simp only [toList_withoutBrackets, String.toList_append]
  exact htext _

theorem withoutBrackets_of_notMem (h : '[' ∉ text.toList) : withoutBrackets text = text := by
  rw [← String.toList_inj, toList_withoutBrackets]
  simpa [outsideBrackets] using Text.outsideBrackets_of_notMem h []

/-- The number of an item leaves nothing behind. -/
theorem withoutBrackets_extend_item (htext : IsClosed text.toList) (number : Nat) :
    withoutBrackets (extend text (.item number)) = withoutBrackets text := by
  have hnumber : withoutBrackets ("[" ++ Text.natText number ++ "]") = "" := by
    rw [← String.toList_inj, toList_withoutBrackets]
    simpa [Text.natText, outsideBrackets] using
      Text.outsideBrackets_of_inside (Text.rightBracket_notMem_digits number) []
  rw [extend, String.append_assoc, String.append_assoc, withoutBrackets_append htext,
    ← String.append_assoc, hnumber, String.append_empty]

theorem isClosed_extend_item (htext : IsClosed text.toList) (number : Nat) :
    IsClosed (extend text (.item number)).toList := by
  have hnumber := Text.isClosed_bracketed (Text.rightBracket_notMem_digits number)
  simpa [extend, Text.natText] using htext.append hnumber

theorem withoutBrackets_extend_field (htext : IsClosed text.toList)
    (hempty : withoutBrackets text = "" → text = "") (hname : IsPlain name) :
    withoutBrackets (extend text (.field name)) = Schema.below (withoutBrackets text) name := by
  have hkept := withoutBrackets_of_notMem hname.2.2
  by_cases h : text = ""
  · subst h
    exact hkept
  · have hpoint : withoutBrackets "." = "." := by decide
    have hseparator : IsClosed ['.'] := Text.isClosed_of_notMem (by decide)
    have hclosed : IsClosed (text ++ ".").toList := by simpa using htext.append hseparator
    rw [extend, if_neg h, Schema.below, if_neg (mt hempty h), withoutBrackets_append hclosed,
      withoutBrackets_append htext, hpoint, hkept]

theorem isClosed_extend_field (htext : IsClosed text.toList) (hname : IsPlain name) :
    IsClosed (extend text (.field name)).toList := by
  have hclosed := Text.isClosed_of_notMem hname.2.2
  rw [extend]
  split
  · exact hclosed
  · have hpoint : IsClosed ['.'] := Text.isClosed_of_notMem (by decide)
    simpa using (htext.append hpoint).append hclosed

theorem below_ne_empty (hname : name ≠ "") (parent : String) : Schema.below parent name ≠ "" := by
  rw [Schema.below]
  split
  · exact hname
  · intro h
    have hname' := congrArg String.toList h
    simp at hname'

end Text

namespace FieldPath

/-- The steps of a path add the names of its fields to the text without brackets, and nothing else. -/
theorem withoutBrackets_foldl_extend {path : FieldPath} (hplain : ∀ name ∈ path.names, IsPlain name)
    {text : String} (htext : IsClosed text.toList) (hempty : withoutBrackets text = "" → text = "")
    (hstart : text = "" → StartsWithName path) :
    withoutBrackets (path.foldl extend text) = path.names.foldl Schema.below (withoutBrackets text) := by
  induction path generalizing text with
  | nil => rfl
  | cons segment path ih =>
    cases segment with
    | field name =>
      obtain ⟨hname, hrest⟩ :=
        List.forall_mem_cons.mp (show ∀ other ∈ name :: names path, IsPlain other from hplain)
      have hextended := withoutBrackets_extend_field htext hempty hname
      have hne := below_ne_empty hname.1 (withoutBrackets text)
      rw [List.foldl_cons,
        ih hrest (isClosed_extend_field htext hname) (fun h => absurd (hextended ▸ h) hne) ?_,
        hextended]
      · rfl
      · intro h
        rw [h] at hextended
        exact absurd hextended.symm hne
    | item number =>
      have hne : text ≠ "" := fun h => hstart h
      have hextended := withoutBrackets_extend_item htext number
      rw [List.foldl_cons, ih hplain (isClosed_extend_item htext number)
        (fun h => absurd (hempty (hextended ▸ h)) hne) ?_, hextended]
      · rfl
      · intro h
        rw [h] at hextended
        exact absurd (hempty hextended.symm) hne

/-- Without its parts in brackets the text of a path is the dotted path of its names. -/
theorem withoutBrackets_render {path : FieldPath} (hplain : ∀ name ∈ path.names, IsPlain name)
    (hstart : StartsWithName path) : withoutBrackets path.render = Schema.dotted path.names :=
  withoutBrackets_foldl_extend hplain (Text.isClosed_of_notMem (by simp)) (fun _ => rfl) fun _ => hstart

end FieldPath

namespace Schema

theorem toList_foldl_below {names : List String} {text : String} (htext : text ≠ "") :
    (names.foldl below text).toList = text.toList ++ (names.map String.toList).flatMap (['.'] ++ ·) := by
  induction names generalizing text with
  | nil => simp
  | cons name names ih =>
    have hnext : below text name = text ++ "." ++ name := if_neg htext
    have hne : below text name ≠ "" := by
      intro h
      have hchars := congrArg String.toList h
      simp [hnext] at hchars
    rw [List.foldl_cons, ih hne, hnext]
    simp

/-- The dotted path of names is these names with points between them, if the first is not empty. -/
theorem toList_dotted {name : String} (hname : name ≠ "") (names : List String) :
    (dotted (name :: names)).toList = Text.joinWith ['.'] ((name :: names).map String.toList) := by
  rw [List.map_cons, Text.joinWith_cons]
  exact toList_foldl_below hname

/-- Whether a name can be told from its neighbours in a dotted path: it is not empty, and has no point. -/
def IsStep (name : String) : Prop := name ≠ "" ∧ '.' ∉ name.toList

instance (name : String) : Decidable (IsStep name) :=
  inferInstanceAs (Decidable (name ≠ "" ∧ '.' ∉ name.toList))

/-- Cutting the dotted path of names at its points gives the names back. -/
theorem pieces_dotted {names : List String} (hne : names ≠ []) (hsteps : ∀ name ∈ names, IsStep name) :
    Text.pieces '.' (dotted names) = names := by
  have hjoined : (dotted names).toList = Text.joinWith ['.'] (names.map String.toList) := by
    cases names with
    | nil => exact absurd rfl hne
    | cons name names => exact toList_dotted (hsteps name List.mem_cons_self).1 names
  have hfree : ∀ piece ∈ names.map String.toList, '.' ∉ piece := by
    intro piece hpiece
    obtain ⟨name, hname, rfl⟩ := List.mem_map.mp hpiece
    exact (hsteps name hname).2
  rw [Text.pieces, hjoined, Text.splitAtEach_joinWith (by simpa using hne) hfree, List.map_map]
  exact (List.map_congr_left fun name _ => String.ofList_toList).trans (List.map_id _)

/-- A text is the dotted path of its pieces between points, if the first is not empty. -/
theorem dotted_pieces {path name : String} {names : List String} (h : Text.pieces '.' path = name :: names)
    (hname : name ≠ "") : dotted (name :: names) = path := by
  rw [← String.toList_inj, toList_dotted hname, ← h, Text.pieces, List.map_map]
  have hpieces : (Text.splitAtEach '.' path.toList).map (String.toList ∘ String.ofList) =
      Text.splitAtEach '.' path.toList :=
    (List.map_congr_left fun piece _ => String.toList_ofList).trans (List.map_id _)
  rw [hpieces, Text.joinWith_splitAtEach]

/-- A field is found below another along one more name. -/
theorem along?_cons_of_shape {name : String} {names : List String} {fields below : List (String × Field)}
    {field found : Field} (hfind : find? name fields = some field) (hshape : field.shape = some below)
    (hfound : along? names below = some found) : along? (name :: names) fields = some found := by
  cases names with
  | nil => cases hfound
  | cons next names =>
    rw [along?, hfind, Option.bind_some, hshape, Option.bind_some, hfound]
    exact nofun

/-- **Paths lead to fields.** Without its parts in brackets the text of a path is looked up along
the names. -/
theorem lookup?_withoutBrackets_render {path : FieldPath} (hne : path.names ≠ [])
    (hplain : ∀ name ∈ path.names, IsPlain name) (hstart : StartsWithName path) (schema : Schema) :
    schema.lookup? (withoutBrackets path.render) = schema.along? path.names := by
  rw [FieldPath.withoutBrackets_render hplain hstart, lookup?,
    pieces_dotted hne fun name hname => ⟨(hplain name hname).1, (hplain name hname).2.1⟩]

end Schema

end InvoiceXml
