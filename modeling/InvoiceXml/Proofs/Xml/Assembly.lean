import InvoiceXml.Proofs.Assembly.Scope
import InvoiceXml.Proofs.Text.Ascii
import InvoiceXml.Proofs.Xml.Markup

/-!
# Assembled documents

What writes bring into a document decides whether its markup is a document in the sense of XML 1.0.
Setting an attribute again replaces it, so no element gets two of one name; what is asked of writes
is that the names on their way and of their attributes are names, and, for the characters, that
their texts have allowed ones.

Paths of ASCII characters lead through such names (`isNamed_of_read`).

* **`everywhere_isNamed_of_assemble`**, **`everywhere_isPlain_of_assemble`**: what holds of all
  writes and of the new root holds everywhere in an assembled document.
-/

namespace InvoiceXml

open Xml (IsName IsText)

/-! ### Writes -/

/-- Setting a named value brings nothing else. -/
theorem Element.mem_setNamed {name value : String} {pairs : List (String × String)} {pair : String × String}
    (h : pair ∈ setNamed name value pairs) : pair = (name, value) ∨ pair ∈ pairs := by
  induction pairs with
  | nil => exact .inl (List.mem_singleton.mp h)
  | cons first rest ih =>
    obtain ⟨other, old⟩ := first
    rw [setNamed] at h
    split at h
    · rename_i hsame
      rw [← hsame]
      exact (List.mem_cons.mp h).imp_right (List.mem_cons_of_mem _)
    · rcases List.mem_cons.mp h with rfl | h
      · exact .inr List.mem_cons_self
      · exact (ih h).imp_right (List.mem_cons_of_mem _)

namespace Content

/-- Whether the attribute that is written has a name, if one is written. -/
def IsNamed : Content → Prop
  | attr name _ => IsName name.toList
  | touch | text _ => True

/-- Whether the text or the attribute value that is written has allowed characters other than the
given ones, if one is written. -/
def IsPlain (others : Char → Prop) : Content → Prop
  | touch => True
  | text content | attr _ content => IsText others content

variable {others : Char → Prop} {content : Content} {element : Element}

theorem IsNamed.apply (hcontent : content.IsNamed) (h : element.IsNamed) :
    (content.apply element).IsNamed := by
  refine ⟨?_, ?_, content.hasDistinctAttrs_apply h.distinct⟩
  · rw [content.keepsShape_apply.name]
    exact h.name
  · cases content with
    | touch | text _ => exact h.attrs
    | attr name value =>
      intro attr hattr
      rcases Element.mem_setNamed hattr with rfl | hattr
      · exact hcontent
      · exact h.attrs attr hattr

theorem IsPlain.apply (hcontent : content.IsPlain others) (h : element.IsPlain others) :
    (content.apply element).IsPlain others := by
  cases content with
  | touch => exact h
  | text content =>
    refine ⟨h.attrs, fun text htext => ?_⟩
    obtain rfl := Option.some.inj htext
    exact hcontent
  | attr name value =>
    refine ⟨fun attr hattr => ?_, h.text⟩
    rcases Element.mem_setNamed hattr with rfl | hattr
    · exact hcontent
    · exact h.attrs attr hattr

end Content

/-- Whether a write goes through names only, and writes an attribute that has one. -/
structure Write.IsNamed (write : Write) : Prop where
  address : ∀ step ∈ write.address, IsName step.1.toList
  content : write.content.IsNamed

/-! ### Paths -/

/-- Whether the elements and the attribute that a path designates have names. -/
structure Path.IsNamed (path : Path) : Prop where
  steps : ∀ step ∈ path.steps, IsName step.name.toList
  attr : ∀ name, path.attr = some name → IsName name.toList

namespace Path

/-- A path that is derived from ASCII characters is named. -/
theorem isNamed_of_form {form : PathForm} (hascii : ∀ c ∈ form.chars, c.toNat < 128) : form.path.IsNamed := by
  have hpart : ∀ part ∈ PathForm.partsOf form.steps form.attr, ∀ c ∈ part, c.toNat < 128 := by
    intro part hpart c hc
    refine hascii c ?_
    rw [form.chars_eq]
    exact List.mem_append_right _ (Text.subset_joinWith ['/'] hpart hc)
  have hname : ∀ name : QNameForm, (∀ c ∈ name.chars, c.toNat < 128) → IsName name.text.toList := by
    intro name hsmall
    rw [QNameForm.text, String.toList_ofList]
    exact Xml.isName_of_isQName hsmall (isQName_iff.mpr ⟨name, rfl⟩)
  rw [form.path_eq]
  refine ⟨fun step hstep => ?_, fun text htext => ?_⟩
  · obtain ⟨found, hfound, rfl⟩ := List.mem_map.mp hstep
    refine hname found.name fun c hc => ?_
    refine hpart found.chars (List.mem_append_left _ (List.mem_map_of_mem hfound)) c ?_
    rw [StepForm.chars]
    cases found.selector with
    | none => exact hc
    | some selector => exact List.mem_append_left _ hc
  · obtain ⟨name, hattr, rfl⟩ := Option.map_eq_some_iff.mp htext
    refine hname name fun c hc => ?_
    refine hpart ('@' :: name.chars) (List.mem_append_right _ ?_) c (List.mem_cons_of_mem _ hc)
    rw [hattr]
    exact List.mem_singleton_self _

/-- **A path that is read off ASCII characters is named.** -/
theorem isNamed_of_read {text : String} {path : Path} (hread : read text = .ok path)
    (hascii : Text.isAscii text = true) : path.IsNamed := by
  obtain ⟨form, hform, rfl⟩ := readChars_eq_ok_iff.mp hread
  exact isNamed_of_form fun c hc => Text.toNat_lt_of_isAscii hascii (hform ▸ hc)

theorem IsNamed.join {path relative : Path} (h : path.IsNamed) (hrelative : relative.IsNamed) :
    (path.join relative).IsNamed := by
  rw [Path.join]
  split
  · exact hrelative
  · refine ⟨fun step hstep => ?_, hrelative.attr⟩
    rcases List.mem_append.mp hstep with hstep | hstep
    · exact h.steps step hstep
    · exact hrelative.steps step hstep

/-- The path of an extra is named if it and that of its field are read off ASCII characters. -/
theorem isNamed_of_extraPath? {owner : Option Path} {xpath : String} {path : Path}
    (h : GroupIndex.extraPath? owner xpath = some path) (howner : ∀ own, owner = some own → own.IsNamed)
    (hascii : Text.isAscii xpath = true) : path.IsNamed := by
  obtain ⟨relative, hread, h⟩ := Option.bind_eq_some_iff.mp h
  have hrelative : relative.IsNamed := by
    cases hresult : read xpath with
    | error fault =>
      rw [hresult] at hread
      cases hread
    | ok found =>
      rw [hresult] at hread
      obtain rfl := Option.some.inj hread
      exact isNamed_of_read hresult hascii
  split at h
  · obtain rfl := Option.some.inj h
    exact hrelative
  · obtain ⟨own, hown, rfl⟩ := Option.map_eq_some_iff.mp h
    exact (howner own hown).join hrelative

end Path

namespace Assembly

theorem isNamed_textContent {path : Path} (h : path.IsNamed) (text : String) :
    (textContent path text).IsNamed := by
  rw [textContent]
  cases hattr : path.attr with
  | none => trivial
  | some name => exact h.attr name hattr

theorem isPlain_textContent {others : Char → Prop} {text : String} (h : IsText others text) (path : Path) :
    (textContent path text).IsPlain others := by
  rw [textContent]
  cases path.attr with
  | none => exact h
  | some name => exact h

/-- A write at a named path is named. -/
theorem isNamed_of_writeAt? {bindings : Bindings} {path : Path} {content : Content} {write : Write}
    (h : writeAt? bindings path content = some write) (hpath : path.IsNamed) (hcontent : content.IsNamed) :
    write.IsNamed := by
  obtain ⟨haddress, rfl⟩ := writeAt?_eq_some h
  refine ⟨fun step hstep => ?_, hcontent⟩
  rw [haddress] at hstep
  obtain ⟨found, hfound, rfl⟩ := List.mem_map.mp hstep
  exact hpath.steps found hfound

/-! ### The root -/

variable {others : Char → Prop} {namespaces : List (String × String)} {name : String}

/-- A new root has the attributes that declare the namespaces. -/
theorem mem_attrs_newRoot {attr : String × String} (h : attr ∈ (newRoot namespaces name).attrs) :
    ∃ entry ∈ namespaces, attr = (namespaceName entry.1, entry.2) := by
  have hfold : ∀ (entries : List (String × String)) (root : Element),
      attr ∈ (entries.foldl (fun root entry => root.setAttr (namespaceName entry.1) entry.2) root).attrs →
        attr ∈ root.attrs ∨ ∃ entry ∈ entries, attr = (namespaceName entry.1, entry.2) := by
    intro entries
    induction entries with
    | nil => exact fun root h => .inl h
    | cons entry rest ih =>
      intro root h
      rcases ih _ h with hroot | ⟨found, hfound, hattr⟩
      · rcases Element.mem_setNamed hroot with rfl | hroot
        · exact .inr ⟨entry, List.mem_cons_self, rfl⟩
        · exact .inl hroot
      · exact .inr ⟨found, List.mem_cons_of_mem _ hfound, hattr⟩
  exact (hfold namespaces { name } h).resolve_left List.not_mem_nil

theorem isNamed_newRoot (hname : IsName name.toList)
    (hnamespaces : ∀ entry ∈ namespaces, IsName (namespaceName entry.1).toList) :
    (newRoot namespaces name).IsNamed := by
  refine ⟨?_, fun attr hattr => ?_, hasDistinctAttrs_newRoot namespaces name⟩
  · rw [newRoot_name]
    exact hname
  · obtain ⟨entry, hentry, rfl⟩ := mem_attrs_newRoot hattr
    exact hnamespaces entry hentry

theorem isPlain_newRoot (hnamespaces : ∀ entry ∈ namespaces, IsText others entry.2) :
    (newRoot namespaces name).IsPlain others := by
  refine ⟨fun attr hattr => ?_, fun text htext => ?_⟩
  · obtain ⟨entry, hentry, rfl⟩ := mem_attrs_newRoot hattr
    exact hnamespaces entry hentry
  · rw [newRoot_eq] at htext
    cases htext

/-! ### Documents -/

variable {composed : ComposedSchema} {options : AssemblyOptions} {data : Data} {document : Document}
  {writes : List Write}

/-- What holds of a new root, whatever children it gets, and is kept by all writes holds everywhere
in an assembled document. -/
theorem everywhere_of_assemble {holds : Element → Prop}
    (hchildren : ∀ element children, holds element → holds { element with children })
    (h : assemble composed options data = .ok document)
    (hlist : writeList composed options.leading data = some writes)
    (hroot : holds (newRoot options.namespaces document.root.name))
    (hbare : ∀ write ∈ writes, ∀ step ∈ write.way, holds { name := step.1 })
    (hkeeps : ∀ write ∈ writes, ∀ element, holds element → holds (write.content.apply element)) :
    document.root.Everywhere holds := by
  obtain ⟨found, hfound, hplace⟩ := placeAll_writeList h
  obtain rfl := Option.some.inj (hlist.symm.trans hfound)
  rw [(placeAll_eq_ok hplace).1]
  exact Element.everywhere_withWrites hchildren hbare hkeeps (everywhere_newRoot hroot)

theorem everywhere_isNamed_of_assemble (h : assemble composed options data = .ok document)
    (hlist : writeList composed options.leading data = some writes)
    (hroot : (newRoot options.namespaces document.root.name).IsNamed)
    (hwrites : ∀ write ∈ writes, write.IsNamed) :
    document.root.Everywhere Element.IsNamed := by
  refine everywhere_of_assemble (fun element children h => ⟨h.name, h.attrs, h.distinct⟩) h hlist hroot ?_ ?_
  · intro write hwrite step hstep
    have hname := (hwrites write hwrite).address step (List.mem_cons_of_mem _ hstep)
    exact ⟨hname, nofun, List.nodup_nil⟩
  · exact fun write hwrite element => (hwrites write hwrite).content.apply

theorem everywhere_isPlain_of_assemble (h : assemble composed options data = .ok document)
    (hlist : writeList composed options.leading data = some writes)
    (hroot : (newRoot options.namespaces document.root.name).IsPlain others)
    (hwrites : ∀ write ∈ writes, write.content.IsPlain others) :
    document.root.Everywhere (Element.IsPlain others) := by
  refine everywhere_of_assemble (fun element children h => ⟨h.attrs, h.text⟩) h hlist hroot ?_ ?_
  · exact fun write hwrite step hstep => ⟨nofun, nofun⟩
  · exact fun write hwrite element => (hwrites write hwrite).apply

end Assembly

end InvoiceXml
