import InvoiceXml.Proofs.Assembly.Locate
import InvoiceXml.Proofs.Standard.Declaration
import InvoiceXml.Proofs.Standard.Provenance

/-!
# Allowances and charges in a document

Allowances and charges of one object share the elements of one name. A family (`ChargeFamily`) is
one array of them as it is met in a document, with the element around it and the number of its first
item. A pair (`ChargePair`) is two families in one element, and a scope (`ChargeScope`) is an object
that declares both arrays.

* **`ChargeFamily.showsCharge`**: the element of an item shows the indicator of its family, and the
  amount of the item in normal form;
* **`ChargePair.forall₂_showsCharge`**: two families of which one is numbered after the other are
  shown one after the other;
* **`ChargeScope.showsCharges`**: the elements in a scope are those of the allowances and then those
  of the charges, in order, and no others.
-/

namespace InvoiceXml

open Assembly
  (itemsOf itemData visits visitsOfFields frameAfterFields base scalarText resolveValue fieldVisit)
open Standard (anchor tracked chargeName indicatorPlace amountPlace transactionAddress)
open Validation (Normalizes)

/-! ### What is shown -/

/-- Whether an element shows an allowance or charge: its indicator, and the amount in normal form. -/
def ShowsCharge (indicator : String) (item : Data) (element : Element) : Prop :=
  element.textsAt indicatorPlace = [some indicator] ∧
    ∃ amount, Validator.checkDecimal (some 2) ((item.present? "amount").getD .null) = .ok (.str amount) ∧
      element.textsAt amountPlace = [some amount]

/-- Whether an element shows the allowances and then the charges of data, in order, and no others. -/
def ShowsCharges (data : Data) (element : Element) : Prop :=
  List.Forall₂ (fun item charge => ShowsCharge item.1 item.2 charge)
    ((itemsOf (data.present? "allowances")).map (Prod.mk "false") ++
      (itemsOf (data.present? "charges")).map (Prod.mk "true"))
    (element.named chargeName)

/-! ### Texts of valid data -/

theorem fieldVisit_itemData (bindings : Bindings) (path : FieldPath) (item : Data) (name : String)
    (field : Field) :
    fieldVisit bindings path (itemData item) name field = fieldVisit bindings path item name field := by
  rw [fieldVisit, fieldVisit, present?_itemData]

theorem resolveValue_of_isNull_eq_false {value : Data} (h : value.isNull = false) (fallback : Option Data) :
    resolveValue none fallback (some value) = some value := by
  simp [resolveValue, h]

section Texts

variable {fields : List (String × Field)} {input normal : Data} {name : String} {field : Field}

/-- A field with a fixed text has this text, whether it is given or not. -/
theorem text?_of_isConstant {text : String} (hnormal : Normalizes fields input normal)
    (hdistinct : (fields.map (·.1)).Nodup) (hmem : (name, field) ∈ fields) (hconstant : field.IsConstant text)
    (hplain : field.IsPlain) (bindings : Bindings) (path : FieldPath) :
    (fieldVisit bindings path normal name field).text? = some text := by
  have hresolve : resolveValue none (some (.str text)) (normal.present? name) = some (.str text) := by
    rcases hnormal.choice hdistinct hmem hconstant.type with hnone | ⟨found, hfound, hget⟩
    · rw [Data.present?, hnone]
      rfl
    · rw [Data.present?, hget, List.mem_singleton.mp hfound]
      rfl
  rw [Visit.text?, fieldVisit, hplain.transform, hconstant.fallback, hresolve]
  rfl

/-- A scalar that must be given has the text of what its validator gives. -/
theorem exists_text_of_isMandatory {validator : Validator}
    (hnormal : Normalizes fields input normal) (hdistinct : (fields.map (·.1)).Nodup)
    (hmem : (name, field) ∈ fields) (hmandatory : field.IsMandatory) (hplain : field.IsPlain)
    (htype : field.type = .scalar validator) (bindings : Bindings) (path : FieldPath) :
    ∃ value text, validator.check ((input.present? name).getD .null) = .ok value ∧
      scalarText value = some text ∧
      (fieldVisit bindings path normal name field).text? = some text := by
  rcases hnormal.scalar hdistinct hmem htype with ⟨-, hrequired, -⟩ | ⟨value, hcheck, hget⟩
  · rw [hmandatory.required] at hrequired
    cases hrequired
  · obtain ⟨text, htext⟩ := Option.isSome_iff_exists.mp ((hplain.type validator htype).isSome _ _ hcheck)
    have hnull : value.isNull = false := by
      cases value with
      | null => cases htext
      | bool _ | num _ | str _ | arr _ | obj _ => rfl
    have hpresent : normal.present? name = some value := by
      rw [Data.present?, hget]
      simp [hnull]
    refine ⟨value, text, hcheck, htext, ?_⟩
    rw [Visit.text?, fieldVisit, hplain.transform, hpresent, resolveValue_of_isNull_eq_false hnull]
    exact htext

end Texts

/-! ### Families -/

/-- The allowances, or the charges, of one object of a document. -/
structure ChargeFamily (composed : ComposedSchema) (data : Data) where
  parent : String
  member : String
  group : String
  indicator : String
  fields : List (String × Field)
  path : FieldPath
  bindings : Bindings
  /-- The element around the family. -/
  outer : List (String × Nat)
  /-- The number of the first item. -/
  first : Nat
  inputs : List Data
  normals : List Data
  declared : Schema.IsChargeItem indicator fields
  names : path.names = [parent, member]
  valid : List.Forall₂ (fun input normal => Normalizes fields (itemData input) normal) inputs normals
  inner : transactionAddress <+: outer
  anchored : ∀ name number,
    (anchor [parent, member, name]).map (Step.numbered ((group, number) :: bindings)) =
      outer ++ [(chargeName, number)]
  visited : ∀ i normal, normals[i]? = some normal → ∀ name field, (name, field) ∈ fields →
    fieldVisit ((group, first + i) :: bindings) (path.item i) normal name field ∈ visits composed data

namespace Standard

/-- The fields of an allowance or charge that are tracked stand in different places. -/
theorem tracked_injective {parent member first second : String} {place : List String}
    (hfirst : tracked [parent, member, first] = some place)
    (hsecond : tracked [parent, member, second] = some place) :
    first = second := by
  have hcases : ∀ name, tracked [parent, member, name] = some place →
      name = "indicator" ∧ place = indicatorPlace ∨ name = "amount" ∧ place = amountPlace := by
    intro name h
    unfold tracked at h
    split at h
    · rename_i heq
      simp only [List.cons.injEq] at heq
      exact .inl ⟨heq.2.2.1, (Option.some.inj h).symm⟩
    · rename_i heq
      simp only [List.cons.injEq] at heq
      exact .inr ⟨heq.2.2.1, (Option.some.inj h).symm⟩
    · rename_i heq
      simp at heq
    · cases h
  have hdiffer : indicatorPlace ≠ amountPlace := by decide
  rcases hcases first hfirst with ⟨rfl, rfl⟩ | ⟨rfl, rfl⟩ <;>
    rcases hcases second hsecond with ⟨rfl, h⟩ | ⟨rfl, h⟩
  · rfl
  · exact absurd h hdiffer
  · exact absurd h.symm hdiffer
  · rfl

end Standard

namespace ChargeFamily

variable {composed : ComposedSchema} {data : Data} (family : ChargeFamily composed data)

/-- The number of an item is bound at its visits. -/
def itemBindings (i : Nat) : Bindings := (family.group, family.first + i) :: family.bindings

/-- The element of an item. -/
def address (i : Nat) : List (String × Nat) := family.outer ++ [(chargeName, family.first + i)]

/-- Whether a visit is one of a field of an item. -/
def Covers (i : Nat) (visit : Visit) : Prop :=
  ∃ normal name field, family.normals[i]? = some normal ∧ (name, field) ∈ family.fields ∧
    visit = fieldVisit (family.itemBindings i) (family.path.item i) normal name field

theorem names_fieldVisit (bindings : Bindings) (i : Nat) (normal : Data) (name : String) (field : Field) :
    (fieldVisit bindings (family.path.item i) normal name field).path.names =
      [family.parent, family.member, name] := by
  rw [Assembly.names_fieldVisit, FieldPath.names_item, family.names]
  rfl

theorem anchor_fieldVisit (i : Nat) (normal : Data) (name : String) (field : Field) :
    (anchor (fieldVisit (family.itemBindings i) (family.path.item i) normal name field).path.names).map
      (Step.numbered (family.itemBindings i)) = family.address i := by
  rw [names_fieldVisit]
  exact family.anchored name (family.first + i)

variable {document : Document} {writes : List Write}

/-- The element of an item is entered, since its indicator is always written. -/
theorem exists_write_of_lt (h : document.WrittenBy composed data writes) {i : Nat}
    (hi : i < family.inputs.length) :
    ∃ write ∈ writes, family.address i <+: write.address := by
  obtain ⟨input, hinput⟩ : ∃ input, family.inputs[i]? = some input := ⟨_, List.getElem?_eq_getElem hi⟩
  obtain ⟨normal, hnormal, hvalid⟩ := exists_of_forall₂_getElem? family.valid.flip hinput
  obtain ⟨field, hmem, hconstant⟩ := family.declared.indicator
  have hvisit := family.visited i normal hnormal _ _ hmem
  obtain ⟨path, hpath⟩ := hconstant.path
  obtain ⟨write, hwrite, hwrote, -⟩ := h.written _ hvisit (by rw [fieldVisit, hconstant.type]; rfl)
    path _ hpath
    (text?_of_isConstant hvalid family.declared.distinct hmem hconstant (h.kind _ hvisit).plain _ _)
  refine ⟨write, hwrite, ?_⟩
  rw [hwrote.address_eq, ← family.anchor_fieldVisit i normal "indicator" field]
  exact List.prefix_append _ _

/-- Whether all that is written in the element of an item comes from visits of its fields. -/
def IsAlone (i : Nat) : Prop :=
  ∀ visit ∈ visits composed data, ∀ path write, visit.Wrote path write → family.address i <+: write.address →
    family.Covers i visit

/-- The text of a tracked field of an item is the only one in its place. -/
theorem textsAt (h : document.WrittenBy composed data writes) {i : Nat} (halone : family.IsAlone i)
    {normal : Data}
    (hnormal : family.normals[i]? = some normal) {name : String} {field : Field}
    (hmem : (name, field) ∈ family.fields) (hscalar : field.type.isObjectLike = false) {path : Path}
    (hpath : field.ownPath? = some path) {text : String}
    (htext : (fieldVisit (family.itemBindings i) (family.path.item i) normal name field).text? = some text)
    {place : List String} (hplace : tracked [family.parent, family.member, name] = some place)
    {element : Element}
    (hat : document.at? (family.address i) = some element) : element.textsAt place = [some text] := by
  have hinner : transactionAddress <+: family.address i := family.inner.trans (List.prefix_append _ _)
  have htracked :
    tracked (fieldVisit (family.itemBindings i) (family.path.item i) normal name field).path.names =
      some place := by
    rw [names_fieldVisit]
    exact hplace
  refine h.textsAt_tracked (family.visited i normal hnormal name field hmem) hscalar hpath htext htracked
    (family.anchor_fieldVisit i normal name field) hinner hat ?_
  intro other hother path write hwrote hin
  obtain ⟨normal', name', field', hnormal', hmem', rfl⟩ := halone other hother path write hwrote hin
  refine .inl ⟨family.anchor_fieldVisit i normal' name' field', fun hsame => ?_⟩
  -- the same item, the same name, and so the same field
  obtain rfl := Option.some.inj (hnormal.symm.trans hnormal')
  rw [names_fieldVisit] at hsame
  obtain rfl := Standard.tracked_injective hsame hplace
  obtain ⟨-, rfl⟩ := Prod.mk.inj (List.inj_on_of_nodup_map family.declared.distinct hmem' hmem rfl)
  rfl

/-- **The element of an item shows the item**, if nothing else is written in it. -/
theorem showsCharge (h : document.WrittenBy composed data writes) {i : Nat}
    (halone : family.IsAlone i) {input : Data} (hinput : family.inputs[i]? = some input)
    {element : Element} (hat : document.at? (family.address i) = some element) :
    ShowsCharge family.indicator input element := by
  obtain ⟨normal, hnormal, hvalid⟩ := exists_of_forall₂_getElem? family.valid.flip hinput
  have hdistinct := family.declared.distinct
  constructor
  · obtain ⟨field, hmem, hconstant⟩ := family.declared.indicator
    have hvisit := family.visited i normal hnormal _ _ hmem
    obtain ⟨path, hpath⟩ := hconstant.path
    have htext := text?_of_isConstant hvalid hdistinct hmem hconstant (h.kind _ hvisit).plain
      (family.itemBindings i) (family.path.item i)
    exact family.textsAt h halone hnormal hmem (by rw [hconstant.type]; rfl) hpath htext rfl hat
  · obtain ⟨field, hmem, hmandatory⟩ := family.declared.amount
    have hkind := h.kind _ (family.visited i normal hnormal _ _ hmem)
    obtain ⟨identity, htype⟩ := hkind.amount (by rw [names_fieldVisit]; rfl)
    obtain ⟨path, hpath⟩ := hmandatory.path
    obtain ⟨value, text, hcheck, hvalue, htext⟩ := exists_text_of_isMandatory hvalid hdistinct hmem hmandatory
      hkind.plain htype (family.itemBindings i) (family.path.item i)
    obtain ⟨amount, rfl⟩ := Validator.exists_str_of_checkDecimal hcheck
    obtain rfl : amount = text := Option.some.inj hvalue
    rw [present?_itemData] at hcheck
    refine ⟨amount, hcheck, ?_⟩
    have htype : field.type = .scalar (.decimal identity (some 2)) := htype
    exact family.textsAt h halone hnormal hmem (by rw [htype]; rfl) hpath htext rfl hat

theorem lt_of_covers {i : Nat} {visit : Visit} (h : family.Covers i visit) : i < family.inputs.length := by
  obtain ⟨normal, _, _, hnormal, -, -⟩ := h
  obtain ⟨hlt, -⟩ := List.getElem?_eq_some_iff.mp hnormal
  rw [family.valid.length_eq]
  exact hlt

end ChargeFamily

/-! ### Two families in one element -/

/-- Allowances and charges in one element. The charges are numbered after the allowances, and
nothing else is written in elements of their name. -/
structure ChargePair (composed : ComposedSchema) (data : Data) where
  allowances : ChargeFamily composed data
  charges : ChargeFamily composed data
  /-- The element around both. -/
  address : List (String × Nat)
  indicator_allowances : allowances.indicator = "false"
  indicator_charges : charges.indicator = "true"
  outer_allowances : allowances.outer = address
  outer_charges : charges.outer = address
  first_allowances : allowances.first = 0
  first_charges : charges.first = allowances.inputs.length
  located : ∀ visit ∈ visits composed data, ∀ path write, visit.Wrote path write → ∀ number,
    address ++ [(chargeName, number)] <+: write.address →
      allowances.Covers number visit ∨ ∃ i, number = allowances.inputs.length + i ∧ charges.Covers i visit

namespace ChargePair

variable {composed : ComposedSchema} {data : Data} (pair : ChargePair composed data)

/-- The allowances and then the charges, each with its indicator. -/
def items : List (String × Data) :=
  pair.allowances.inputs.map (Prod.mk "false") ++ pair.charges.inputs.map (Prod.mk "true")

theorem length_items : pair.items.length = pair.allowances.inputs.length + pair.charges.inputs.length := by
  rw [items, List.length_append, List.length_map, List.length_map]

theorem address_allowances (i : Nat) : pair.allowances.address i = pair.address ++ [(chargeName, i)] := by
  rw [ChargeFamily.address, pair.outer_allowances, pair.first_allowances, Nat.zero_add]

theorem address_charges (i : Nat) :
    pair.charges.address i = pair.address ++ [(chargeName, pair.allowances.inputs.length + i)] := by
  rw [ChargeFamily.address, pair.outer_charges, pair.first_charges]

/-- The charges leave the elements of the allowances alone. -/
theorem isAlone_allowances {i : Nat} (hi : i < pair.allowances.inputs.length) :
    pair.allowances.IsAlone i := by
  intro visit hvisit path write hwrote hunder
  rw [address_allowances] at hunder
  rcases pair.located visit hvisit path write hwrote i hunder with hcovers | ⟨j, hj, -⟩
  · exact hcovers
  · omega

/-- The allowances leave the elements of the charges alone. -/
theorem isAlone_charges (i : Nat) : pair.charges.IsAlone i := by
  intro visit hvisit path write hwrote hunder
  rw [address_charges] at hunder
  rcases pair.located visit hvisit path write hwrote _ hunder with hcovers | ⟨j, hj, hcovers⟩
  · have hlt := pair.allowances.lt_of_covers hcovers
    omega
  · obtain rfl : j = i := by omega
    exact hcovers

variable {document : Document} {writes : List Write}

/-- The number of each item is that of one allowance or of one charge. -/
theorem getElem?_items {number : Nat} {item : String × Data} (h : pair.items[number]? = some item) :
    (∃ input, pair.allowances.inputs[number]? = some input ∧ item = ("false", input)) ∨
      ∃ i input, number = pair.allowances.inputs.length + i ∧ pair.charges.inputs[i]? = some input ∧
        item = ("true", input) := by
  rw [items] at h
  rcases Nat.lt_or_ge number pair.allowances.inputs.length with hlt | hge
  · rw [List.getElem?_append_left (by rwa [List.length_map]), List.getElem?_map] at h
    obtain ⟨input, hinput, rfl⟩ := Option.map_eq_some_iff.mp h
    exact .inl ⟨input, hinput, rfl⟩
  · obtain ⟨i, rfl⟩ := Nat.exists_eq_add_of_le hge
    rw [List.getElem?_append_right (by rwa [List.length_map]), List.length_map, Nat.add_sub_cancel_left,
      List.getElem?_map] at h
    obtain ⟨input, hinput, rfl⟩ := Option.map_eq_some_iff.mp h
    exact .inr ⟨i, input, rfl, hinput, rfl⟩

/-- **The elements of one name show the allowances and then the charges**, and there are no others. -/
theorem forall₂_showsCharge (h : document.WrittenBy composed data writes)
    (hinner : transactionAddress <+: pair.address) {element : Element}
    (hat : document.at? pair.address = some element) :
    List.Forall₂ (fun item charge => ShowsCharge item.1 item.2 charge) pair.items
      (element.named chargeName) := by
  refine h.reads.forall₂_named hat ?_ ?_ ?_
  · intro write hwrite number hunder
    obtain ⟨visit, hvisit, path, hwrote⟩ :=
      h.exists_wrote hwrite (hinner.trans ((List.prefix_append _ _).trans hunder))
    rw [length_items]
    rcases pair.located visit hvisit path write hwrote number hunder with hcovers | ⟨i, rfl, hcovers⟩
    · have hlt := pair.allowances.lt_of_covers hcovers
      omega
    · have hlt := pair.charges.lt_of_covers hcovers
      omega
  · intro number hlt
    rcases pair.getElem?_items (List.getElem?_eq_getElem hlt) with
      ⟨input, hinput, -⟩ | ⟨i, input, rfl, hinput, -⟩
    · obtain ⟨hlt, -⟩ := List.getElem?_eq_some_iff.mp hinput
      rw [← address_allowances]
      exact pair.allowances.exists_write_of_lt h hlt
    · obtain ⟨hlt, -⟩ := List.getElem?_eq_some_iff.mp hinput
      rw [← address_charges]
      exact pair.charges.exists_write_of_lt h hlt
  · intro number item child hitem hchild
    rcases pair.getElem?_items hitem with ⟨input, hinput, rfl⟩ | ⟨i, input, rfl, hinput, rfl⟩
    · obtain ⟨hlt, -⟩ := List.getElem?_eq_some_iff.mp hinput
      rw [← address_allowances] at hchild
      have hshows := pair.allowances.showsCharge h (pair.isAlone_allowances hlt) hinput hchild
      rwa [pair.indicator_allowances] at hshows
    · rw [← address_charges] at hchild
      have hshows := pair.charges.showsCharge h (pair.isAlone_charges i) hinput hchild
      rwa [pair.indicator_charges] at hshows

end ChargePair

/-! ### Scopes -/

/-- An object of a document that declares allowances and charges. -/
structure ChargeScope (composed : ComposedSchema) (data : Data) where
  parent : String
  /-- The group of the allowances. -/
  allowances : String
  /-- The group of the charges. -/
  charges : String
  fields : List (String × Field)
  path : FieldPath
  bindings : Bindings
  frame : Frame
  /-- The element around allowances and charges. -/
  address : List (String × Nat)
  input : Data
  normal : Data
  declared : Schema.DeclaresCharges allowances charges fields
  names : path.names = [parent]
  valid : Normalizes fields input normal
  inner : transactionAddress <+: address
  anchored_allowances : ∀ name number,
    (anchor [parent, "allowances", name]).map (Step.numbered ((allowances, number) :: bindings)) =
      address ++ [(chargeName, number)]
  anchored_charges : ∀ name number,
    (anchor [parent, "charges", name]).map (Step.numbered ((charges, number) :: bindings)) =
      address ++ [(chargeName, number)]
  chain_allowances : composed.groups.siblingChain allowances = []
  chain_charges : composed.groups.siblingChain charges = [allowances]
  visited : ∀ visit ∈ visitsOfFields composed.groups bindings path normal fields frame,
    visit ∈ visits composed data
  located : ∀ visit ∈ visits composed data, ∀ way write, visit.Wrote way write →
    ∀ number, address ++ [(chargeName, number)] <+: write.address →
      visit ∈ visitsOfFields composed.groups bindings path normal fields frame ∧
        ((∃ rest, visit.path.names = parent :: "allowances" :: rest ∧
            (visit.bindings.lookup allowances).getD 0 = number) ∨
          ∃ rest, visit.path.names = parent :: "charges" :: rest ∧
            (visit.bindings.lookup charges).getD 0 = number)

namespace ChargeScope

variable {composed : ComposedSchema} {data : Data} (scope : ChargeScope composed data)

/-- The visits of the fields in a scope. -/
def visitsInside : List Visit :=
  visitsOfFields composed.groups scope.bindings scope.path scope.normal scope.fields scope.frame

/-- Each of the two arrays is a family. Its items are numbered from where the group starts, and the
visits inside are those of the items. -/
theorem exists_family {member group indicator : String} {field : Field} {before after : List (String × Field)}
    (hfields : scope.fields = before ++ (member, field) :: after)
    (harray : field.IsChargeArray group indicator)
    (hanchored : ∀ name number,
      (anchor [scope.parent, member, name]).map (Step.numbered ((group, number) :: scope.bindings)) =
        scope.address ++ [(chargeName, number)]) :
    ∃ family : ChargeFamily composed data, family.indicator = indicator ∧ family.outer = scope.address ∧
      family.first = base composed.groups group
        (frameAfterFields composed.groups scope.normal before scope.frame) ∧
      family.inputs = itemsOf (scope.input.present? member) ∧
      family.normals = itemsOf (scope.normal.present? member) ∧
      ∀ visit ∈ scope.visitsInside, visit.field.type ≠ .objectArray → ∀ rest,
        visit.path.names = scope.parent :: member :: rest →
          ∃ i, (visit.bindings.lookup group).getD 0 = family.first + i ∧ family.Covers i visit := by
  obtain ⟨below, hshape, hitem⟩ := harray.shape
  have hmem : (member, field) ∈ scope.fields := by simp [hfields]
  have hbound := @Assembly.mem_visits_bound composed.groups scope.bindings (scope.path.field member)
    (scope.normal.present? member) field below
    (frameAfterFields composed.groups scope.normal before scope.frame)
  refine ⟨{
    parent := scope.parent, member, group, indicator, fields := below, path := scope.path.field member
    bindings := scope.bindings, outer := scope.address
    first := base composed.groups group (frameAfterFields composed.groups scope.normal before scope.frame)
    inputs := itemsOf (scope.input.present? member), normals := itemsOf (scope.normal.present? member)
    declared := hitem
    names := by rw [FieldPath.names_field, scope.names]; rfl
    valid := scope.valid.array scope.declared.distinct hmem harray.type hshape
    inner := scope.inner
    anchored := hanchored
    visited := ?_ }, rfl, rfl, rfl, rfl, rfl, ?_⟩
  · intro i normal hnormal name inner hinner
    refine scope.visited _ (Assembly.mem_visitsOfFields.mpr ⟨before, member, field, after, hfields, ?_⟩)
    rw [hbound harray.type harray.group hshape]
    refine .inr ⟨i, normal, hnormal, ?_⟩
    rw [Assembly.mem_visits_flat hitem.flat]
    exact ⟨name, inner, hinner, (fieldVisit_itemData _ _ _ _ _).symm⟩
  · intro visit hinside htype rest hnames
    have harrayVisit := Assembly.mem_visitsOfField_of_names scope.declared.distinct hfields hinside
      (by rw [hnames, scope.names]; exact ⟨rest, rfl⟩)
    rw [hbound harray.type harray.group hshape] at harrayVisit
    rcases harrayVisit with rfl | ⟨i, normal, hnormal, hitemVisit⟩
    · exact absurd harray.type htype
    · rw [Assembly.mem_visits_flat hitem.flat] at hitemVisit
      obtain ⟨name, inner, hinner, rfl⟩ := hitemVisit
      refine ⟨i, ?_, normal, name, inner, hnormal, hinner, fieldVisit_itemData _ _ _ _ _⟩
      rw [fieldVisit, List.lookup_cons_self]
      rfl

/-- The allowances of a scope are numbered from the first, and its charges after them. -/
theorem exists_pair :
    ∃ pair : ChargePair composed data, pair.address = scope.address ∧
      pair.allowances.inputs = itemsOf (scope.input.present? "allowances") ∧
      pair.charges.inputs = itemsOf (scope.input.present? "charges") := by
  obtain ⟨before, allowance, charge, after, hfields, hallowance, hcharge⟩ := scope.declared.adjacent
  have hfields' : scope.fields = (before ++ [("allowances", allowance)]) ++ ("charges", charge) :: after := by
    rw [hfields, List.append_assoc]
    rfl
  obtain ⟨allowances, hfalse, houter, hfirst, hinputs, hnormals, hvisits⟩ :=
    scope.exists_family hfields hallowance scope.anchored_allowances
  obtain ⟨charges, htrue, houter', hnext, hinputs', -, hvisits'⟩ :=
    scope.exists_family hfields' hcharge scope.anchored_charges
  have hfirst : allowances.first = 0 := by
    rw [hfirst, base, scope.chain_allowances]
    rfl
  -- the frame that the allowances leave is where the charges start
  have hnext : charges.first = allowances.inputs.length := by
    obtain ⟨below, hshape, -⟩ := hallowance.shape
    rw [hnext, base, scope.chain_charges, Assembly.frameAfterFields_concat, List.findSome?_cons,
      Assembly.lookup_frameAfterField_bound hallowance.type hallowance.group hshape, base,
      scope.chain_allowances, allowances.valid.length_eq, hnormals]
    exact Nat.zero_add _
  refine ⟨⟨allowances, charges, scope.address, hfalse, htrue, houter, houter', hfirst, hnext, ?_⟩,
    rfl, hinputs, hinputs'⟩
  intro visit hvisit path write hwrote number hunder
  obtain ⟨hinside, ⟨rest, hnames, hnumber⟩ | ⟨rest, hnames, hnumber⟩⟩ :=
    scope.located visit hvisit path write hwrote number hunder
  · obtain ⟨i, hi, hcovers⟩ := hvisits visit hinside hwrote.type rest hnames
    obtain rfl : i = number := by omega
    exact .inl hcovers
  · obtain ⟨i, hi, hcovers⟩ := hvisits' visit hinside hwrote.type rest hnames
    exact .inr ⟨i, by omega, hcovers⟩

/-- **A scope shows its allowances and then its charges**, in order, and no others. -/
theorem showsCharges {document : Document} {writes : List Write}
    (h : document.WrittenBy composed data writes) {element : Element}
    (hat : document.at? scope.address = some element) : ShowsCharges scope.input element := by
  obtain ⟨pair, haddress, hallowances, hcharges⟩ := scope.exists_pair
  have hshows := pair.forall₂_showsCharge h (haddress ▸ scope.inner) (haddress ▸ hat)
  rw [ChargePair.items, hallowances, hcharges] at hshows
  exact hshows

end ChargeScope

end InvoiceXml
