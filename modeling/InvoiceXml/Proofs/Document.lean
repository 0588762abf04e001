import InvoiceXml.Proofs.Calendar.Instant
import InvoiceXml.Proofs.Data.Reader
import InvoiceXml.Proofs.Element.Address

/-!
# Documents read back

A document is written as data without numbers, so that its text is read as this data
(`Data.readRaw?_compact`). From the data each record is read by its slots, which are all filled: no
text and an empty text are written differently, and attributes and children in their order.

* `Element.ofData?_toData`, `Metadata.ofData?_toData`: elements and metadata are read from their
  data as they are;
* **`Document.read?_text`**: so are documents from their text, as long as the text does not nest too
  deep.
-/

namespace InvoiceXml

namespace Record

/-- Items that are each read back are read back together. -/
theorem items?_map {α : Type} {read : Data → Option α} {write : α → Data} {items : List α}
    (h : ∀ item ∈ items, read (write item) = some item) :
    items? read (.arr (items.map write)) = some items := by
  show (items.map write).mapM read = some items
  induction items with
  | nil => rfl
  | cons item items ih =>
    obtain ⟨hitem, hitems⟩ := List.forall_mem_cons.mp h
    rw [List.map_cons, List.mapM_cons, hitem, ih hitems]
    rfl

end Record

namespace Data

theorem depth_le_depthItems {item : Data} {items : List Data} (h : item ∈ items) :
    item.depth ≤ depthItems items := by
  induction items with
  | nil => cases h
  | cons first rest ih =>
    rw [depthItems]
    rcases List.mem_cons.mp h with rfl | h
    · exact Nat.le_max_left _ _
    · exact Nat.le_trans (ih h) (Nat.le_max_right _ _)

theorem itemsHaveNoNumber_of_forall {items : List Data} (h : ∀ item ∈ items, item.HasNoNumber) :
    ItemsHaveNoNumber items := by
  induction items with
  | nil => trivial
  | cons item rest ih =>
    obtain ⟨hitem, hrest⟩ := List.forall_mem_cons.mp h
    exact ⟨hitem, ih hrest⟩

end Data

namespace Element

theorem toDataAll_eq (elements : List Element) : toDataAll elements = elements.map toData := by
  induction elements with
  | nil => rfl
  | cons element rest ih => rw [toDataAll, ih, List.map_cons]

theorem hasNoNumber_textData (text : Option String) : (textData text).HasNoNumber := by
  cases text <;> trivial

theorem hasNoNumber_toData (element : Element) : element.toData.HasNoNumber := by
  induction element using induction_on_children with
  | _ element ih =>
    obtain ⟨name, attrs, text, children⟩ := element
    have hattrs : Data.ItemsHaveNoNumber (attrs.map attrData) := by
      refine Data.itemsHaveNoNumber_of_forall fun item hitem => ?_
      obtain ⟨attr, -, rfl⟩ := List.mem_map.mp hitem
      exact ⟨trivial, trivial, trivial⟩
    have hchildren : Data.ItemsHaveNoNumber (toDataAll children) := by
      rw [toDataAll_eq]
      refine Data.itemsHaveNoNumber_of_forall fun item hitem => ?_
      obtain ⟨child, hchild, rfl⟩ := List.mem_map.mp hitem
      exact ih child hchild
    exact ⟨trivial, hattrs, hasNoNumber_textData text, hchildren, trivial⟩

theorem optional?_textData (text : Option String) :
    Record.optional? Record.text? (some (textData text)) = some text := by
  cases text <;> rfl

theorem slots?_toData (element : Element) :
    Record.slots? false names element.toData =
      some [some (.str element.name), some (.arr (element.attrs.map attrData)), some (textData element.text),
        some (.arr (element.children.map toData))] := by
  rw [← toDataAll_eq]
  cases element
  rfl

theorem depth_toData_of_mem {element child : Element} (h : child ∈ element.children) :
    child.toData.depth + 2 ≤ element.toData.depth := by
  obtain ⟨name, attrs, text, children⟩ := element
  have hchild : child.toData ∈ toDataAll children := toDataAll_eq children ▸ List.mem_map_of_mem h
  have hle := Data.depth_le_depthItems hchild
  rw [toData]
  simp only [Data.depth, Data.depthMembers]
  omega

theorem ofDataWithin?_toData {element : Element} {depth : Nat} (h : element.toData.depth ≤ depth) :
    ofDataWithin? depth element.toData = some element := by
  induction depth generalizing element with
  | zero =>
    obtain ⟨name, attrs, text, children⟩ := element
    cases h
  | succ depth ih =>
    have hattrs : Record.items? attrOfData? (.arr (element.attrs.map attrData)) = some element.attrs :=
      Record.items?_map fun attr _ => rfl
    have hchildren : Record.items? (ofDataWithin? depth) (.arr (element.children.map toData)) =
        some element.children :=
      Record.items?_map fun child hchild => ih (by have := depth_toData_of_mem hchild; omega)
    rw [ofDataWithin?, slots?_toData]
    simp only [bind, Option.bind_some, hattrs, hchildren, optional?_textData, Record.text?,
      Option.isNone_some]
    cases element
    rfl

theorem ofData?_toData (element : Element) : ofData? element.toData = some element :=
  ofDataWithin?_toData (Nat.le_refl _)

end Element

namespace Metadata

theorem hasNoNumber_toData (metadata : Metadata) : metadata.toData.HasNoNumber :=
  ⟨Element.hasNoNumber_textData _, Element.hasNoNumber_textData _, Element.hasNoNumber_textData _,
    Element.hasNoNumber_textData _, Element.hasNoNumber_textData _, trivial⟩

theorem slots?_toData (metadata : Metadata) :
    Record.slots? false names metadata.toData =
      some [some (Element.textData metadata.profileId), some (Element.textData metadata.conformanceLevel),
        some (Element.textData metadata.documentType), some (Element.textData metadata.version),
        some (Element.textData (metadata.createdAt.map Instant.render))] := by
  rfl

theorem optional?_instant {createdAt : Option Instant} (h : ∀ instant ∈ createdAt, instant.IsTime) :
    Record.optional? instant? (some (Element.textData (createdAt.map Instant.render))) = some createdAt := by
  cases createdAt with
  | none => rfl
  | some instant =>
    have hread : instant? (.str instant.render) = some instant := by
      rw [instant?, Record.text?, Option.bind_some, Instant.read?_render (h instant rfl)]
    show (instant? (.str instant.render)).map some = some (some instant)
    rw [hread, Option.map_some]

theorem ofData?_toData {metadata : Metadata} (h : ∀ instant ∈ metadata.createdAt, instant.IsTime) :
    ofData? metadata.toData = some metadata := by
  simp only [ofData?, slots?_toData, bind, Option.bind_some, Element.optional?_textData, optional?_instant h]
  rfl

end Metadata

namespace Document

theorem slots?_toData (document : Document) :
    Record.slots? false names document.toData =
      some [some document.root.toData, some document.metadata.toData] := rfl

theorem hasNoNumber_toData (document : Document) : document.toData.HasNoNumber :=
  ⟨document.root.hasNoNumber_toData, document.metadata.hasNoNumber_toData, trivial⟩

theorem ofData?_toData {document : Document} (h : ∀ instant ∈ document.metadata.createdAt, instant.IsTime) :
    ofData? document.toData = some document := by
  simp only [ofData?, slots?_toData, bind, Option.bind_some, Element.ofData?_toData,
    Metadata.ofData?_toData h]

/-- **A document is read from its text as it is.** The names, texts and values may be any,
attributes may repeat a name, and each part of the metadata may be set or not, a point in time to
the numbers of a time of day. The text is read if and only if its containers nest no deeper than
they may. -/
theorem read?_text (document : Document) (htime : ∀ instant ∈ document.metadata.createdAt, instant.IsTime) :
    read? document.text = if document.toData.depth ≤ Data.maxDepth then some document else none := by
  rw [read?, text, Data.readRaw?_compact document.hasNoNumber_toData]
  split
  · exact ofData?_toData htime
  · rfl

/-- Characters that are escaped, a repeated attribute, an empty text beside none, and a leap second. -/
theorem read?_text_marked :
    let root : Element := { name := "r\"\x01", attrs := [("id", "1\n"), ("id", "\\")], children := [
      { name := "b", text := some "" }, { name := "a" }, { name := "b", text := some "é" }] }
    let made : Instant := ⟨⟨2016, 12, 31, by decide⟩, 1439, 60, 500000000⟩
    let document : Document := ⟨root, { profileId := some "", createdAt := some made }⟩
    document.toData.depth ≤ Data.maxDepth ∧ made.IsTime ∧ made.render = "2016-12-31T23:59:60.500Z" ∧
      read? document.text = some document := by
  intro root made document
  have hdepth : document.toData.depth ≤ Data.maxDepth := by decide
  have hmade : made.IsTime := ⟨by decide, by decide, by decide⟩
  have htime : ∀ instant ∈ document.metadata.createdAt, instant.IsTime := by
    intro instant hinstant
    obtain rfl : made = instant := Option.some.inj hinstant
    exact hmade
  exact ⟨hdepth, hmade, by decide +kernel, (read?_text document htime).trans (if_pos hdepth)⟩

end Document

end InvoiceXml
