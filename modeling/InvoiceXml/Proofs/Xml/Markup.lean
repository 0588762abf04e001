import InvoiceXml.Proofs.Assembly.Placement
import InvoiceXml.Proofs.Element.Markup
import InvoiceXml.Proofs.Xml.Grammar

/-!
# Markup is a document

What is written for a tree of elements is a document in the sense of XML 1.0, if the names of
elements and attributes are names there and no element has two attributes of one name
(`Element.IsNamed`). Nothing is asked of texts and attribute values: what has a meaning in markup is
written as a reference. Only whether all characters are allowed depends on them.

* `isContent_escaped`, `isValue_escaped`: an escaped text is data and references;
* `exists_element`: what is written for an element is an element, with the break before it;
* **`isDocument_source`**: what is written for a tree is a document;
* **`isText_source`**: it has allowed characters where its texts and attribute values have;
* `mem_source_of_text`: a character without a meaning in markup stands in the document as it stands
  in the text.
-/

namespace InvoiceXml

namespace Markup

open Xml

/-! ### Escaped texts -/

/-- What has a meaning in markup is written as a reference. -/
theorem escapedChar_mem_references {c : Char} (h : c ∈ marks) : escapedChar c ∈ references := by
  have hall : marks.all (fun mark => decide (escapedChar mark ∈ references)) = true := by decide
  exact of_decide_eq_true (List.all_eq_true.mp hall c h)

/-- An escaped text is the value of an attribute. -/
theorem isValue_escaped (text : String) : IsValue '"' (escaped text) := by
  rw [escaped]
  induction text.toList with
  | nil => exact .nil
  | cons c cs ih =>
    rw [List.flatMap_cons]
    by_cases hc : c ∈ marks
    · exact .reference (escapedChar_mem_references hc) ih
    · rw [escapedChar_of_notMem hc]
      exact .char (fun h => hc (h ▸ by decide)) (fun h => hc (h ▸ by decide)) (fun h => hc (h ▸ by decide)) ih

/-- An escaped text is content, before anything that a tag starts. -/
theorem isContent_escaped {content : List Char} (h : IsContent content)
    (hstart : ∀ c ∈ content.head?, c = '<') (text : String) :
    IsContent (escaped text ++ content) := by
  have hdata : ∀ data : List Char, (∀ c ∈ data, c ∉ marks) → IsData data := fun data hdata =>
    isData_of_notMem (fun hmem => hdata _ hmem (by decide)) (fun hmem => hdata _ hmem (by decide))
      (fun hmem => hdata _ hmem (by decide))
  -- the data before the next reference grows with the characters that are written as they are
  have key : ∀ cs data : List Char, (∀ c ∈ data, c ∉ marks) →
      IsContent (data ++ (cs.flatMap escapedChar ++ content)) := by
    intro cs
    induction cs with
    | nil => exact fun data hmarks => h.prepend (hdata data hmarks) hstart
    | cons c cs ih =>
      intro data hmarks
      rw [List.flatMap_cons, List.append_assoc]
      by_cases hc : c ∈ marks
      · exact .reference (hdata data hmarks) (escapedChar_mem_references hc) (ih [] nofun)
      · rw [escapedChar_of_notMem hc, ← List.append_assoc]
        refine ih (data ++ [c]) fun d hd => ?_
        rcases List.mem_append.mp hd with hd | hd
        · exact hmarks d hd
        · rwa [List.mem_singleton.mp hd]
  exact key text.toList [] nofun

/-! ### Tags -/

theorem isAttributes_attrChars {attrs : List (String × String)} (h : ∀ attr ∈ attrs, IsName attr.1.toList) :
    IsAttributes (attrs.map (·.1.toList)) (attrChars attrs) := by
  induction attrs with
  | nil => exact .nil
  | cons attr attrs ih =>
    obtain ⟨hattr, hattrs⟩ := List.forall_mem_cons.mp h
    have hchars := attrChars_cons attr attrs []
    rw [List.append_nil, List.append_nil] at hchars
    rw [hchars]
    have hblank : IsSpace [' '] := fun c hc => by simp [List.mem_singleton.mp hc]
    exact .cons (List.cons_ne_nil ' ' []) hblank hattr isSpace_nil isSpace_nil (.inl rfl)
      (isValue_escaped attr.2)
      (ih hattrs)

end Markup

namespace Element

open Markup Xml

/-- Whether the names of an element and of its attributes are names, and no two attributes have one. -/
structure IsNamed (element : Element) : Prop where
  name : IsName element.name.toList
  attrs : ∀ attr ∈ element.attrs, IsName attr.1.toList
  distinct : element.HasDistinctAttrs

theorem IsNamed.isTag {element : Element} (h : element.IsNamed) :
    IsTag element.name.toList (element.name.toList ++ attrChars element.attrs) := by
  have hdistinct : ((element.attrs.map (·.1)).map String.toList).Nodup :=
    List.Pairwise.map String.toList (fun _ _ hne heq => hne (String.toList_inj.mp heq)) h.distinct
  rw [List.map_map] at hdistinct
  refine ⟨h.name, _, _, [], ?_, isAttributes_attrChars h.attrs, hdistinct, isSpace_nil⟩
  rw [List.append_nil]

/-! ### Elements -/

/-- An element that contains something is written with two tags. -/
theorem pieces_of_contents {text : Option String} {children : List Element}
    (h : ¬(text = none ∧ children = [])) (depth : Nat) (name : String)
    (attrs : List (String × String)) :
    pieces depth ⟨name, attrs, text, children⟩ = .openTag depth name attrs ::
      ((text.map Piece.text).toList ++ piecesAll (depth + 1) children ++ [.closeTag depth name]) := by
  rw [pieces]
  rintro rfl rfl
  exact h ⟨rfl, rfl⟩

theorem isSpace_lineBreak (indent : Option Nat) (depth : Nat) : IsSpace (lineBreak indent depth) := by
  intro c hc
  cases indent with
  | none => cases hc
  | some width =>
    rcases List.mem_cons.mp hc with rfl | hc
    · simp
    · simp [List.eq_of_mem_replicate hc]

/-- A break may stand in content. -/
theorem isContent_of_isSpace {cs : List Char} (h : IsSpace cs) : IsContent cs :=
  .data (isData_of_notMem (fun hmem => by simpa using h _ hmem) (fun hmem => by simpa using h _ hmem)
    (fun hmem => by simpa using h _ hmem))

/-- The break before a tag. -/
def breakBefore (indent : Option Nat) (depth : Nat) (afterTag : Bool) : List Char :=
  if afterTag then lineBreak indent depth else []

theorem isSpace_breakBefore (indent : Option Nat) (depth : Nat) (afterTag : Bool) :
    IsSpace (breakBefore indent depth afterTag) := by
  cases afterTag with
  | false => exact isSpace_nil
  | true => exact isSpace_lineBreak indent depth

/-- Whether an element is written as an element, with the break before it, whatever stands around it. -/
def WritesElement (indent : Option Nat) (element : Element) : Prop :=
  ∀ (depth : Nat) (afterTag : Bool) (rest : List Piece), ∃ written, IsElement written ∧
    chars indent afterTag (element.pieces depth ++ rest) =
      breakBefore indent depth afterTag ++ (written ++ chars indent true rest)

/-- The children of an element are written as content, to which more may be added behind; without a
tag before them they start with one. -/
theorem exists_content {indent : Option Nat} {children : List Element}
    (h : ∀ child ∈ children, WritesElement indent child) (depth : Nat) (afterTag : Bool) (rest : List Piece) :
    ∃ content, chars indent afterTag (piecesAll depth children ++ rest) =
        content ++ chars indent (afterTag || !children.isEmpty) rest ∧
      (∀ tail, IsContent tail → IsContent (content ++ tail)) ∧
      (afterTag = false → ∀ tail, (children = [] → tail = []) → ∀ c ∈ (content ++ tail).head?, c = '<') := by
  induction children generalizing afterTag with
  | nil =>
    refine ⟨[], by simp [piecesAll], fun tail htail => htail, fun _ tail htail c hc => ?_⟩
    rw [htail rfl] at hc
    cases hc
  | cons child children ih =>
    obtain ⟨hchild, hchildren⟩ := List.forall_mem_cons.mp h
    obtain ⟨written, helement, hwritten⟩ := hchild depth afterTag (piecesAll depth children ++ rest)
    obtain ⟨content, hchars, hcontent, -⟩ := ih hchildren true
    obtain ⟨first, rfl⟩ := helement.exists_eq_cons
    have hbreak : IsData (breakBefore indent depth afterTag) := by
      refine isData_of_notMem ?_ ?_ ?_ <;>
        exact fun hmem => by simpa using isSpace_breakBefore indent depth afterTag _ hmem
    refine ⟨breakBefore indent depth afterTag ++ ('<' :: first ++ content), ?_, ?_, ?_⟩
    · rw [piecesAll, List.append_assoc, hwritten, hchars]
      simp
    · intro tail htail
      rw [List.append_assoc, List.append_assoc]
      exact .element hbreak helement (hcontent tail htail)
    · rintro rfl tail - c hc
      exact (Option.some.inj hc).symm

/-- What stands behind an opening tag is content, and then the closing tag. -/
theorem exists_content_of_text {indent : Option Nat} {children : List Element}
    (h : ∀ child ∈ children, WritesElement indent child) (depth : Nat) (name : String) (text : Option String)
    (rest : List Piece) :
    ∃ content, IsContent content ∧
      chars indent true ((text.map Piece.text).toList ++ (piecesAll (depth + 1) children ++
        .closeTag depth name :: rest)) =
          content ++ '<' :: '/' :: (name.toList ++ '>' :: chars indent true rest) := by
  have hclose : ∀ afterTag, chars indent afterTag (.closeTag depth name :: rest) =
      breakBefore indent depth afterTag ++ '<' :: '/' :: (name.toList ++ '>' :: chars indent true rest) := by
    intro afterTag
    simp [chars, Piece.depth?, Piece.chars, breakBefore]
  have hbreak : ∀ afterTag, IsContent (breakBefore indent depth afterTag) := fun afterTag =>
    isContent_of_isSpace (isSpace_breakBefore indent depth afterTag)
  cases text with
  | none =>
    obtain ⟨content, hchars, hcontent, -⟩ := exists_content h (depth + 1) true (.closeTag depth name :: rest)
    refine ⟨_, hcontent _ (hbreak true), ?_⟩
    rw [Option.map_none, Option.toList_none, List.nil_append, hchars, Bool.true_or, hclose, List.append_assoc]
  | some text =>
    obtain ⟨content, hchars, hcontent, hstart⟩ :=
      exists_content h (depth + 1) false (.closeTag depth name :: rest)
    rw [Bool.false_or] at hchars
    have hend : children = [] → breakBefore indent depth (!children.isEmpty) = [] := by
      rintro rfl
      rfl
    refine ⟨_, isContent_escaped (hcontent _ (hbreak _)) (hstart rfl _ hend) text, ?_⟩
    show escaped text ++
      chars indent false (piecesAll (depth + 1) children ++ .closeTag depth name :: rest) = _
    rw [hchars, hclose]
    simp only [List.append_assoc]

/-- What is written for an element is an element. -/
theorem exists_element (indent : Option Nat) {element : Element} (h : element.Everywhere IsNamed) :
    WritesElement indent element := by
  induction element using induction_on_children with
  | step element ih =>
    have hchildren : ∀ child ∈ element.children, WritesElement indent child :=
      fun child hchild => ih child hchild (h.of_mem_children hchild)
    obtain ⟨name, attrs, text, children⟩ := element
    have htag : IsTag name.toList (name.toList ++ attrChars attrs) := h.self.isTag
    intro depth afterTag rest
    by_cases hempty : text = none ∧ children = []
    · obtain ⟨rfl, rfl⟩ := hempty
      refine ⟨_, .empty htag, ?_⟩
      simp [pieces, chars, Piece.depth?, Piece.chars, breakBefore]
    · obtain ⟨content, hcontent, hchars⟩ := exists_content_of_text hchildren depth name text rest
      refine ⟨_, .filled htag hcontent isSpace_nil, ?_⟩
      rw [pieces_of_contents hempty, List.cons_append, List.append_assoc, List.append_assoc,
        List.singleton_append, chars, hchars]
      simp [Piece.depth?, Piece.chars, breakBefore]

/-- A tree is written behind the declaration, if there is one. -/
theorem toList_source (options : MarkupOptions) (root : Element) :
    (source options root).toList = (if options.declaration then declaration else []) ++
      chars options.indent options.declaration (root.pieces 0) := by
  obtain ⟨indent, declares⟩ := options
  rw [source, String.toList_ofList]
  cases declares with
  | true => rfl
  | false => rfl

/-- **What is written for a tree is a document**, if the tree is named everywhere. -/
theorem isDocument_source {root : Element} (h : root.Everywhere IsNamed) (options : MarkupOptions) :
    IsDocument (source options root).toList := by
  obtain ⟨written, helement, hwritten⟩ := exists_element options.indent h 0 options.declaration []
  refine ⟨if options.declaration then declaration else [], _, written, [], ?_, ?_,
    isSpace_breakBefore options.indent 0 options.declaration, helement, isSpace_nil⟩
  · rw [toList_source, ← List.append_nil (root.pieces 0), hwritten]
    rfl
  · cases options.declaration with
    | true => exact .inr rfl
    | false => exact .inl rfl

/-! ### Characters -/

theorem mem_piecesAll {depth : Nat} {children : List Element} {piece : Piece} :
    piece ∈ piecesAll depth children ↔ ∃ child ∈ children, piece ∈ child.pieces depth := by
  induction children with
  | nil => simp [piecesAll]
  | cons child children ih => simp [piecesAll, ih]

/-- The tags of an element: an empty one, or one at either end. -/
def tags (depth : Nat) (element : Element) : List Piece :=
  if element.text = none ∧ element.children.isEmpty then [.emptyTag depth element.name element.attrs]
  else [.openTag depth element.name element.attrs, .closeTag depth element.name]

/-- The pieces of an element are its tags, its text, and those of its children. -/
theorem mem_pieces_iff {element : Element} {depth : Nat} {piece : Piece} :
    piece ∈ element.pieces depth ↔ piece ∈ element.tags depth ∨
      (∃ text, element.text = some text ∧ piece = .text text) ∨
        ∃ child ∈ element.children, piece ∈ child.pieces (depth + 1) := by
  obtain ⟨name, attrs, text, children⟩ := element
  by_cases hempty : text = none ∧ children = []
  · obtain ⟨rfl, rfl⟩ := hempty
    simp [pieces, tags]
  · have htext : piece ∈ (text.map Piece.text).toList ↔ ∃ found, text = some found ∧ piece = .text found := by
      cases text <;> simp
    rw [pieces_of_contents hempty, List.mem_cons, List.mem_append, List.mem_append, mem_piecesAll,
      htext, tags, if_neg (by simpa using hempty)]
    simp only [List.mem_cons, List.not_mem_nil, or_false]
    exact (or_congr_right or_comm).trans or_assoc.symm

/-- All that is written is blanks and what the pieces are. -/
theorem mem_chars {indent : Option Nat} {afterTag : Bool} {pieces : List Piece} {c : Char}
    (h : c ∈ chars indent afterTag pieces) : IsSpace [c] ∨ ∃ piece ∈ pieces, c ∈ piece.chars := by
  induction pieces generalizing afterTag with
  | nil => cases h
  | cons piece rest ih =>
    rw [chars] at h
    have hrest : ∀ afterTag, c ∈ chars indent afterTag rest →
        IsSpace [c] ∨ ∃ other ∈ piece :: rest, c ∈ other.chars := by
      intro afterTag h
      refine (ih h).imp_right fun hfound => ?_
      obtain ⟨other, hother, hc⟩ := hfound
      exact ⟨other, List.mem_cons_of_mem _ hother, hc⟩
    cases hdepth : piece.depth? with
    | none =>
      rw [hdepth] at h
      rcases List.mem_append.mp h with h | h
      · exact .inr ⟨piece, List.mem_cons_self, h⟩
      · exact hrest _ h
    | some depth =>
      rw [hdepth] at h
      rcases List.mem_append.mp h with h | h
      · rcases List.mem_append.mp h with h | h
        · refine .inl fun d hd => ?_
          rw [List.mem_singleton.mp hd]
          exact isSpace_breakBefore indent depth afterTag c h
        · exact .inr ⟨piece, List.mem_cons_self, h⟩
      · exact hrest _ h

theorem mem_chars_of_mem {indent : Option Nat} {afterTag : Bool} {pieces : List Piece} {piece : Piece}
    (hpiece : piece ∈ pieces) {c : Char} (hc : c ∈ piece.chars) : c ∈ chars indent afterTag pieces := by
  induction pieces generalizing afterTag with
  | nil => cases hpiece
  | cons first rest ih =>
    rw [chars]
    rcases List.mem_cons.mp hpiece with rfl | hpiece
    · cases piece.depth? <;> simp [hc]
    · cases first.depth? <;> simp [ih hpiece]

variable {others : Char → Prop}

/-- Whether the texts and the attribute values of an element have allowed characters, other than the
given ones. -/
structure IsPlain (others : Char → Prop) (element : Element) : Prop where
  attrs : ∀ attr ∈ element.attrs, IsText others attr.2
  text : ∀ text, element.text = some text → IsText others text

/-- An escaped text has allowed characters if the text has. -/
theorem isChar_or_of_mem_escaped {text : String} (h : IsText others text) {c : Char} (hc : c ∈ escaped text) :
    isChar c = true ∨ others c := by
  obtain ⟨d, hd, hc⟩ := List.mem_flatMap.mp hc
  by_cases hmark : d ∈ marks
  · have hall : references.all (fun reference => reference.all isChar) = true := by decide
    have hreference := List.all_eq_true.mp hall _ (escapedChar_mem_references hmark)
    exact .inl (List.all_eq_true.mp hreference c hc)
  · rw [escapedChar_of_notMem hmark] at hc
    rw [List.mem_singleton.mp hc]
    exact h d hd

theorem isChar_or_of_mem_attrChars {attrs : List (String × String)}
    (h : ∀ attr ∈ attrs, IsName attr.1.toList ∧ IsText others attr.2) {c : Char} (hc : c ∈ attrChars attrs) :
    isChar c = true ∨ others c := by
  obtain ⟨attr, hattr, hc⟩ := List.mem_flatMap.mp hc
  obtain ⟨hname, hvalue⟩ := h attr hattr
  simp only [List.mem_cons, List.mem_append, List.not_mem_nil, or_false] at hc
  rcases hc with rfl | hc | rfl | rfl | hc | rfl
  · exact .inl (by decide)
  · exact .inl (hname.isChar hc)
  · exact .inl (by decide)
  · exact .inl (by decide)
  · exact isChar_or_of_mem_escaped hvalue hc
  · exact .inl (by decide)

/-- The tags of an element have allowed characters if its attribute values have. -/
theorem isChar_or_of_mem_tags {element : Element} (hnamed : element.IsNamed) (hplain : element.IsPlain others)
    {depth : Nat} {piece : Piece} (hpiece : piece ∈ element.tags depth) {c : Char} (hc : c ∈ piece.chars) :
    isChar c = true ∨ others c := by
  have hattrs : ∀ attr ∈ element.attrs, IsName attr.1.toList ∧ IsText others attr.2 := fun attr hattr =>
    ⟨hnamed.attrs attr hattr, hplain.attrs attr hattr⟩
  have hsigns : ['<', '>', '/'].all isChar = true := by decide
  have hparts : c ∈ ['<', '>', '/'] ∨ c ∈ element.name.toList ∨ c ∈ attrChars element.attrs := by
    rw [tags] at hpiece
    split at hpiece
    · obtain rfl := List.mem_singleton.mp hpiece
      simp only [Piece.chars, List.mem_cons, List.mem_append, List.not_mem_nil, or_false] at hc ⊢
      tauto
    · rcases List.mem_pair.mp hpiece with rfl | rfl
      · simp only [Piece.chars, List.mem_cons, List.mem_append, List.not_mem_nil, or_false] at hc ⊢
        tauto
      · simp only [Piece.chars, List.mem_cons, List.mem_append, List.not_mem_nil, or_false] at hc ⊢
        tauto
  rcases hparts with hc | hc | hc
  · exact .inl (List.all_eq_true.mp hsigns c hc)
  · exact .inl (hnamed.name.isChar hc)
  · exact isChar_or_of_mem_attrChars hattrs hc

theorem isChar_or_of_mem_pieces {element : Element} (hnamed : element.Everywhere IsNamed)
    (hplain : element.Everywhere (IsPlain others)) {depth : Nat} {piece : Piece}
    (hpiece : piece ∈ element.pieces depth) {c : Char} (hc : c ∈ piece.chars) :
    isChar c = true ∨ others c := by
  induction element using induction_on_children generalizing depth with
  | step element ih =>
    rcases mem_pieces_iff.mp hpiece with htag | ⟨text, htext, rfl⟩ | ⟨child, hchild, hpiece⟩
    · exact isChar_or_of_mem_tags hnamed.self hplain.self htag hc
    · exact isChar_or_of_mem_escaped (hplain.self.text text htext) hc
    · exact ih child hchild (hnamed.of_mem_children hchild) (hplain.of_mem_children hchild) hpiece

/-- **What is written for a tree has allowed characters** other than the given ones, if the tree is
named everywhere, and its texts and attribute values have such characters only. -/
theorem isText_source {root : Element} (hnamed : root.Everywhere IsNamed)
    (hplain : root.Everywhere (IsPlain others)) (options : MarkupOptions) :
    IsText others (source options root) := by
  intro c hc
  rw [toList_source, List.mem_append] at hc
  rcases hc with hc | hc
  · have hdeclaration : declaration.all isChar = true := by decide
    split at hc
    · exact .inl (List.all_eq_true.mp hdeclaration c hc)
    · cases hc
  · rcases mem_chars hc with hspace | ⟨piece, hpiece, hc⟩
    · exact .inl (hspace.isChar (List.mem_singleton_self c))
    · exact isChar_or_of_mem_pieces hnamed hplain hpiece hc

/-- A text of a tree is one of its pieces. -/
theorem text_mem_pieces {element found : Element} {address : List (String × Nat)} {text : String}
    (hfound : element.along? address = some found) (htext : found.text = some text) (depth : Nat) :
    .text text ∈ element.pieces depth := by
  induction address generalizing element depth with
  | nil =>
    obtain rfl := Option.some.inj hfound
    exact mem_pieces_iff.mpr (.inr (.inl ⟨text, htext, rfl⟩))
  | cons step address ih =>
    rw [along?_cons, Option.bind_eq_some_iff] at hfound
    obtain ⟨child, hchild, hfound⟩ := hfound
    have hmem : child ∈ element.children := List.mem_of_mem_filter (List.mem_of_getElem? hchild)
    exact mem_pieces_iff.mpr (.inr (.inr ⟨child, hmem, ih hfound (depth + 1)⟩))

/-- A character without a meaning in markup stands in what is written for a tree as it stands in a
text of it. -/
theorem mem_source_of_text {root found : Element} {address : List (String × Nat)} {text : String}
    (hfound : root.along? address = some found) (htext : found.text = some text) {c : Char}
    (hc : c ∈ text.toList) (hmark : c ∉ marks) (options : MarkupOptions) :
    c ∈ (source options root).toList := by
  have hescaped : c ∈ escaped text := by
    rw [escaped, List.mem_flatMap]
    exact ⟨c, hc, by rw [escapedChar_of_notMem hmark]; exact List.mem_singleton_self c⟩
  rw [toList_source]
  exact List.mem_append_right _ (mem_chars_of_mem (text_mem_pieces hfound htext 0) hescaped)

end Element

end InvoiceXml
