import InvoiceXml.Element.Markup
import InvoiceXml.Proofs.Path.Reader

/-!
# Markup can be read in one way

What is written for an element can be told apart from whatever stands behind it. Behind a name
stands a character that no qualified name holds; an escaped text holds neither the quote that ends
an attribute value nor the bracket that ends a text; and behind the children of an element stands
its closing tag, which no child starts like.

An element without children whose text is empty is written with two tags, and one without text with
one. Where there are children, an empty text leaves no trace: `settled` drops it.

* `escaped_injective`: escaping loses nothing;
* `written_append_inj`: what is written for an element says where it ends and, up to empty texts,
  which element it is;
* **`source_eq_iff_settled_eq`**: two elements with qualified names are written alike, without
  indentation, if and only if they are the same once such texts are dropped.
-/

namespace InvoiceXml

namespace Markup

/-! ### Escaped texts -/

/-- The characters that are written as entities. -/
def marks : List Char := ['<', '>', '&', '\'', '"']

theorem escapedChar_of_notMem {c : Char} (h : c ∉ marks) : escapedChar c = [c] := by
  grind [escapedChar, marks]

theorem escapedChar_of_mem {c : Char} (h : c ∈ marks) : ∃ entity, escapedChar c = '&' :: entity := by
  grind [escapedChar, marks]

/-- No character is written as the beginning of what is written for another. -/
theorem eq_of_prefix_escapedChar {c d : Char} (h : escapedChar c <+: escapedChar d) : c = d := by
  by_cases hc : c ∈ marks
  · by_cases hd : d ∈ marks
    · have hentities : (marks.all fun c => marks.all fun d => escapedChar c <+: escapedChar d →
          c = d) = true := by
        decide
      exact of_decide_eq_true (List.all_eq_true.mp (List.all_eq_true.mp hentities c hc) d hd) h
    · obtain ⟨entity, hentity⟩ := escapedChar_of_mem hc
      rw [hentity, escapedChar_of_notMem hd, List.cons_prefix_cons] at h
      exact absurd (h.1 ▸ by decide) hd
  · rw [escapedChar_of_notMem hc] at h
    by_cases hd : d ∈ marks
    · obtain ⟨entity, hentity⟩ := escapedChar_of_mem hd
      rw [hentity, List.cons_prefix_cons] at h
      exact absurd (h.1 ▸ by decide) hc
    · rw [escapedChar_of_notMem hd, List.cons_prefix_cons] at h
      exact h.1

theorem escapedChar_append_inj {c d : Char} {rest others : List Char}
    (h : escapedChar c ++ rest = escapedChar d ++ others) : c = d ∧ rest = others := by
  have hfirst : escapedChar c <+: escapedChar c ++ rest := List.prefix_append _ _
  have hsecond : escapedChar d <+: escapedChar c ++ rest := h ▸ List.prefix_append _ _
  obtain rfl : c = d := (List.prefix_or_prefix_of_prefix hfirst hsecond).elim eq_of_prefix_escapedChar
    fun h => (eq_of_prefix_escapedChar h).symm
  exact ⟨rfl, List.append_cancel_left h⟩

theorem escapedChar_ne_nil (c : Char) : escapedChar c ≠ [] := by
  grind [escapedChar]

theorem flatMap_escapedChar_injective {cs ds : List Char}
    (h : cs.flatMap escapedChar = ds.flatMap escapedChar) :
    cs = ds := by
  induction cs generalizing ds with
  | nil =>
    cases ds with
    | nil => rfl
    | cons d ds => exact absurd (List.append_eq_nil_iff.mp h.symm).1 (escapedChar_ne_nil d)
  | cons c cs ih =>
    cases ds with
    | nil => exact absurd (List.append_eq_nil_iff.mp h).1 (escapedChar_ne_nil c)
    | cons d ds =>
      obtain ⟨rfl, hrest⟩ := escapedChar_append_inj h
      rw [ih hrest]

/-- **Escaping loses nothing.** -/
theorem escaped_injective {text other : String} (h : escaped text = escaped other) : text = other :=
  String.toList_inj.mp (flatMap_escapedChar_injective h)

/-- A mark that stands in no entity does not stand in an escaped text. -/
theorem notMem_escaped {sign : Char} (hmark : sign ∈ marks) (hentities : sign ∉ marks.flatMap escapedChar)
    (text : String) : sign ∉ escaped text := by
  rw [escaped, List.mem_flatMap]
  rintro ⟨c, -, hsign⟩
  by_cases hc : c ∈ marks
  · exact hentities (List.mem_flatMap.mpr ⟨c, hc, hsign⟩)
  · rw [escapedChar_of_notMem hc, List.mem_singleton] at hsign
    exact hc (hsign ▸ hmark)

theorem lt_notMem_escaped (text : String) : '<' ∉ escaped text := notMem_escaped (by decide) (by decide) text

theorem quote_notMem_escaped (text : String) : '"' ∉ escaped text :=
  notMem_escaped (by decide) (by decide) text

/-! ### Tags -/

/-- A character that may stand in a qualified name. -/
def standsInName (c : Char) : Bool := Path.continuesName c || c = ':'

theorem standsInName_of_mem {name : String} (h : Path.isQName name.toList = true) {c : Char}
    (hc : c ∈ name.toList) :
    standsInName c = true := by
  obtain ⟨form, hform⟩ := Path.isQName_iff.mp h
  by_contra hnot
  rw [standsInName, Bool.or_eq_true, decide_eq_true_eq, not_or, Bool.not_eq_true] at hnot
  exact form.notMem_chars hnot.1 hnot.2 (hform ▸ hc)

/-- A name ends where a character stands that no name holds. -/
theorem name_append_inj {name other : String} (hname : Path.isQName name.toList = true)
    (hother : Path.isQName other.toList = true) {mark otherMark : Char} {rest others : List Char}
    (hmark : standsInName mark = false) (hotherMark : standsInName otherMark = false)
    (h : name.toList ++ mark :: rest = other.toList ++ otherMark :: others) :
    name = other ∧ mark = otherMark ∧ rest = others := by
  obtain ⟨hsame, htail⟩ := Text.append_inj_of_class (fun c => standsInName_of_mem hname)
    (fun c => standsInName_of_mem hother) (by simpa using hmark) (by simpa using hotherMark) h
  exact ⟨String.toList_inj.mp hsame, List.cons.inj htail⟩

/-- An attribute of a tag, with a blank before it. -/
theorem attrChars_cons (attr : String × String) (attrs : List (String × String)) (rest : List Char) :
    attrChars (attr :: attrs) ++ rest =
      ' ' :: (attr.1.toList ++ '=' :: '"' :: (escaped attr.2 ++ '"' :: (attrChars attrs ++ rest))) := by
  simp [attrChars]

/-- The attributes of a tag end where no blank stands before a further one. -/
theorem attrChars_append_inj {attrs others : List (String × String)} {mark otherMark : Char}
    {rest tail : List Char} (hattrs : ∀ attr ∈ attrs, Path.isQName attr.1.toList = true)
    (hothers : ∀ attr ∈ others, Path.isQName attr.1.toList = true) (hmark : mark ≠ ' ')
    (hotherMark : otherMark ≠ ' ')
    (h : attrChars attrs ++ mark :: rest = attrChars others ++ otherMark :: tail) :
    attrs = others ∧ mark = otherMark ∧ rest = tail := by
  induction attrs generalizing others with
  | nil =>
    cases others with
    | nil => exact ⟨rfl, List.cons.inj h⟩
    | cons other others =>
      rw [attrChars_cons] at h
      exact absurd (List.cons.inj h).1 hmark
  | cons attr attrs ih =>
    cases others with
    | nil =>
      rw [attrChars_cons] at h
      exact absurd (List.cons.inj h).1.symm hotherMark
    | cons other others =>
      rw [List.forall_mem_cons] at hattrs hothers
      rw [attrChars_cons, attrChars_cons] at h
      obtain ⟨hname, -, h⟩ := name_append_inj hattrs.1 hothers.1 (by decide) (by decide) (List.cons.inj h).2
      obtain ⟨hvalue, h⟩ := Text.append_cons_inj (quote_notMem_escaped attr.2) (quote_notMem_escaped other.2)
        (List.cons.inj h).2
      obtain ⟨rfl, hend⟩ := ih hattrs.2 hothers.2 h
      obtain rfl : attr = other := Prod.ext hname (escaped_injective hvalue)
      exact ⟨rfl, hend⟩

theorem exists_attrChars_append_eq_cons (attrs : List (String × String)) {mark : Char}
    (hmark : standsInName mark = false) (rest : List Char) :
    ∃ sign after, attrChars attrs ++ mark :: rest = sign :: after ∧ standsInName sign = false := by
  cases attrs with
  | nil => exact ⟨mark, rest, rfl, hmark⟩
  | cons attr attrs => exact ⟨' ', _, attrChars_cons attr attrs _, by decide⟩

/-- Whether the name in a tag and those of its attributes are qualified names. -/
def isQNamed (name : String) (attrs : List (String × String)) : Bool :=
  Path.isQName name.toList && attrs.all fun attr => Path.isQName attr.1.toList

theorem isQNamed_iff {name : String} {attrs : List (String × String)} :
    isQNamed name attrs = true ↔
      Path.isQName name.toList = true ∧ ∀ attr ∈ attrs, Path.isQName attr.1.toList = true := by
  rw [isQNamed, Bool.and_eq_true, List.all_eq_true]

/-- A tag says what its name and its attributes are, and how it ends. -/
theorem tag_append_inj {name other : String} {attrs others : List (String × String)} {mark otherMark : Char}
    {rest tail : List Char} (hfirst : isQNamed name attrs = true) (hsecond : isQNamed other others = true)
    (hmark : standsInName mark = false ∧ mark ≠ ' ')
    (hotherMark : standsInName otherMark = false ∧ otherMark ≠ ' ')
    (h : '<' :: (name.toList ++ (attrChars attrs ++ mark :: rest)) =
      '<' :: (other.toList ++ (attrChars others ++ otherMark :: tail))) :
    name = other ∧ attrs = others ∧ mark = otherMark ∧ rest = tail := by
  obtain ⟨hname, hattrs⟩ := isQNamed_iff.mp hfirst
  obtain ⟨hother, hothers⟩ := isQNamed_iff.mp hsecond
  obtain ⟨sign, after, hafter, hsign⟩ := exists_attrChars_append_eq_cons attrs hmark.1 rest
  obtain ⟨otherSign, otherAfter, hotherAfter, hotherSign⟩ :=
    exists_attrChars_append_eq_cons others hotherMark.1 tail
  rw [hafter, hotherAfter] at h
  obtain ⟨hsame, rfl, rfl⟩ := name_append_inj hname hother hsign hotherSign (List.cons.inj h).2
  exact ⟨hsame, attrChars_append_inj hattrs hothers hmark.2 hotherMark.2 (hafter.trans hotherAfter.symm)⟩

end Markup

namespace Element

open Markup

/-! ### Elements -/

mutual

/-- Whether the names of an element, of its attributes and of all below it are qualified names. -/
def hasQNames : Element → Bool
  | { name, attrs, children, .. } => isQNamed name attrs && haveQNames children

def haveQNames : List Element → Bool
  | [] => true
  | element :: rest => hasQNames element && haveQNames rest

end

mutual

/-- The element without empty texts, where there are children. -/
def settled : Element → Element
  | { name, attrs, text, children } =>
    { name, attrs, text := if children.isEmpty then text else text.filter (· ≠ ""),
      children := settledAll children }

def settledAll : List Element → List Element
  | [] => []
  | element :: rest => settled element :: settledAll rest

end

/-- The characters of an element on one line. -/
def written (depth : Nat) (element : Element) : List Char := (element.pieces depth).flatMap Piece.chars

def writtenAll (depth : Nat) (elements : List Element) : List Char :=
  (piecesAll depth elements).flatMap Piece.chars

/-- The characters of a text, if there is one. -/
def textChars (text : Option String) : List Char := text.elim [] escaped

theorem writtenAll_cons (depth : Nat) (element : Element) (rest : List Element) :
    writtenAll depth (element :: rest) = written depth element ++ writtenAll depth rest := by
  simp [writtenAll, written, piecesAll]

/-- An element that contains nothing is an empty tag. -/
theorem written_of_empty (depth : Nat) (name : String) (attrs : List (String × String)) (rest : List Char) :
    written depth ⟨name, attrs, none, []⟩ ++ rest =
      '<' :: (name.toList ++ (attrChars attrs ++ '/' :: '>' :: rest)) := by
  simp [written, pieces, Piece.chars]

theorem written_of_contents {text : Option String} {children : List Element} (h : text = none → children ≠ [])
    (depth : Nat) (name : String) (attrs : List (String × String)) (rest : List Char) :
    written depth ⟨name, attrs, text, children⟩ ++ rest =
      '<' :: (name.toList ++ (attrChars attrs ++ '>' :: (textChars text ++
        (writtenAll (depth + 1) children ++ '<' :: '/' :: (name.toList ++ '>' :: rest))))) := by
  cases text with
  | none =>
    obtain ⟨child, children, rfl⟩ := List.exists_cons_of_ne_nil (h rfl)
    simp [written, writtenAll, pieces, Piece.chars, textChars]
  | some text => simp [written, writtenAll, pieces, Piece.chars, textChars]

/-- An empty tag ends with a slash, an opening tag does not. -/
theorem empty_ne_contents {name other : String} {attrs others : List (String × String)} {text : Option String}
    {children : List Element} {depth : Nat} {rest tail : List Char} (hfirst : isQNamed name attrs = true)
    (hsecond : isQNamed other others = true) (hcontents : text = none → children ≠ []) :
    written depth ⟨name, attrs, none, []⟩ ++ rest ≠ written depth ⟨other, others, text, children⟩ ++
      tail := by
  intro h
  rw [written_of_empty, written_of_contents hcontents] at h
  obtain ⟨-, -, hmark, -⟩ := tag_append_inj hfirst hsecond (by decide) (by decide) h
  exact absurd hmark (by decide)

/-- A child starts with a bracket and a name, unlike the closing tag of its parent. -/
theorem exists_written_append_eq {element : Element} (h : element.hasQNames = true) (depth : Nat)
    (rest : List Char) :
    ∃ c after, written depth element ++ rest = '<' :: c :: after ∧ c ≠ '/' := by
  obtain ⟨name, attrs, text, children⟩ := element
  rw [hasQNames, Bool.and_eq_true] at h
  obtain ⟨form, hform⟩ := Path.isQName_iff.mp (isQNamed_iff.mp h.1).1
  obtain ⟨c, cs, hchars, hstarts⟩ := form.exists_chars_eq_cons
  have hname : name.toList = c :: cs := hform ▸ hchars
  have hslash : c ≠ '/' := fun h => absurd (h ▸ hstarts) (by decide)
  by_cases hempty : text = none ∧ children = []
  · obtain ⟨rfl, rfl⟩ := hempty
    rw [written_of_empty, hname]
    exact ⟨c, _, rfl, hslash⟩
  · rw [written_of_contents (not_and.mp hempty), hname]
    exact ⟨c, _, rfl, hslash⟩

/-- The text of an element ends at the first tag behind it. -/
theorem textChars_append_inj {text other : Option String} {rest tail : List Char}
    (h : textChars text ++ '<' :: rest = textChars other ++ '<' :: tail) :
    textChars text = textChars other ∧ rest = tail := by
  have hnot : ∀ text, '<' ∉ textChars text := fun text => by
    cases text with
    | none => exact List.not_mem_nil
    | some text => exact lt_notMem_escaped text
  exact Text.append_cons_inj (hnot text) (hnot other) h

/-- Texts are written alike if they are the same up to an empty one. -/
theorem filter_eq_of_textChars_eq {text other : Option String} (h : textChars text = textChars other) :
    text.filter (· ≠ "") = other.filter (· ≠ "") := by
  cases text with
  | none =>
    cases other with
    | none => rfl
    | some other =>
      obtain rfl : "" = other := escaped_injective h
      rfl
  | some text =>
    cases other with
    | none =>
      obtain rfl : text = "" := escaped_injective h
      rfl
    | some other => rw [escaped_injective h]

theorem textChars_filter (text : Option String) : textChars (text.filter (· ≠ "")) = textChars text := by
  cases text with
  | none => rfl
  | some text =>
    by_cases hempty : text = ""
    · rw [hempty]
      rfl
    · rw [Option.filter_some_pos (by simpa using hempty)]

theorem settledAll_eq_nil_iff {elements : List Element} : settledAll elements = [] ↔ elements = [] := by
  cases elements <;> simp [settledAll]

/-- Elements that contain something are the same, once empty texts are dropped, if their texts are
written alike and their children are the same. -/
theorem settled_eq_of_contents {name : String} {attrs : List (String × String)}
    {text other : Option String} {children others : List Element}
    (hfirst : text = none → children ≠ []) (hsecond : other = none → others ≠ [])
    (htext : textChars text = textChars other) (hchildren : settledAll children = settledAll others) :
    settled ⟨name, attrs, text, children⟩ = settled ⟨name, attrs, other, others⟩ := by
  rw [settled, settled, hchildren]
  cases children with
  | nil =>
    obtain rfl : others = [] := settledAll_eq_nil_iff.mp hchildren.symm
    obtain ⟨text, rfl⟩ := Option.ne_none_iff_exists'.mp fun h => hfirst h rfl
    obtain ⟨other, rfl⟩ := Option.ne_none_iff_exists'.mp fun h => hsecond h rfl
    rw [escaped_injective htext]
  | cons child children =>
    obtain ⟨otherChild, others, rfl⟩ := List.exists_cons_of_ne_nil fun hnil : others = [] =>
      List.cons_ne_nil child children
        (settledAll_eq_nil_iff.mp (hchildren.trans (settledAll_eq_nil_iff.mpr hnil)))
    simp only [List.isEmpty_cons, Bool.false_eq_true, if_false]
    rw [filter_eq_of_textChars_eq htext]

/-- No child is written like the closing tag of its parent. -/
theorem child_ne_closing {element : Element} {elements : List Element} {depth : Nat} {rest tail : List Char}
    (h : haveQNames (element :: elements) = true) :
    writtenAll depth (element :: elements) ++ rest ≠ '<' :: '/' :: tail := by
  intro hwritten
  rw [haveQNames, Bool.and_eq_true] at h
  obtain ⟨c, after, hafter, hslash⟩ := exists_written_append_eq h.1 depth (writtenAll depth elements ++ rest)
  rw [writtenAll_cons, List.append_assoc, hafter] at hwritten
  exact hslash (List.cons.inj (List.cons.inj hwritten).2).1

/-- What follows the text of an element starts with a bracket, be it a child or the closing tag. -/
theorem exists_writtenAll_append_eq {elements : List Element} (h : haveQNames elements = true) (depth : Nat)
    (rest : List Char) : ∃ after, writtenAll depth elements ++ '<' :: rest = '<' :: after := by
  cases elements with
  | nil => exact ⟨rest, rfl⟩
  | cons element others =>
    rw [haveQNames, Bool.and_eq_true] at h
    rw [writtenAll_cons, List.append_assoc]
    obtain ⟨c, after, hafter, -⟩ :=
      exists_written_append_eq h.1 depth (writtenAll depth others ++ '<' :: rest)
    exact ⟨c :: after, hafter⟩

mutual

/-- **What is written for an element says where it ends**, and which element it is, up to empty texts. -/
theorem written_append_inj : ∀ {first second : Element} {depth : Nat} {rest tail : List Char},
    first.hasQNames = true → second.hasQNames = true →
      written depth first ++ rest = written depth second ++ tail →
        first.settled = second.settled ∧ rest = tail
  | ⟨name, attrs, text, children⟩, ⟨other, others, otherText, below⟩, depth, rest, tail, hfirst,
    hsecond, h => by
    rw [hasQNames, Bool.and_eq_true] at hfirst hsecond
    obtain ⟨hfirst, hchildren⟩ := hfirst
    obtain ⟨hsecond, hbelow⟩ := hsecond
    by_cases hempty : text = none ∧ children = []
    · obtain ⟨rfl, rfl⟩ := hempty
      by_cases hotherEmpty : otherText = none ∧ below = []
      · obtain ⟨rfl, rfl⟩ := hotherEmpty
        rw [written_of_empty, written_of_empty] at h
        obtain ⟨rfl, rfl, -, hend⟩ := tag_append_inj hfirst hsecond (by decide) (by decide) h
        exact ⟨rfl, (List.cons.inj hend).2⟩
      · exact absurd h (empty_ne_contents hfirst hsecond (not_and.mp hotherEmpty))
    · by_cases hotherEmpty : otherText = none ∧ below = []
      · obtain ⟨rfl, rfl⟩ := hotherEmpty
        exact absurd h.symm (empty_ne_contents hsecond hfirst (not_and.mp hempty))
      · rw [written_of_contents (not_and.mp hempty), written_of_contents (not_and.mp hotherEmpty)] at h
        obtain ⟨rfl, rfl, -, hinner⟩ := tag_append_inj hfirst hsecond (by decide) (by decide) h
        obtain ⟨after, hafter⟩ :=
          exists_writtenAll_append_eq hchildren (depth + 1) ('/' :: (name.toList ++ '>' :: rest))
        obtain ⟨otherAfter, hotherAfter⟩ :=
          exists_writtenAll_append_eq hbelow (depth + 1) ('/' :: (name.toList ++ '>' :: tail))
        rw [hafter, hotherAfter] at hinner
        obtain ⟨htext, rfl⟩ := textChars_append_inj hinner
        obtain ⟨hsettled, hclosing⟩ := writtenAll_append_inj hchildren hbelow (hafter.trans hotherAfter.symm)
        exact ⟨settled_eq_of_contents (not_and.mp hempty) (not_and.mp hotherEmpty) htext hsettled,
          (List.cons.inj (List.append_cancel_left hclosing)).2⟩

/-- Children end where a closing tag stands. -/
theorem writtenAll_append_inj : ∀ {elements others : List Element} {depth : Nat} {rest tail : List Char},
    haveQNames elements = true → haveQNames others = true →
      writtenAll depth elements ++ '<' :: '/' :: rest = writtenAll depth others ++ '<' :: '/' :: tail →
        settledAll elements = settledAll others ∧ rest = tail
  | [], [], _, _, _, _, _, h => ⟨rfl, (List.cons.inj (List.cons.inj h).2).2⟩
  | [], other :: others, _, _, _, _, hothers, h => absurd h.symm (child_ne_closing hothers)
  | element :: elements, [], _, _, _, helements, _, h => absurd h (child_ne_closing helements)
  | element :: elements, other :: others, depth, rest, tail, helements, hothers, h => by
    rw [haveQNames, Bool.and_eq_true] at helements hothers
    rw [writtenAll_cons, writtenAll_cons, List.append_assoc, List.append_assoc] at h
    obtain ⟨hfirst, hrest⟩ := written_append_inj helements.1 hothers.1 h
    obtain ⟨hsettled, hend⟩ := writtenAll_append_inj helements.2 hothers.2 hrest
    exact ⟨by rw [settledAll, settledAll, hfirst, hsettled], hend⟩

end

mutual

/-- An empty text beside children leaves no trace. -/
theorem written_settled :
    ∀ (element : Element) (depth : Nat), written depth element.settled = written depth element
  | ⟨name, attrs, text, children⟩, depth => by
    cases children with
    | nil => rfl
    | cons child children =>
      have hchildren : settledAll (child :: children) ≠ [] := by simp [settledAll]
      show written depth ⟨name, attrs, text.filter (· ≠ ""), settledAll (child :: children)⟩ = _
      refine (List.append_left_inj []).mp ?_
      rw [written_of_contents fun _ => hchildren,
        written_of_contents fun _ => List.cons_ne_nil child children, textChars_filter,
        writtenAll_settledAll]

theorem writtenAll_settledAll : ∀ (elements : List Element) (depth : Nat),
    writtenAll depth (settledAll elements) = writtenAll depth elements
  | [], _ => rfl
  | element :: rest, depth => by
    rw [settledAll, writtenAll_cons, writtenAll_cons, written_settled element depth,
      writtenAll_settledAll rest depth]

end

end Element

namespace Markup

open Element

/-- **The text of a document says which tree it is**, if it is written without indentation and the
names are qualified names: trees are written alike if and only if they are the same once empty texts
beside children are dropped. -/
theorem source_eq_iff_settled_eq {first second : Element} (hfirst : first.hasQNames = true)
    (hsecond : second.hasQNames = true) (declaration : Bool) :
    source ⟨none, declaration⟩ first = source ⟨none, declaration⟩ second ↔
      first.settled = second.settled := by
  have hsource : source ⟨none, declaration⟩ first = source ⟨none, declaration⟩ second ↔
      written 0 first = written 0 second := by
    simp only [source, chars_none, List.flatMap_append, String.ofList_inj]
    exact List.append_right_inj _
  rw [hsource]
  constructor
  · intro h
    have hwritten : written 0 first ++ [] = written 0 second ++ [] := by rw [h]
    exact (written_append_inj hfirst hsecond hwritten).1
  · intro h
    rw [← written_settled first, ← written_settled second, h]

/-- A text that looks like a child is not written like one; an empty text beside a child is not
written at all. -/
theorem source_eq_iff_settled_eq_empty :
    let parent : Element := { name := "x:a", attrs := [("k", "\"<")], children := [{ name := "b" }] }
    let forged : Element := { parent with text := some "<b/>", children := [] }
    let blank : Element := { parent with text := some "" }
    parent.hasQNames = true ∧ forged.hasQNames = true ∧ blank.hasQNames = true ∧
      source ⟨none, true⟩ forged ≠ source ⟨none, true⟩ parent ∧
        source ⟨none, true⟩ blank = source ⟨none, true⟩ parent := by
  intro parent forged blank
  have hparent : parent.hasQNames = true := by decide +kernel
  have hforged : forged.hasQNames = true := by decide +kernel
  have hblank : blank.hasQNames = true := by decide +kernel
  refine ⟨hparent, hforged, hblank, fun h => ?_, (source_eq_iff_settled_eq hblank hparent true).mpr rfl⟩
  have htext := congrArg text ((source_eq_iff_settled_eq hforged hparent true).mp h)
  cases htext

end Markup

end InvoiceXml
