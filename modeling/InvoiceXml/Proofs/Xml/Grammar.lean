import InvoiceXml.Proofs.Path.Reader
import InvoiceXml.Text.Range

/-!
# Well-formed documents

The part of the grammar of XML 1.0 that has no comments, processing instructions, CDATA sections,
document types and numbered references. Each production is a property of characters:

* a document is one element, possibly with a declaration before it (`IsDocument`);
* an element is an empty tag, or content between two tags of one name (`IsElement`);
* content is character data, and references and elements between it; the data has no `<`, no `&`,
  and no `]]>` (`IsContent`);
* a tag is a name and attributes, and no two of them have one name (`IsTag`);
* the value of an attribute has references, but no other `&`, no `<`, and not the quote that it
  stands in (`IsValue`).

A document is well-formed (`WellFormed`) when, besides, all of its characters are among those that
XML allows; most control characters are not.

* `isName_of_isQName`: a qualified name of ASCII characters is a name.
-/

namespace InvoiceXml.Xml

open Text (Ranges inRanges)

/-! ### Characters and names -/

/-- The code points of the characters that a document may have. -/
def charRanges : Ranges := [(0x9, 0xA), (0xD, 0xD), (0x20, 0xD7FF), (0xE000, 0xFFFD), (0x10000, 0x10FFFF)]

/-- Whether a document may have the character. -/
def isChar (c : Char) : Bool := inRanges charRanges c.toNat

/-- Whether a document may have all characters of a text, other than the given ones. -/
def IsText (others : Char → Prop) (text : String) : Prop := ∀ c ∈ text.toList, isChar c = true ∨ others c

/-- The code points of the characters that may start a name. -/
def nameStartRanges : Ranges :=
  [(0x3A, 0x3A), (0x41, 0x5A), (0x5F, 0x5F), (0x61, 0x7A), (0xC0, 0xD6), (0xD8, 0xF6), (0xF8, 0x2FF),
    (0x370, 0x37D), (0x37F, 0x1FFF), (0x200C, 0x200D), (0x2070, 0x218F), (0x2C00, 0x2FEF),
    (0x3001, 0xD7FF), (0xF900, 0xFDCF), (0xFDF0, 0xFFFD), (0x10000, 0xEFFFF)]

/-- The code points of the characters that may stand only further on in a name. -/
def nameInnerRanges : Ranges := [(0x2D, 0x2E), (0x30, 0x39), (0xB7, 0xB7), (0x300, 0x36F), (0x203F, 0x2040)]

/-- Whether a character may start a name. -/
def startsName (c : Char) : Bool := inRanges nameStartRanges c.toNat

/-- Whether a character may stand in a name. -/
def continuesName (c : Char) : Bool := startsName c || inRanges nameInnerRanges c.toNat

/-- Whether the characters are those of a name. -/
def IsName : List Char → Prop
  | [] => False
  | c :: cs => startsName c = true ∧ ∀ d ∈ cs, continuesName d = true

instance : (cs : List Char) → Decidable (IsName cs)
  | [] => isFalse not_false
  | c :: cs => decidable_of_iff (startsName c = true ∧ cs.all continuesName = true)
      (and_congr_right fun _ => List.all_eq_true)

/-- Whether all characters are blanks. -/
def IsSpace (cs : List Char) : Prop := ∀ c ∈ cs, c ∈ [' ', '\t', '\r', '\n']

/-! ### Tags -/

/-- The references to the characters that have a meaning in markup. -/
def references : List (List Char) :=
  [['&', 'l', 't', ';'], ['&', 'g', 't', ';'], ['&', 'a', 'm', 'p', ';'], ['&', 'a', 'p', 'o', 's', ';'],
    ['&', 'q', 'u', 'o', 't', ';']]

/-- The value of an attribute, without the quotes around it. -/
inductive IsValue (quote : Char) : List Char → Prop where
  | nil : IsValue quote []
  | char {c : Char} {rest : List Char} :
      c ≠ '<' → c ≠ '&' → c ≠ quote → IsValue quote rest → IsValue quote (c :: rest)
  | reference {reference rest : List Char} :
      reference ∈ references → IsValue quote rest → IsValue quote (reference ++ rest)

/-- The attributes of a tag, with their names. -/
inductive IsAttributes : List (List Char) → List Char → Prop where
  | nil : IsAttributes [] []
  | cons {space name before after value rest : List Char} {quote : Char} {names : List (List Char)} :
      space ≠ [] → IsSpace space → IsName name → IsSpace before → IsSpace after → quote = '"' ∨ quote = '\'' →
        IsValue quote value → IsAttributes names rest →
          IsAttributes (name :: names)
            (space ++ (name ++ (before ++ '=' :: (after ++ quote :: (value ++ quote :: rest)))))

/-- What stands in a tag of the name behind the bracket: the name, attributes of different names,
and blanks. -/
def IsTag (name tag : List Char) : Prop :=
  IsName name ∧ ∃ names attributes space, tag = name ++ (attributes ++ space) ∧
    IsAttributes names attributes ∧ names.Nodup ∧ IsSpace space

/-! ### Elements -/

/-- Character data. -/
def IsData (cs : List Char) : Prop := '<' ∉ cs ∧ '&' ∉ cs ∧ ¬[']', ']', '>'] <:+: cs

mutual

/-- An element. -/
inductive IsElement : List Char → Prop where
  | empty {name tag : List Char} : IsTag name tag → IsElement ('<' :: (tag ++ ['/', '>']))
  | filled {name tag content space : List Char} : IsTag name tag → IsContent content → IsSpace space →
      IsElement ('<' :: (tag ++ '>' :: (content ++ '<' :: '/' :: (name ++ (space ++ ['>'])))))

/-- What stands between the two tags of an element. -/
inductive IsContent : List Char → Prop where
  | data {data : List Char} : IsData data → IsContent data
  | reference {data reference rest : List Char} :
      IsData data → reference ∈ references → IsContent rest → IsContent (data ++ (reference ++ rest))
  | element {data element rest : List Char} :
      IsData data → IsElement element → IsContent rest → IsContent (data ++ (element ++ rest))

end

/-! ### Documents -/

/-- The declaration of the version and the encoding. -/
def declaration : List Char := "<?xml version=\"1.0\" encoding=\"UTF-8\"?>".toList

/-- A document: one element, possibly with a declaration before it, and blanks. -/
def IsDocument (cs : List Char) : Prop :=
  ∃ start before element after, cs = start ++ (before ++ (element ++ after)) ∧
    (start = [] ∨ start = declaration) ∧ IsSpace before ∧ IsElement element ∧ IsSpace after

/-- Whether a text is a document, and all of its characters are allowed. -/
structure WellFormed (text : String) : Prop where
  document : IsDocument text.toList
  chars : ∀ c ∈ text.toList, isChar c = true

/-! ### What is allowed -/

theorem isSpace_nil : IsSpace [] := nofun

theorem IsSpace.isChar {cs : List Char} (h : IsSpace cs) {c : Char} (hc : c ∈ cs) : isChar c = true := by
  have hall : [' ', '\t', '\r', '\n'].all Xml.isChar = true := by decide
  exact List.all_eq_true.mp hall c (h c hc)

theorem isChar_of_continuesName {c : Char} (h : continuesName c = true) : isChar c = true := by
  have hinside : ∀ range ∈ nameStartRanges ++ nameInnerRanges, ∃ outer ∈ charRanges,
      outer.1 ≤ range.1 ∧ range.2 ≤ outer.2 := by decide
  have hranges : ∃ range ∈ nameStartRanges ++ nameInnerRanges, range.1 ≤ c.toNat ∧ c.toNat ≤ range.2 := by
    rw [continuesName, startsName, Bool.or_eq_true, Text.inRanges_iff, Text.inRanges_iff] at h
    rcases h with ⟨range, hmem, hrange⟩ | ⟨range, hmem, hrange⟩
    · exact ⟨range, List.mem_append_left _ hmem, hrange⟩
    · exact ⟨range, List.mem_append_right _ hmem, hrange⟩
  obtain ⟨range, hmem, hleast, hmost⟩ := hranges
  obtain ⟨outer, houter, hbelow, habove⟩ := hinside range hmem
  exact (Text.inRanges_iff _ _).mpr ⟨outer, houter, Nat.le_trans hbelow hleast, Nat.le_trans hmost habove⟩

/-- A document may have the characters of names. -/
theorem IsName.isChar {cs : List Char} (h : IsName cs) {c : Char} (hc : c ∈ cs) : isChar c = true := by
  cases cs with
  | nil => cases hc
  | cons first rest =>
    refine isChar_of_continuesName ?_
    rcases List.mem_cons.mp hc with rfl | hc
    · rw [continuesName, h.1, Bool.true_or]
    · exact h.2 c hc

/-! ### What data is -/

theorem IsElement.exists_eq_cons {cs : List Char} (h : IsElement cs) : ∃ rest, cs = '<' :: rest := by
  cases h with
  | empty _ => exact ⟨_, rfl⟩
  | filled _ _ _ => exact ⟨_, rfl⟩

/-- Characters without any mark are data. -/
theorem isData_of_notMem {cs : List Char} (hlt : '<' ∉ cs) (hamp : '&' ∉ cs) (hgt : '>' ∉ cs) : IsData cs :=
  ⟨hlt, hamp, fun h => hgt (h.subset (by simp))⟩

/-- Content that a tag starts, or that is empty, may follow any data. -/
theorem IsContent.prepend {data content : List Char} (h : IsContent content) (hdata : IsData data)
    (hstart : ∀ c ∈ content.head?, c = '<') : IsContent (data ++ content) := by
  have hempty : ∀ {first rest : List Char}, content = first ++ rest → IsData first → first = [] := by
    rintro first rest rfl hfirst
    cases first with
    | nil => rfl
    | cons c cs =>
      obtain rfl : c = '<' := hstart c rfl
      exact absurd List.mem_cons_self hfirst.1
  cases h with
  | data hcontent =>
    obtain rfl := hempty (List.append_nil _).symm hcontent
    rw [List.append_nil]
    exact .data hdata
  | reference hfirst hreference hrest =>
    obtain rfl := hempty rfl hfirst
    rw [List.nil_append]
    exact .reference hdata hreference hrest
  | element hfirst helement hrest =>
    obtain rfl := hempty rfl hfirst
    rw [List.nil_append]
    exact .element hdata helement hrest

/-! ### Qualified names -/

/-- Of the ASCII characters, those of qualified names are those of names. -/
theorem continuesName_of_lt {c : Char} (hascii : c.toNat < 128) :
    (Path.startsName c = true → startsName c = true) ∧
      (Path.continuesName c = true → continuesName c = true) := by
  have hall : ∀ code < 128, (Path.startsName (Char.ofNat code) = true → startsName (Char.ofNat code) = true) ∧
      (Path.continuesName (Char.ofNat code) = true → continuesName (Char.ofNat code) = true) := by
        decide +kernel
  have hc := hall c.toNat hascii
  rwa [Char.ofNat_toNat] at hc

/-- **A qualified name of ASCII characters is a name.** -/
theorem isName_of_isQName {cs : List Char} (hascii : ∀ c ∈ cs, c.toNat < 128) (h : Path.isQName cs = true) :
    IsName cs := by
  obtain ⟨form, rfl⟩ := Path.isQName_iff.mp h
  obtain ⟨first, rest, hchars, hstarts⟩ := form.exists_chars_eq_cons
  have hcontinues : ∀ c ∈ form.chars, continuesName c = true := by
    intro c hc
    by_cases hcolon : c = ':'
    · rw [hcolon]
      decide
    · refine (continuesName_of_lt (hascii c hc)).2 ?_
      by_contra hnot
      exact form.notMem_chars (Bool.not_eq_true _ ▸ hnot) hcolon hc
  rw [hchars] at hascii hcontinues ⊢
  exact ⟨(continuesName_of_lt (hascii first List.mem_cons_self)).1 hstarts,
    fun c hc => hcontinues c (List.mem_cons_of_mem _ hc)⟩

end InvoiceXml.Xml
