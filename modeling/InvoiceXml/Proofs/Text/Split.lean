import InvoiceXml.Text.Split

/-!
# Cutting and joining texts

Pieces without the separator are what cutting gives back from their joined text
(`splitAtEach_joinWith`). A text is cut at its first separator wherever it has one
(`cutAtFirst_eq_none_iff`), and in one way only (`append_cons_inj`); so it is where a class of
characters ends (`append_inj_of_class`).
-/

namespace InvoiceXml.Text

variable {separator : Char}

/-! ### The first separator -/

theorem cutAtFirst_eq_none_iff {cs : List Char} : cutAtFirst separator cs = none ↔ separator ∉ cs := by
  induction cs with
  | nil => simp [cutAtFirst]
  | cons c cs ih =>
    rw [cutAtFirst, List.mem_cons, not_or]
    split
    · rename_i hc
      simp [hc]
    · rename_i hc
      rw [Option.map_eq_none_iff, ih]
      exact ⟨fun h => ⟨Ne.symm hc, h⟩, And.right⟩

/-- A text is cut at its first separator in one way. -/
theorem append_cons_inj {before after other rest : List Char} (hbefore : separator ∉ before)
    (hother : separator ∉ other) (h : before ++ separator :: after = other ++ separator :: rest) :
    before = other ∧ after = rest := by
  have hcut : cutAtFirst separator (before ++ separator :: after) = some (before, after) :=
    cutAtFirst_eq_some_iff.mpr ⟨rfl, hbefore⟩
  rw [h, cutAtFirst_eq_some_iff.mpr ⟨rfl, hother⟩] at hcut
  exact (Prod.mk.inj (Option.some.inj hcut)).imp Eq.symm Eq.symm

/-- Characters of a class up to the first that is none of it are cut off in one way. -/
theorem append_inj_of_class {inClass : Char → Bool} {first second rest others : List Char}
    (hfirst : ∀ c ∈ first, inClass c = true) (hsecond : ∀ c ∈ second, inClass c = true)
    (hrest : ∀ c ∈ rest.head?, inClass c = false) (hothers : ∀ c ∈ others.head?, inClass c = false)
    (h : first ++ rest = second ++ others) : first = second ∧ rest = others := by
  have hstop : ∀ tail : List Char, (∀ c ∈ tail.head?, inClass c = false) → tail.takeWhile inClass = [] := by
    intro tail htail
    cases tail with
    | nil => rfl
    | cons c tail => exact List.takeWhile_cons_of_neg (by simp [htail c rfl])
  have htaken := congrArg (List.takeWhile inClass) h
  rw [List.takeWhile_append_of_pos hfirst, List.takeWhile_append_of_pos hsecond, hstop rest hrest,
    hstop others hothers, List.append_nil, List.append_nil] at htaken
  exact ⟨htaken, List.append_cancel_left (htaken ▸ h)⟩

/-! ### All separators -/

theorem splitAtEach_of_notMem {piece : List Char} (h : separator ∉ piece) :
    splitAtEach separator piece = [piece] := by
  induction piece with
  | nil => rfl
  | cons c cs ih =>
    rw [List.mem_cons, not_or] at h
    rw [splitAtEach, ih h.2]
    exact if_neg (Ne.symm h.1)

theorem splitAtEach_append_cons {piece : List Char} (h : separator ∉ piece) (cs : List Char) :
    splitAtEach separator (piece ++ separator :: cs) = piece :: splitAtEach separator cs := by
  obtain ⟨first, rest, hsplit⟩ := List.exists_cons_of_ne_nil (splitAtEach_ne_nil separator cs)
  induction piece with
  | nil => simp [splitAtEach, hsplit]
  | cons c cs ih =>
    rw [List.mem_cons, not_or] at h
    rw [List.cons_append, splitAtEach, ih h.2]
    exact if_neg (Ne.symm h.1)

/-- **Cutting undoes joining** pieces that do not hold the separator. -/
theorem splitAtEach_joinWith {pieces : List (List Char)} (hne : pieces ≠ [])
    (h : ∀ piece ∈ pieces, separator ∉ piece) :
    splitAtEach separator (joinWith [separator] pieces) = pieces := by
  induction pieces with
  | nil => exact absurd rfl hne
  | cons piece rest ih =>
    rw [List.forall_mem_cons] at h
    cases rest with
    | nil => exact splitAtEach_of_notMem h.1
    | cons next rest =>
      rw [joinWith, List.append_assoc, List.singleton_append, splitAtEach_append_cons h.1, ih (by simp) h.2]

/-- A joined text is its first piece and the others, each after a separator. -/
theorem joinWith_cons (separator : List Char) (piece : List Char) (pieces : List (List Char)) :
    joinWith separator (piece :: pieces) = piece ++ pieces.flatMap (separator ++ ·) := by
  induction pieces generalizing piece with
  | nil => simp [joinWith]
  | cons next rest ih => rw [joinWith, ih, List.flatMap_cons]; simp

/-- The characters of the pieces stand in the joined text. -/
theorem subset_joinWith (separator : List Char) {piece : List Char} {pieces : List (List Char)}
    (h : piece ∈ pieces) :
    piece ⊆ joinWith separator pieces := by
  obtain ⟨first, rest, rfl⟩ := List.exists_cons_of_ne_nil (List.ne_nil_of_mem h)
  rw [joinWith_cons]
  rcases List.mem_cons.mp h with rfl | h
  · exact List.subset_append_left _ _
  · intro c hc
    exact List.mem_append_right _ (List.mem_flatMap.mpr ⟨piece, h, List.mem_append_right _ hc⟩)

end InvoiceXml.Text
