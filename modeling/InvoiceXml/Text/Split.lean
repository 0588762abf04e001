/-!
# Cutting texts at a separator

`splitAtEach` cuts a text at every occurrence of a separator, `cutAtFirst` at its first. Joining the pieces
with the separator gives the text back (`joinWith_splitAtEach`, `cutAtFirst_eq_some_iff`), so nothing is
lost by cutting.
-/

namespace InvoiceXml.Text

/-- The pieces between the separators; a text without one is a single piece. -/
def splitAtEach (separator : Char) : List Char → List (List Char)
  | [] => [[]]
  | c :: cs =>
    match splitAtEach separator cs with
    | [] => [[c]]
    | piece :: pieces => if c = separator then [] :: piece :: pieces else (c :: piece) :: pieces

/-- The pieces with the separator between each two. -/
def joinWith (separator : List Char) : List (List Char) → List Char
  | [] => []
  | [piece] => piece
  | piece :: next :: pieces => piece ++ separator ++ joinWith separator (next :: pieces)

/-- The part before the first separator and the part after it. -/
def cutAtFirst (separator : Char) : List Char → Option (List Char × List Char)
  | [] => none
  | c :: cs =>
    if c = separator then some ([], cs)
    else (cutAtFirst separator cs).map fun parts => (c :: parts.1, parts.2)

/-- The pieces of a string between the separators. -/
def pieces (separator : Char) (s : String) : List String :=
  (splitAtEach separator s.toList).map String.ofList

/-- The strings with a separator between each two. -/
def joined (separator : String) (parts : List String) : String :=
  String.ofList (joinWith separator.toList (parts.map String.toList))

theorem splitAtEach_ne_nil (separator : Char) (cs : List Char) : splitAtEach separator cs ≠ [] := by
  cases cs with
  | nil => simp [splitAtEach]
  | cons c cs =>
    simp only [splitAtEach]
    split
    · simp
    · split <;> simp

theorem joinWith_splitAtEach (separator : Char) (cs : List Char) :
    joinWith [separator] (splitAtEach separator cs) = cs := by
  induction cs with
  | nil => rfl
  | cons c cs ih =>
    simp only [splitAtEach]
    split
    · next h => exact absurd h (splitAtEach_ne_nil separator cs)
    · next piece pieces h =>
      rw [h] at ih
      by_cases hc : c = separator
      · simp [hc, joinWith, ih]
      · cases pieces <;> simp_all [joinWith]

theorem cutAtFirst_eq_some_iff {separator : Char} {cs before after : List Char} :
    cutAtFirst separator cs = some (before, after) ↔
      cs = before ++ separator :: after ∧ separator ∉ before := by
  induction cs generalizing before with
  | nil => simp [cutAtFirst]
  | cons c cs ih =>
    by_cases hc : c = separator
    · subst hc
      cases before with
      | nil => simp [cutAtFirst]
      | cons d ds =>
        simp only [cutAtFirst, if_true, Option.some.injEq, Prod.mk.injEq, List.cons_append,
          List.cons.injEq, List.mem_cons, not_or]
        constructor
        · simp
        · rintro ⟨⟨rfl, -⟩, hne, -⟩
          exact absurd rfl hne
    · cases before with
      | nil =>
        simp only [cutAtFirst, if_neg hc, Option.map_eq_some_iff, Prod.mk.injEq, List.nil_append,
          List.cons.injEq]
        constructor
        · rintro ⟨_, _, h, _⟩
          simp at h
        · rintro ⟨⟨rfl, -⟩, -⟩
          exact absurd rfl hc
      | cons d ds =>
        simp only [cutAtFirst, if_neg hc, Option.map_eq_some_iff, Prod.mk.injEq, List.cons.injEq,
          Prod.exists, List.cons_append, List.mem_cons, not_or]
        constructor
        · rintro ⟨x, y, hxy, ⟨rfl, rfl⟩, rfl⟩
          obtain ⟨rfl, hx⟩ := ih.mp hxy
          exact ⟨⟨rfl, rfl⟩, fun heq => hc heq.symm, hx⟩
        · rintro ⟨⟨rfl, rfl⟩, -, hds⟩
          exact ⟨ds, after, ih.mpr ⟨rfl, hds⟩, ⟨rfl, rfl⟩, rfl⟩

example : pieces '/' "a//b" = ["a", "", "b"] := by decide
example : joined ", " ["a", "b"] = "a, b" := by decide

end InvoiceXml.Text
