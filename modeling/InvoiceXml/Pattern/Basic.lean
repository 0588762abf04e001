/-!
# Patterns

A pattern denotes a set of texts: `Matches` says which. `accepts` decides it by taking, for each character
of the text, the pattern of what may follow it (`derive`), and asking at the end whether nothing may follow
(`nullable`). `accepts_iff` says that the two agree.
-/

namespace InvoiceXml

/-- A class of characters: those in one of the ranges, or those in none of them. -/
structure CharClass where
  excluded : Bool
  ranges : List (Char × Char)
deriving DecidableEq, Repr

namespace CharClass

/-- Whether a character is in the class. -/
def contains (cls : CharClass) (c : Char) : Bool :=
  cls.ranges.any (fun range => range.1 ≤ c && c ≤ range.2) != cls.excluded

end CharClass

/-- A pattern of texts. -/
inductive Pattern where
  | nothing
  | empty
  | one (cls : CharClass)
  | seq (first second : Pattern)
  | alt (left right : Pattern)
  | star (body : Pattern)
deriving DecidableEq, Repr

namespace Pattern

/-- The texts of a pattern. -/
inductive Matches : Pattern → List Char → Prop where
  | empty : Matches .empty []
  | one {cls c} : cls.contains c = true → Matches (.one cls) [c]
  | seq {p q s t} : Matches p s → Matches q t → Matches (.seq p q) (s ++ t)
  | altLeft {p q s} : Matches p s → Matches (.alt p q) s
  | altRight {p q s} : Matches q s → Matches (.alt p q) s
  | starNil {p} : Matches (.star p) []
  | starCons {p s t} : Matches p s → Matches (.star p) t → Matches (.star p) (s ++ t)

/-- A given character. -/
def char (c : Char) : Pattern := one ⟨false, [(c, c)]⟩

/-- Any character but the line feed. -/
def anyChar : Pattern := one ⟨true, [('\n', '\n')]⟩

/-- The pattern so many times in a row. -/
def times (p : Pattern) : Nat → Pattern
  | 0 => empty
  | n + 1 => seq p (times p n)

/-- The pattern at most so many times in a row. -/
def upTo (p : Pattern) : Nat → Pattern
  | 0 => empty
  | n + 1 => alt empty (seq p (upTo p n))

/-- Whether the empty text matches. -/
def nullable : Pattern → Bool
  | nothing => false
  | empty => true
  | one _ => false
  | seq p q => nullable p && nullable q
  | alt p q => nullable p || nullable q
  | star _ => true

/-- What may follow a first character. -/
def derive (c : Char) : Pattern → Pattern
  | nothing => nothing
  | empty => nothing
  | one cls => if cls.contains c then empty else nothing
  | seq p q => if nullable p then alt (seq (derive c p) q) (derive c q) else seq (derive c p) q
  | alt p q => alt (derive c p) (derive c q)
  | star p => seq (derive c p) (star p)

/-- Whether a text matches. -/
def accepts : Pattern → List Char → Bool
  | p, [] => nullable p
  | p, c :: cs => accepts (derive c p) cs

theorem nullable_iff (p : Pattern) : nullable p = true ↔ Matches p [] := by
  induction p with
  | nothing => exact ⟨fun h => by simp [nullable] at h, fun h => by cases h⟩
  | empty => exact ⟨fun _ => .empty, fun _ => rfl⟩
  | one cls => exact ⟨fun h => by simp [nullable] at h, fun h => by cases h⟩
  | seq p q ihp ihq =>
    simp only [nullable, Bool.and_eq_true, ihp, ihq]
    constructor
    · exact fun ⟨hp, hq⟩ => Matches.seq hp hq
    · intro h
      generalize hs : ([] : List Char) = s at h
      cases h with
      | seq hp hq =>
        obtain ⟨rfl, rfl⟩ := List.append_eq_nil_iff.mp hs.symm
        exact ⟨hp, hq⟩
  | alt p q ihp ihq =>
    simp only [nullable, Bool.or_eq_true, ihp, ihq]
    constructor
    · rintro (h | h)
      · exact .altLeft h
      · exact .altRight h
    · intro h
      cases h with
      | altLeft h => exact .inl h
      | altRight h => exact .inr h
  | star p _ => exact ⟨fun _ => .starNil, fun _ => rfl⟩

theorem matches_star_cons {p : Pattern} {c : Char} {cs : List Char} (h : Matches (.star p) (c :: cs)) :
    ∃ s t, cs = s ++ t ∧ Matches p (c :: s) ∧ Matches (.star p) t := by
  generalize hq : Pattern.star p = q at h
  generalize hs : c :: cs = s at h
  induction h with
  | empty | one | seq | altLeft | altRight => cases hq
  | starNil => cases hs
  | @starCons p' s t hp ht _ iht =>
    cases hq
    cases s with
    | nil => exact iht rfl hs
    | cons d s =>
      obtain ⟨rfl, rfl⟩ := List.cons.inj hs
      exact ⟨s, t, rfl, hp, ht⟩

/-- A text matches what may follow a character exactly when it matches with the character before it. -/
theorem matches_derive (c : Char) (p : Pattern) (cs : List Char) :
    Matches (derive c p) cs ↔ Matches p (c :: cs) := by
  induction p generalizing cs with
  | nothing => simp only [derive]; constructor <;> intro h <;> cases h
  | empty => simp only [derive]; constructor <;> intro h <;> cases h
  | one cls =>
    simp only [derive]
    split
    · next hc =>
      constructor
      · intro h
        cases h
        exact .one hc
      · intro h
        cases h
        exact .empty
    · next hc =>
      constructor
      · intro h
        cases h
      · intro h
        cases h with
        | one h => exact absurd h hc
  | seq p q ihp ihq =>
    have split_cons : Matches (.seq p q) (c :: cs) ↔
        (∃ s t, cs = s ++ t ∧ Matches p (c :: s) ∧ Matches q t) ∨
          (Matches p [] ∧ Matches q (c :: cs)) := by
      constructor
      · intro h
        generalize hs : c :: cs = u at h
        cases h with
        | @seq _ _ s t hp hq =>
          cases s with
          | nil => exact .inr ⟨hp, by simpa [hs] using hq⟩
          | cons d s =>
            obtain ⟨rfl, rfl⟩ := List.cons.inj hs
            exact .inl ⟨s, t, rfl, hp, hq⟩
      · rintro (⟨s, t, rfl, hp, hq⟩ | ⟨hp, hq⟩)
        · exact Matches.seq hp hq
        · exact Matches.seq hp hq
    have derive_first : Matches (.seq (derive c p) q) cs ↔
        ∃ s t, cs = s ++ t ∧ Matches p (c :: s) ∧ Matches q t := by
      constructor
      · intro h
        cases h with
        | @seq _ _ s t hp hq => exact ⟨s, t, rfl, (ihp s).mp hp, hq⟩
      · rintro ⟨s, t, rfl, hp, hq⟩
        exact Matches.seq ((ihp s).mpr hp) hq
    rw [split_cons]
    simp only [derive]
    split
    · next hn =>
      constructor
      · intro h
        cases h with
        | altLeft h => exact .inl (derive_first.mp h)
        | altRight h => exact .inr ⟨(nullable_iff p).mp hn, (ihq cs).mp h⟩
      · rintro (h | ⟨_, h⟩)
        · exact .altLeft (derive_first.mpr h)
        · exact .altRight ((ihq cs).mpr h)
    · next hn =>
      rw [derive_first]
      exact ⟨.inl, fun h => h.resolve_right fun ⟨h, _⟩ => hn ((nullable_iff p).mpr h)⟩
  | alt p q ihp ihq =>
    simp only [derive]
    constructor
    · intro h
      cases h with
      | altLeft h => exact .altLeft ((ihp cs).mp h)
      | altRight h => exact .altRight ((ihq cs).mp h)
    · intro h
      cases h with
      | altLeft h => exact .altLeft ((ihp cs).mpr h)
      | altRight h => exact .altRight ((ihq cs).mpr h)
  | star p ih =>
    simp only [derive]
    constructor
    · intro h
      cases h with
      | seq hp ht => exact Matches.starCons ((ih _).mp hp) ht
    · intro h
      obtain ⟨s, t, rfl, hp, ht⟩ := matches_star_cons h
      exact Matches.seq ((ih s).mpr hp) ht

theorem accepts_iff (p : Pattern) (cs : List Char) : accepts p cs = true ↔ Matches p cs := by
  induction cs generalizing p with
  | nil => exact nullable_iff p
  | cons c cs ih => rw [accepts, ih, matches_derive]

end Pattern

end InvoiceXml
