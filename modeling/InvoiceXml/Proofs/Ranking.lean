import InvoiceXml.Proofs.Element.Order
import InvoiceXml.Proofs.Schema.Composition
import InvoiceXml.Rendering.Basic
import Mathlib.Data.List.Basic

/-!
# Ranking names by the paths of a profile

The paths of a profile pass through names of elements, each path after the one before
(`Profile.ways`). The rank of names, from the root on, is the position of the first path that passes
through them (`firstPass`). Two children of one element have different ranks, since a path has only
one of them next.

Along a way the ranks are a list of numbers (`ranks`), and two ways are compared by these lists at
the first difference.

* **`lt_of_follows`**: where the second list is greater there, the second way goes on to the name of
  higher rank;
* `common_ranks`: the difference is where the two ways part.
-/

namespace InvoiceXml

/-- The position of the first way that passes through the names. -/
def firstPass {α : Type} [DecidableEq α] (ways : List (List α)) (names : List α) : Nat :=
  ways.findIdx fun way => names.isPrefixOf way

/-- The names on the paths of a profile: on that of the context parameter first, and then on those
of the fields, in order of declaration. -/
def Profile.ways (profile : Profile) : List (List String) :=
  let xpaths := (Renderer.leading profile).map (·.1) ++ profile.mergedSchema.entries.filterMap (·.field.xpath)
  xpaths.filterMap fun xpath => (Path.read xpath).toOption.map fun path => path.steps.map Step.name

/-- The fields of a schema that have a path: the names of the field, and those on its path. -/
def Schema.placements (schema : Schema) : List (List String × List String) :=
  schema.entries.filterMap fun entry => entry.field.ownPath?.map fun path =>
    (entry.names, path.steps.map Step.name)

theorem Profile.ways_eq (profile : Profile) :
    profile.ways = ((Renderer.leading profile).map (·.1)).filterMap (fun xpath =>
      (Path.read xpath).toOption.map fun path => path.steps.map Step.name) ++
        profile.mergedSchema.placements.map (·.2) := by
  rw [ways, List.filterMap_append, List.filterMap_filterMap, Schema.placements, List.map_filterMap]
  refine congrArg _ (List.filterMap_congr fun entry _ => ?_)
  rw [Field.ownPath?, Option.map_map]
  cases entry.field.xpath <;> simp [Function.comp_def]

/-! ### First passes -/

section FirstPass

variable {α : Type} [DecidableEq α] {ways : List (List α)}

theorem firstPass_lt {names way : List α} (hway : way ∈ ways) (hpass : names <+: way) :
    firstPass ways names < ways.length :=
  List.findIdx_lt_length_of_exists ⟨way, hway, List.isPrefixOf_iff_prefix.mpr hpass⟩

/-- At the position of the first pass there is a way that passes. -/
theorem prefix_getElem_firstPass (names : List α) (hlt : firstPass ways names < ways.length) :
    names <+: ways[firstPass ways names] :=
  List.isPrefixOf_iff_prefix.mp (List.findIdx_getElem (w := hlt))

/-- Two children of one element have different ranks. -/
theorem firstPass_ne {outer way : List α} {name other : α} (hway : way ∈ ways)
    (hpass : outer ++ [name] <+: way) (hne : name ≠ other) :
    firstPass ways (outer ++ [name]) ≠ firstPass ways (outer ++ [other]) := by
  intro hsame
  have hlt := firstPass_lt hway hpass
  have hname := prefix_getElem_firstPass (outer ++ [name]) hlt
  have hother := prefix_getElem_firstPass (outer ++ [other]) (hsame ▸ hlt)
  simp only [← hsame] at hother
  exact hne (eq_of_prefix_append_singleton hname hother)

/-- The first way has the lowest rank. -/
theorem firstPass_eq_zero {names way : List α} (hpass : names <+: way) :
    firstPass (way :: ways) names = 0 := by
  rw [firstPass, List.findIdx_cons, List.isPrefixOf_iff_prefix.mpr hpass]
  rfl

/-- Names may be replaced by others, one by one. -/
theorem firstPass_map {β : Type} [DecidableEq β] {code : α → β} (hcode : Function.Injective code)
    (names : List α) :
    firstPass (ways.map (List.map code)) (names.map code) = firstPass ways names := by
  rw [firstPass, firstPass, List.findIdx_map]
  refine congrArg (List.findIdx · ways) (funext fun way => ?_)
  rw [Function.comp_apply, Bool.eq_iff_iff, List.isPrefixOf_iff_prefix, List.isPrefixOf_iff_prefix,
    List.prefix_map_iff_of_injective hcode]

end FirstPass

/-! ### Ranks along a way -/

namespace Ranking

variable {α : Type}

/-- The ranks of the names along a way, which starts below other names. -/
def ranks (rank : List α → Nat) : (outer : List α) → (way : List α) → List Nat
  | _, [] => []
  | outer, name :: rest => rank (outer ++ [name]) :: ranks rank (outer ++ [name]) rest

/-- Whether the second list is greater at the first difference, if there is one. -/
def follows : List Nat → List Nat → Bool
  | first :: rest, second :: others => if first = second then follows rest others else first < second
  | _, _ => true

/-- How long two lists are the same. -/
def common : List Nat → List Nat → Nat
  | first :: rest, second :: others => if first = second then common rest others + 1 else 0
  | _, _ => 0

/-- Names may be replaced by others, if that keeps the ranks. -/
theorem ranks_map {β : Type} {code : α → β} {rank : List α → Nat} {other : List β → Nat}
    (hrank : ∀ names, other (names.map code) = rank names) (outer way : List α) :
    ranks other (outer.map code) (way.map code) = ranks rank outer way := by
  induction way generalizing outer with
  | nil => rfl
  | cons name rest ih =>
    rw [List.map_cons, ranks, ranks, ← List.map_singleton, ← List.map_append, hrank, ih]

variable {rank : List α → Nat} {way other : List α} {name next : α}

/-- Where two ways part, the second goes on to the name of higher rank, if its ranks follow those of
the first. -/
theorem lt_of_follows {outer : List α} (hway : outer ++ [name] <+: way) (hother : outer ++ [next] <+: other) :
    ∀ (base : List α), follows (ranks rank base way) (ranks rank base other) = true →
      rank (base ++ outer ++ [name]) ≠ rank (base ++ outer ++ [next]) →
        rank (base ++ outer ++ [name]) < rank (base ++ outer ++ [next]) := by
  induction outer generalizing way other with
  | nil =>
    intro base h hne
    obtain ⟨rest, rfl⟩ := hway
    obtain ⟨others, rfl⟩ := hother
    rw [List.append_nil] at hne ⊢
    simpa [ranks, follows, hne] using h
  | cons head outer ih =>
    intro base h hne
    obtain ⟨rest, rfl⟩ := hway
    obtain ⟨others, rfl⟩ := hother
    have hassoc : base ++ head :: outer = base ++ [head] ++ outer := by simp
    rw [hassoc] at hne ⊢
    refine ih (List.prefix_append _ rest) (List.prefix_append _ others) (base ++ [head]) ?_ hne
    simpa [ranks, follows] using h

/-- Two ways have the same ranks as long as they have the same names. -/
theorem common_ranks {outer : List α} (hway : outer ++ [name] <+: way) (hother : outer ++ [next] <+: other) :
    ∀ (base : List α), rank (base ++ outer ++ [name]) ≠ rank (base ++ outer ++ [next]) →
      common (ranks rank base way) (ranks rank base other) = outer.length := by
  induction outer generalizing way other with
  | nil =>
    intro base hne
    obtain ⟨rest, rfl⟩ := hway
    obtain ⟨others, rfl⟩ := hother
    rw [List.append_nil] at hne
    simp [ranks, common, hne]
  | cons head outer ih =>
    intro base hne
    obtain ⟨rest, rfl⟩ := hway
    obtain ⟨others, rfl⟩ := hother
    have hassoc : base ++ head :: outer = base ++ [head] ++ outer := by simp
    rw [hassoc] at hne
    have hrest := ih (List.prefix_append (outer ++ [name]) rest) (List.prefix_append (outer ++ [next]) others)
      (base ++ [head]) hne
    simpa [ranks, common] using hrest

end Ranking

end InvoiceXml
