import InvoiceXml.Proofs.Ranking
import InvoiceXml.Proofs.Standard.Rendering
import InvoiceXml.Proofs.Text.Code

/-!
# The paths of the standard profiles

In the merged schema of a standard level every path goes on in the order of the paths before it,
with two exceptions. The fields of a charge are declared after those of an allowance, and have the
same places, but in elements of their own (`separates`). And the country of origin of a product is
declared after the agreement of the line, but goes back to the product (`returnsToProduct`).

* `isRanked_eq_true`: that is computed for each level, by the codes of names and the ranks along all
  paths;
* **`pairwise_comesBefore`**: so each field comes before those declared after it, but for the
  exceptions (`ComesBefore`).
-/

namespace InvoiceXml

open Ranking (ranks follows common)
open Text (withNat withNat_eq withEach withEach_eq)

namespace Standard

/-- The codes of the names on a path. -/
def codesOf (xpath : String) : List Nat :=
  match Path.readAscii xpath with
  | some path => path.steps.map fun step => Text.code step.name
  | none => []

theorem exists_of_codesOf {xpath : String} (h : codesOf xpath ≠ []) :
    ∃ path, Path.read xpath = .ok path ∧ codesOf xpath = (path.steps.map Step.name).map Text.code := by
  rw [codesOf] at h ⊢
  split at h
  · rename_i path hpath
    exact ⟨path, Path.read_of_readAscii hpath, by rw [List.map_map]; rfl⟩
  · exact absurd rfl h

end Standard

open Standard (codesOf exists_of_codesOf)

/-- The fields of a schema that have a path: the names of the field, and the codes of those on its path. -/
def Schema.codedPlacements (schema : Schema) : List (List String × List Nat) :=
  schema.entries.filterMap fun entry => entry.field.xpath.map fun xpath => (entry.names, codesOf xpath)

theorem Schema.codedPlacements_eq {schema : Schema}
    (h : ∀ codes ∈ schema.codedPlacements.map (·.2), codes ≠ []) :
    schema.codedPlacements = schema.placements.map (Prod.map id (List.map Text.code)) := by
  rw [codedPlacements, placements, List.map_filterMap]
  refine List.filterMap_congr fun entry hentry => ?_
  cases hxpath : entry.field.xpath with
  | none => simp [Field.ownPath?, hxpath]
  | some xpath =>
    have hcodes : codesOf xpath ≠ [] := by
      refine h _ (List.mem_map.mpr ⟨(entry.names, codesOf xpath), ?_, rfl⟩)
      exact List.mem_filterMap.mpr ⟨entry, hentry, by rw [hxpath]; rfl⟩
    obtain ⟨path, hread, hpath⟩ := exists_of_codesOf hcodes
    have hown : entry.field.ownPath? = some path := by
      rw [Field.ownPath?, hxpath, Option.bind_some, hread]
      rfl
    rw [hown, Option.map_some, Option.map_some, Option.map_some, hpath]
    rfl

namespace Level

/-- Whether the items of the first field never share an element with those of the second: allowances
and charges of the document, or of a line, where the level has them. -/
def separates (level : Level) : List String → List String → Bool
  | "settlement" :: "allowances" :: _, "settlement" :: "charges" :: _ => level != minimum
  | "lines" :: "allowances" :: _, "lines" :: "charges" :: _ => level != minimum && level != basicWithoutLines
  | _, _ => false

/-- Whether a field with the names goes back to the product of its line, from the line, which is so
many steps deep. -/
def returnsToProduct (level : Level) (names : List String) (depth : Nat) : Bool :=
  level == extended && names == ["lines", "originCountry"] && depth == 3

/-- Where the paths of two fields part, the second goes on to the name of higher rank, if it does
not return and their items can share an element. -/
def ComesBefore (level : Level) (field other : List String × List String) : Prop :=
  ∀ outer name next, outer ++ [name] <+: field.2 → outer ++ [next] <+: other.2 → name ≠ next →
    firstPass level.profile.ways (outer ++ [name]) < firstPass level.profile.ways (outer ++ [next]) ∨
      level.separates field.1 other.1 = true ∨ level.returnsToProduct other.1 outer.length = true

/-- Whether the ranks along the paths of two fields say that one comes before the other. -/
def comesBefore (level : Level) (field other : List String × List Nat) : Bool :=
  follows field.2 other.2 || level.separates field.1 other.1 ||
    level.returnsToProduct other.1 (common field.2 other.2)

/-- Whether each field comes before those declared after it. -/
def isRanked (level : Level) : Bool :=
  let placements := level.profile.mergedSchema.codedPlacements
  withEach (withEach withNat) (codesOf Standard.guideline :: placements.map (·.2)) fun ways =>
    ways.all (fun way => !way.isEmpty) &&
      withEach (withEach withNat) (ways.map (ranks (firstPass ways) [])) fun ranked =>
        decide (((placements.map (·.1)).zip ranked.tail).Pairwise fun field other =>
          level.comesBefore field other = true)

theorem isRanked_eq_true (level : Level) : level.isRanked = true := by
  cases level <;> decide +kernel

variable {level : Level}

/-- The paths of a level are that of the guideline and those of its fields. -/
theorem ways_profile (level : Level) :
    level.profile.ways =
      guidelineAddress.map Prod.fst :: level.profile.mergedSchema.placements.map (·.2) := by
  rw [Profile.ways_eq, leading_profile, List.map_singleton, List.filterMap_cons, read_guideline]
  rfl

theorem comesBefore_of_ranks {field other : List String × List String} (hway : field.2 ∈ level.profile.ways)
    (h : level.comesBefore (field.1, ranks (firstPass level.profile.ways) [] field.2)
      (other.1, ranks (firstPass level.profile.ways) [] other.2) = true) : level.ComesBefore field other := by
  intro outer name next hfield hother hne
  have hranks := firstPass_ne hway hfield hne
  rw [comesBefore, Bool.or_eq_true, Bool.or_eq_true] at h
  rcases h with (h | h) | h
  · exact .inl (Ranking.lt_of_follows hfield hother [] h hranks)
  · exact .inr (.inl h)
  · rw [Ranking.common_ranks hfield hother [] hranks] at h
    exact .inr (.inr h)

/-- **Each field comes before those declared after it.** -/
theorem pairwise_comesBefore (level : Level) :
    level.profile.mergedSchema.placements.Pairwise level.ComesBefore := by
  have h := isRanked_eq_true level
  simp only [isRanked, withEach_eq (withEach_eq withNat_eq), Bool.and_eq_true, decide_eq_true_eq] at h
  obtain ⟨hall, hpairs⟩ := h
  have hall : ∀ codes ∈ codesOf Standard.guideline :: level.profile.mergedSchema.codedPlacements.map (·.2),
      codes ≠ [] := by
    intro codes hcodes
    simpa using List.all_eq_true.mp hall codes hcodes
  obtain ⟨hguideline, hfields⟩ := List.forall_mem_cons.mp hall
  obtain ⟨path, hread, hpath⟩ := exists_of_codesOf hguideline
  obtain rfl := Except.ok.inj (hread.symm.trans read_guideline)
  have hcoded := Schema.codedPlacements_eq hfields
  -- the codes of all paths, and the ranks along them
  have hways : codesOf Standard.guideline :: level.profile.mergedSchema.codedPlacements.map (·.2) =
      level.profile.ways.map (List.map Text.code) := by
    rw [ways_profile, hpath, hcoded]
    simp [Function.comp_def]
  have hranks : ∀ way : List String,
      ranks (firstPass (level.profile.ways.map (List.map Text.code))) [] (way.map Text.code) =
        ranks (firstPass level.profile.ways) [] way :=
    fun way => Ranking.ranks_map (fun names => firstPass_map (fun _ _ => Text.code_injective) names) [] way
  simp only [List.map_cons, List.tail_cons] at hpairs
  rw [hways, hcoded, List.map_map, List.map_map, List.map_map, List.zip_map', List.pairwise_map] at hpairs
  refine hpairs.imp_of_mem fun {field other} hfield _ h => comesBefore_of_ranks ?_ ?_
  · rw [ways_profile]
    exact List.mem_cons_of_mem _ (List.mem_map_of_mem (f := (·.2)) hfield)
  · rw [← hranks, ← hranks]
    exact h

/-- Of two fields that have a path the one declared first comes before the other. -/
theorem comesBefore_of_sublist {entry other : Entry}
    (h : [entry, other].Sublist level.profile.mergedSchema.entries) {path way : Path}
    (hpath : entry.field.ownPath? = some path) (hway : other.field.ownPath? = some way) :
    level.ComesBefore (entry.names, path.steps.map Step.name) (other.names, way.steps.map Step.name) := by
  have hplacements := h.filterMap fun entry =>
    entry.field.ownPath?.map fun path => (entry.names, path.steps.map Step.name)
  rw [List.filterMap_cons_some (by rw [hpath]; rfl), List.filterMap_cons_some (by rw [hway]; rfl)]
    at hplacements
  exact List.rel_of_pairwise_cons ((pairwise_comesBefore level).sublist hplacements) List.mem_cons_self

end Level

end InvoiceXml
