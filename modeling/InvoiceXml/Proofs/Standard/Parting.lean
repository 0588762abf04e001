import InvoiceXml.Proofs.Assembly.Order
import InvoiceXml.Proofs.Standard.Invoice
import InvoiceXml.Proofs.Standard.Ranking

/-!
# Where writes part

Two writes go the same way for some elements and then part. Where this can be follows from the
fields that they come from.

* `map_numbered_eq_of_enters`: if their paths start with elements of the same names, the writes part
  behind these or go to the same numbers;
* **`number_eq_of_enters`**: so writes of two items of an array part at the item, where only the
  number differs;
* **`not_separates`**: and writes of an allowance and a charge part there as well, since charges are
  numbered after allowances.
-/

namespace InvoiceXml

open Assembly (visits itemsOf itemData)
open Element (Enters)
open Standard
  (anchor groupsAround chargeName chargeStep lineName invoiceStep transactionStep settlementStep lineStep
  lineSettlementStep settlementAddress lineAddress lineSettlementAddress)

/-- A write goes the steps of its path. -/
theorem enters_of_prefix {bindings : Bindings} {stem steps : List Step} {step : Step}
    (h : stem ++ [step] <+: steps) :
    Enters step.name (stem.map (Step.numbered bindings)) (steps.map (Step.numbered bindings)) := by
  have hunder := h.map (Step.numbered bindings)
  rw [List.map_append] at hunder
  exact ⟨(step.numbered bindings).2, hunder⟩

/-- The names on the way of a write are those on its path. -/
theorem Visit.Wrote.prefix_of_enters {visit : Visit} {path : Path} {write : Write}
    (h : visit.Wrote path write) {name : String} {outer : List (String × Nat)}
    (henters : Enters name outer write.address) :
    outer.map Prod.fst ++ [name] <+: path.steps.map Step.name := by
  have hnames := henters.map_fst
  rw [h.address, List.map_map] at hnames
  exact hnames

/-- If two paths start with elements of the same names, and writes at them part in names, then they
part behind these elements, which have the same numbers in both. -/
theorem map_numbered_eq_of_enters {bindings others : Bindings} {steps further stem other : List Step}
    (hstem : stem <+: steps) (hother : other <+: further) (hnames : stem.map Step.name = other.map Step.name)
    {outer : List (String × Nat)} {name next : String}
    (henters : Enters name outer (steps.map (Step.numbered bindings)))
    (hnext : Enters next outer (further.map (Step.numbered others))) (hne : name ≠ next) :
    stem.map (Step.numbered bindings) = other.map (Step.numbered others) := by
  obtain ⟨number, hunder⟩ := henters
  obtain ⟨beyond, hbeyond⟩ := hnext
  have hstem := hstem.map (Step.numbered bindings)
  have hother := hother.map (Step.numbered others)
  have hlength : stem.length = other.length := by simpa using congrArg List.length hnames
  rcases Nat.lt_or_ge outer.length stem.length with hlt | hge
  · -- they would part inside, where the names are the same
    have hfirst := (List.prefix_of_prefix_length_le hunder hstem (by simp; omega)).map Prod.fst
    have hsecond := (List.prefix_of_prefix_length_le hbeyond hother (by simp; omega)).map Prod.fst
    have hnames :
        (stem.map (Step.numbered bindings)).map Prod.fst =
            (other.map (Step.numbered others)).map Prod.fst := by
      rw [List.map_map, List.map_map]
      exact hnames
    rw [hnames, List.map_append] at hfirst
    rw [List.map_append] at hsecond
    exact absurd (eq_of_prefix_append_singleton hfirst hsecond) hne
  · have hfirst :=
      List.prefix_of_prefix_length_le hstem ((List.prefix_append _ _).trans hunder) (by simpa using hge)
    have hsecond := List.prefix_of_prefix_length_le hother ((List.prefix_append _ _).trans hbeyond)
      (by simpa [← hlength] using hge)
    exact (List.prefix_of_prefix_length_le hfirst hsecond (by simp [hlength])).eq_of_length
      (by simp [hlength])

/-! ### Items -/

namespace Standard

def headerStep : Step := ⟨"rsm:ExchangedDocument", none⟩

/-- The elements around the items of a group, and the name of the element of an item. -/
def itemPlace : String → List Step × String
  | "notes" => ([invoiceStep, headerStep], "ram:IncludedNote")
  | "paymentMeans" =>
    ([invoiceStep, transactionStep, settlementStep], "ram:SpecifiedTradeSettlementPaymentMeans")
  | "taxes" => ([invoiceStep, transactionStep, settlementStep], "ram:ApplicableTradeTax")
  | "lines" => ([invoiceStep, transactionStep], lineName)
  | "lineAllowances" | "lineCharges" =>
    ([invoiceStep, transactionStep, lineStep, lineSettlementStep], chargeName)
  | _ => ([invoiceStep, transactionStep, settlementStep], chargeName)

/-- The steps to the element of an item of a group. -/
def itemSteps (group : String) : List Step :=
  (itemPlace group).1 ++ [⟨(itemPlace group).2, some (.group group)⟩]

end Standard

open Standard (itemSteps itemPlace)

/-- A field stands in the items of the groups around it: those of lines and charges because it
stands in these, and others because its path says so. -/
def Field.StandsInItems (names : List String) (field : Field) : Prop :=
  (∀ group ∈ groupsAround names, itemSteps group <+: anchor names) ∨
    ∀ xpath, field.xpath = some xpath → ∃ path, Path.read xpath = .ok path ∧
      ∀ group ∈ groupsAround names, itemSteps group <+: path.steps

/-- Whether a field stands in the items of the groups around it. -/
def Field.standsInItems (names : List String) (field : Field) : Bool :=
  (groupsAround names).all (fun group => (itemSteps group).isPrefixOf (anchor names)) ||
    field.xpath.all fun xpath => (Path.readAscii xpath).any fun path =>
      (groupsAround names).all fun group => (itemSteps group).isPrefixOf path.steps

/-- Whether a field is no array without a group. -/
def Field.isGrouped (field : Field) : Bool :=
  match field.type, field.group with
  | .objectArray, none => false
  | _, _ => true

theorem Field.of_standsInItems {names : List String} {field : Field} (h : field.standsInItems names = true) :
    field.StandsInItems names := by
  rw [standsInItems, Bool.or_eq_true] at h
  refine h.imp ?_ ?_
  · intro h group hgroup
    exact List.isPrefixOf_iff_prefix.mp (List.all_eq_true.mp h group hgroup)
  · intro h xpath hxpath
    rw [hxpath, Option.all_some, Option.any_eq_true] at h
    obtain ⟨path, hpath, h⟩ := h
    refine ⟨path, Path.read_of_readAscii hpath, fun group hgroup => ?_⟩
    exact List.isPrefixOf_iff_prefix.mp (List.all_eq_true.mp h group hgroup)

theorem Schema.keptByOverride_standsInItems : KeptByOverride Field.StandsInItems := by
  rintro names base layer shape hbase hlayer
  rcases hbase with hbase | hbase
  · exact .inl hbase
  · rcases hlayer with hlayer | hlayer
    · exact .inl hlayer
    · refine .inr fun xpath hxpath => ?_
      rcases Option.or_eq_some_iff.mp hxpath with h | ⟨-, h⟩
      · exact hlayer xpath h
      · exact hbase xpath h

namespace Level

theorem standsInItems_ownSchema (level : Level) :
    level.ownSchema.entries.all (fun entry => entry.field.standsInItems entry.names) = true := by
  cases level <;> decide +kernel

theorem fieldsHold_standsInItems (level : Level) :
    Schema.FieldsHold Field.StandsInItems [] level.profile.mergedSchema :=
  fieldsHold_of_all Schema.keptByOverride_standsInItems (fun _ _ => Field.of_standsInItems)
    standsInItems_ownSchema level

theorem isGrouped_mergedSchema (level : Level) :
    level.profile.mergedSchema.entries.all (·.field.isGrouped) = true := by
  cases level <;> decide +kernel

/-- Every array of a standard profile has a group. -/
theorem isSome_group_of_mem_entries (level : Level) : ∀ entry ∈ level.profile.mergedSchema.entries,
    entry.field.type = .objectArray → entry.field.group.isSome = true := by
  intro entry hentry htype
  have h := List.all_eq_true.mp (isGrouped_mergedSchema level) entry hentry
  rw [Field.isGrouped, htype] at h
  cases hgroup : entry.field.group with
  | none =>
    rw [hgroup] at h
    cases h
  | some group => rfl

end Level

/-- A write of a visit at the path of its field, which stands in the items of the groups around it. -/
structure Visit.Placed (visit : Visit) (path : Path) (write : Write) :
    Prop extends visit.Wrote path write where
  own : visit.field.ownPath? = some path
  items : ∀ group ∈ groupsAround visit.path.names, itemSteps group <+: path.steps

namespace Level

variable {level : Level} {composed : ComposedSchema}

/-- The writes of a visit are placed. -/
theorem exists_placed (hcompose : level.profile.compose = .ok composed) {data : Data} {visit : Visit}
    (hvisit : visit ∈ visits composed data) {writes : List Write} (hwrites : visit.writes? = some writes)
    {write : Write} (hwrite : write ∈ writes) : ∃ path, visit.Placed path write := by
  obtain ⟨entry, hentry, hof⟩ := Assembly.of_entry_of_mem_visits hvisit
  rw [Schema.schema_of_compose hcompose] at hentry
  obtain ⟨path, hown, hwrote⟩ :=
    (isStandard_of_mem_entries level entry hentry).exists_wrote hof hwrites hwrite
  have hitems := (Schema.fieldsHold_iff [] [] _).mp (fieldsHold_standsInItems level) entry hentry
  rw [← hof.field, ← hof.names] at hitems
  refine ⟨path, { toWrote := hwrote, own := hown, items := fun group hgroup => ?_ }⟩
  rcases hitems with hitems | hitems
  · have hanchor : anchor visit.path.names <+: path.steps := ⟨_, hwrote.stands.anchored.symm⟩
    exact (hitems group hgroup).trans hanchor
  · obtain ⟨xpath, hxpath, hread⟩ := Option.bind_eq_some_iff.mp hown
    obtain ⟨found, hfound, hsteps⟩ := hitems xpath hxpath
    obtain rfl : found = path := by simpa [hfound, Except.toOption] using hread
    exact hsteps group hgroup

end Level

namespace Visit.Placed

variable {visit later : Visit} {path way : Path} {write other : Write}

theorem mem_groupsAround (h : visit.Placed path write) {group : String} {number : Nat}
    (hmem : (group, number) ∈ visit.bindings) : group ∈ groupsAround visit.path.names := by
  have hbound : group ∈ visit.bindings.map (·.1) := List.mem_map_of_mem (f := (·.1)) hmem
  rwa [h.scope, List.mem_reverse] at hbound

/-- **Writes of two items of an array part at the item**, where they go to elements of one name. -/
theorem number_eq_of_enters (h : visit.Placed path write) (hlater : later.Placed way other)
    {group : String} {number further : Nat} (hmem : (group, number) ∈ visit.bindings)
    (hfurther : (group, further) ∈ later.bindings) {outer : List (String × Nat)}
    {name next : String} (henters : Enters name outer write.address)
    (hnext : Enters next outer other.address) (hne : name ≠ next) : number = further := by
  rw [h.address] at henters
  rw [hlater.address] at hnext
  have hitem := map_numbered_eq_of_enters (h.items group (h.mem_groupsAround hmem))
    (hlater.items group (hlater.mem_groupsAround hfurther)) rfl henters hnext hne
  rw [itemSteps, List.map_append, List.map_append] at hitem
  obtain ⟨-, hlast⟩ := List.append_inj' hitem rfl
  have hnumber := congrArg Prod.snd (List.singleton_inj.mp hlast)
  simpa [Step.numbered, h.lookup_of_mem hmem, hlater.lookup_of_mem hfurther] using hnumber

end Visit.Placed

/-! ### Allowances and charges -/

/-- Visits that write in one allowance or charge are of the same array. -/
theorem ChargePair.exists_names {composed : ComposedSchema} {data : Data} (pair : ChargePair composed data)
    {visit later : Visit} (hvisit : visit ∈ visits composed data) (hlater : later ∈ visits composed data)
    {path way : Path} {write other : Write} (hwrote : visit.Wrote path write) (hother : later.Wrote way other)
    {number : Nat} (hunder : pair.address ++ [(chargeName, number)] <+: write.address)
    (hbeyond : pair.address ++ [(chargeName, number)] <+: other.address) :
    ∃ parent member first second,
      visit.path.names = [parent, member, first] ∧ later.path.names = [parent, member, second] := by
  have hcovers : ∀ (family : ChargeFamily composed data) (i j : Nat),
      family.Covers i visit → family.Covers j later → ∃ parent member first second,
        visit.path.names = [parent, member, first] ∧ later.path.names = [parent, member, second] := by
    intro family i j hfirst hsecond
    obtain ⟨normal, first, field, -, -, rfl⟩ := hfirst
    obtain ⟨normal', second, field', -, -, rfl⟩ := hsecond
    exact ⟨family.parent, family.member, first, second, family.names_fieldVisit _ _ _ _ _,
      family.names_fieldVisit _ _ _ _ _⟩
  rcases pair.located visit hvisit path write hwrote number hunder with hfirst | ⟨i, hi, hfirst⟩ <;>
    rcases pair.located later hlater way other hother number hbeyond with hsecond | ⟨j, hj, hsecond⟩
  · exact hcovers _ _ _ hfirst hsecond
  · have hlt := pair.allowances.lt_of_covers hfirst
    omega
  · have hlt := pair.allowances.lt_of_covers hsecond
    omega
  · exact hcovers _ _ _ hfirst hsecond

namespace Level

variable {level : Level} {composed : ComposedSchema} {input normal : Data}

/-- The fields of allowances and charges stand in elements of the same names. -/
theorem map_name_anchor_of_separates {names other : List String} (h : level.separates names other = true) :
    (anchor names).map Step.name = (anchor other).map Step.name := by
  unfold separates at h
  split at h
  · rfl
  · rfl
  · cases h

/-- **Writes of an allowance and of a charge part at its element.** -/
theorem not_separates (hcompose : level.profile.compose = .ok composed)
    (hvalid : composed.schema.validate input = .ok normal) {visit later : Visit}
    (hvisit : visit ∈ visits composed normal) (hlater : later ∈ visits composed normal) {path way : Path}
    {write other : Write} (hwrote : visit.Wrote path write) (hother : later.Wrote way other)
    {outer : List (String × Nat)} {name next : String} (henters : Enters name outer write.address)
    (hnext : Enters next outer other.address) (hne : name ≠ next) :
    level.separates visit.path.names later.path.names = false := by
  by_contra hseparates
  rw [Bool.not_eq_false] at hseparates
  have hanchor : anchor visit.path.names <+: path.steps := ⟨_, hwrote.stands.anchored.symm⟩
  have hanchor' : anchor later.path.names <+: way.steps := ⟨_, hother.stands.anchored.symm⟩
  have hsame := map_numbered_eq_of_enters hanchor hanchor' (map_name_anchor_of_separates hseparates)
    (hwrote.address ▸ henters) (hother.address ▸ hnext) hne
  have hunder : (anchor visit.path.names).map (Step.numbered visit.bindings) <+: write.address := by
    rw [hwrote.address_eq]
    exact List.prefix_append _ _
  have hbeyond : (anchor visit.path.names).map (Step.numbered visit.bindings) <+: other.address := by
    rw [hsame, hother.address_eq]
    exact List.prefix_append _ _
  have hmember : ∀ (pair : ChargePair composed normal) (number : Nat),
      (anchor visit.path.names).map (Step.numbered visit.bindings) = pair.address ++ [(chargeName, number)] →
        ∃ parent member first second,
          visit.path.names = [parent, member, first] ∧ later.path.names = [parent, member, second] := by
    intro pair number haddress
    exact pair.exists_names hvisit hlater hwrote hother (haddress ▸ hunder) (haddress ▸ hbeyond)
  generalize hnames : visit.path.names = names at hseparates hmember hunder
  generalize hothers : later.path.names = others at hseparates hmember
  unfold separates at hseparates
  split at hseparates
  · obtain ⟨settlement, -⟩ := exists_invoiceSettlement hcompose (by simpa using hseparates) hvalid
    obtain ⟨pair, haddress, -⟩ := settlement.scope.exists_pair
    obtain ⟨parent, member, first, second, hfirst, hsecond⟩ := hmember pair _ (by rw [haddress]; rfl)
    simp only [List.cons.injEq] at hfirst hsecond
    exact absurd (hfirst.2.1.trans hsecond.2.1.symm) (by decide)
  · obtain ⟨hlevel, hlines⟩ : level ≠ minimum ∧ level ≠ basicWithoutLines := by simpa using hseparates
    obtain ⟨lines, -⟩ := exists_invoiceLines hcompose hlevel hlines hvalid
    -- the line that both stand in
    have hline : lineAddress ((visit.bindings.lookup "lines").getD 0) <+: write.address :=
      (List.prefix_append _ [_, _]).trans hunder
    obtain ⟨line, hline, -⟩ := lines.located visit hvisit path write hwrote _ hline
    obtain ⟨given, -, hgiven⟩ := exists_of_forall₂_getElem? lines.valid hline
    obtain ⟨pair, haddress, -⟩ := (lines.scope hline hgiven).exists_pair
    obtain ⟨parent, member, first, second, hfirst, hsecond⟩ := hmember pair _ (by rw [haddress]; rfl)
    simp only [List.cons.injEq] at hfirst hsecond
    exact absurd (hfirst.2.1.trans hsecond.2.1.symm) (by decide)
  · cases hseparates

end Level

end InvoiceXml
