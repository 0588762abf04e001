import InvoiceXml.Proofs.Schema.Merge

/-!
# What a layer declares

The fields that a layer declares, at every depth, each with the field that it is declared over, if
there is one (`Schema.overlay`). The shapes of two fields are compared in turn; what is below a new
field is as new as the field.
-/

namespace InvoiceXml.Schema

mutual

/-- The fields in the shape of a layer of a field, each with the one that it is declared over. -/
def overlayBelow (base : Field) : Field → List (Option Field × Field)
  | { shape := none, .. } => []
  | { shape := some fields, .. } => overlay (base.shape.getD []) fields

/-- The fields that a layer declares, each with the one that it is declared over. -/
def overlay (base : Schema) : List (String × Field) → List (Option Field × Field)
  | [] => []
  | (name, field) :: rest =>
    (match base.find? name with
      | none => [(none, field)]
      | some old => (some old, field) :: overlayBelow old field) ++ overlay base rest

end

theorem overlayBelow_of_shape {field : Field} {fields : Schema} (h : field.shape = some fields)
    (base : Field) :
    overlayBelow base field = overlay (base.shape.getD []) fields := by
  cases field with
  | mk type required shape key group sibling xpath extras transform fallback =>
    obtain rfl : shape = some fields := h
    rfl

theorem overlayBelow_of_shape_none {field : Field} (h : field.shape = none) (base : Field) :
    overlayBelow base field = [] := by
  cases field with
  | mk type required shape key group sibling xpath extras transform fallback =>
    obtain rfl : shape = none := h
    rfl

/-- What a layer declares is what it declares under its names, and what is below the fields of both sides. -/
theorem mem_overlay {base : Schema} {layer : List (String × Field)} {pair : Option Field × Field} :
    pair ∈ overlay base layer ↔
      ∃ name field, (name, field) ∈ layer ∧
        (pair = (base.find? name, field) ∨
          ∃ old, base.find? name = some old ∧ pair ∈ overlayBelow old field) := by
  induction layer with
  | nil => simp [overlay]
  | cons head rest ih =>
    obtain ⟨name, field⟩ := head
    have hhead : pair ∈ (match base.find? name with
          | none => [(none, field)]
          | some old => (some old, field) :: overlayBelow old field) ↔
        pair = (base.find? name, field) ∨ ∃ old, base.find? name = some old ∧
            pair ∈ overlayBelow old field := by
      cases base.find? name <;> simp
    rw [overlay, List.mem_append, hhead, ih]
    constructor
    · rintro (h | ⟨other, found, hmem, h⟩)
      · exact ⟨name, field, List.mem_cons_self, h⟩
      · exact ⟨other, found, List.mem_cons_of_mem _ hmem, h⟩
    · rintro ⟨other, found, hmem, h⟩
      rcases List.mem_cons.mp hmem with heq | hmem
      · obtain ⟨rfl, rfl⟩ := Prod.mk.inj heq
        exact .inl h
      · exact .inr ⟨other, found, hmem, h⟩

variable {base layer : Schema} {name : String} {old field : Field}

/-- A field of both sides is declared over that of the schema. -/
theorem shared_mem_overlay (hmem : (name, field) ∈ layer) (hold : base.find? name = some old) :
    (some old, field) ∈ base.overlay layer :=
  mem_overlay.mpr ⟨name, field, hmem, .inl (hold ▸ rfl)⟩

/-- A field that only the layer declares is declared over none. -/
theorem new_mem_overlay (hmem : (name, field) ∈ layer) (hnew : base.find? name = none) :
    (none, field) ∈ base.overlay layer :=
  mem_overlay.mpr ⟨name, field, hmem, .inl (hnew ▸ rfl)⟩

/-- What is declared in the shape of a field of both sides is declared by the layer. -/
theorem below_mem_overlay (hmem : (name, field) ∈ layer) (hold : base.find? name = some old)
    {pair : Option Field × Field} (hpair : pair ∈ overlayBelow old field) : pair ∈ base.overlay layer :=
  mem_overlay.mpr ⟨name, field, hmem, .inr ⟨old, hold, hpair⟩⟩

end InvoiceXml.Schema
