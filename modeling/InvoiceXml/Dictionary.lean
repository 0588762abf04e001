/-!
# Dictionaries

Values under names, ordered by name (by code points), each name once. The order is part of the type, so two
ways of filling a dictionary that give the same values under the same names give the same dictionary.
`find?_insert_self` and `find?_insert_of_ne` say what inserting does, `find?_erase_self` what erasing does.
-/

namespace InvoiceXml

/-- Values under names, in the order of the names. -/
structure Dictionary (α : Type) where
  entries : List (String × α) := []
  ordered : entries.Pairwise (fun a b => a.1 < b.1) := by simp

namespace Dictionary

variable {α : Type}

/-- Puts an entry in its place among ordered entries; it takes the place of one with its name. -/
def insertEntry (name : String) (value : α) : List (String × α) → List (String × α)
  | [] => [(name, value)]
  | (n, v) :: rest =>
    if name < n then (name, value) :: (n, v) :: rest
    else if name = n then (name, value) :: rest
    else (n, v) :: insertEntry name value rest

theorem mem_insertEntry {name : String} {value : α} {entries : List (String × α)} {entry : String × α}
    (h : entry ∈ insertEntry name value entries) : entry = (name, value) ∨ entry ∈ entries := by
  induction entries with
  | nil => simpa [insertEntry] using h
  | cons head rest ih =>
    obtain ⟨n, v⟩ := head
    simp only [insertEntry] at h
    split at h
    · rcases List.mem_cons.mp h with h | h
      · exact .inl h
      · exact .inr h
    · split at h
      · rcases List.mem_cons.mp h with h | h
        · exact .inl h
        · exact .inr (List.mem_cons_of_mem _ h)
      · rcases List.mem_cons.mp h with h | h
        · exact .inr (List.mem_cons.mpr (.inl h))
        · rcases ih h with h | h
          · exact .inl h
          · exact .inr (List.mem_cons_of_mem _ h)

theorem ordered_insertEntry (name : String) (value : α) {entries : List (String × α)}
    (h : entries.Pairwise fun a b => a.1 < b.1) :
    (insertEntry name value entries).Pairwise fun a b => a.1 < b.1 := by
  induction entries with
  | nil => simp [insertEntry]
  | cons head rest ih =>
    obtain ⟨n, v⟩ := head
    obtain ⟨hn, hrest⟩ := List.pairwise_cons.mp h
    simp only [insertEntry]
    split
    · next hlt =>
      refine List.pairwise_cons.mpr ⟨fun entry he => ?_, h⟩
      rcases List.mem_cons.mp he with rfl | he
      · exact hlt
      · exact String.lt_trans hlt (hn entry he)
    · next hlt =>
      split
      · next heq =>
        subst heq
        exact List.pairwise_cons.mpr ⟨hn, hrest⟩
      · next hne =>
        refine List.pairwise_cons.mpr ⟨fun entry he => ?_, ih hrest⟩
        rcases mem_insertEntry he with rfl | he
        · show n < name
          by_cases hn' : n < name
          · exact hn'
          · exact absurd (String.le_antisymm (String.not_lt.mp hn') (String.not_lt.mp hlt)) hne
        · exact hn entry he

/-- Puts a value under a name. -/
def insert (name : String) (value : α) (dictionary : Dictionary α) : Dictionary α :=
  ⟨insertEntry name value dictionary.entries, ordered_insertEntry name value dictionary.ordered⟩

/-- Takes the value under a name away. -/
def erase (name : String) (dictionary : Dictionary α) : Dictionary α :=
  ⟨dictionary.entries.filter fun entry => entry.1 ≠ name, dictionary.ordered.filter _⟩

/-- The value under a name. -/
def find? (name : String) (dictionary : Dictionary α) : Option α := dictionary.entries.lookup name

/-- Whether there is a value under a name. -/
def contains (name : String) (dictionary : Dictionary α) : Bool := (dictionary.find? name).isSome

/-- The names in order. -/
def names (dictionary : Dictionary α) : List String := dictionary.entries.map (·.1)

/-- How many names there are. -/
def size (dictionary : Dictionary α) : Nat := dictionary.entries.length

/-- Whether there is no name. -/
def isEmpty (dictionary : Dictionary α) : Bool := dictionary.entries.isEmpty

/-- The dictionary of a list of entries, of which later ones take the place of earlier ones. -/
def ofList (entries : List (String × α)) : Dictionary α :=
  entries.foldl (fun dictionary entry => dictionary.insert entry.1 entry.2) {}

theorem lookup_insertEntry_self (name : String) (value : α) (entries : List (String × α)) :
    (insertEntry name value entries).lookup name = some value := by
  induction entries with
  | nil => simp [insertEntry]
  | cons head rest ih =>
    obtain ⟨n, v⟩ := head
    simp only [insertEntry]
    split
    · simp
    · split
      · simp
      · next hne =>
        have : (name == n) = false := by simpa using hne
        simp [List.lookup_cons, this, ih]

theorem lookup_insertEntry_of_ne {name other : String} (h : other ≠ name) (value : α)
    (entries : List (String × α)) :
    (insertEntry name value entries).lookup other = entries.lookup other := by
  have hother : (other == name) = false := by simpa using h
  induction entries with
  | nil => simp [insertEntry, List.lookup_cons, hother]
  | cons head rest ih =>
    obtain ⟨n, v⟩ := head
    simp only [insertEntry]
    split
    · simp [List.lookup_cons, hother]
    · split
      · next heq =>
        subst heq
        simp [List.lookup_cons, hother]
      · simp only [List.lookup_cons, ih]

@[simp] theorem find?_insert_self (name : String) (value : α) (dictionary : Dictionary α) :
    (dictionary.insert name value).find? name = some value :=
  lookup_insertEntry_self name value dictionary.entries

theorem find?_insert_of_ne {name other : String} (h : other ≠ name) (value : α)
    (dictionary : Dictionary α) : (dictionary.insert name value).find? other = dictionary.find? other :=
  lookup_insertEntry_of_ne h value dictionary.entries

@[simp] theorem find?_erase_self (name : String) (dictionary : Dictionary α) :
    (dictionary.erase name).find? name = none := by
  simp only [find?, erase]
  rw [List.lookup_eq_none_iff]
  intro entry he
  have := (List.mem_filter.mp he).2
  simpa using Ne.symm (by simpa using this)

end Dictionary

end InvoiceXml
