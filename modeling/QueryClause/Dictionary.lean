/-!
# Dictionaries

A dictionary holds one value for each of its keys. Its entries are kept in
ascending order of their keys, so that equal contents are equal dictionaries.
-/

namespace QueryClause

/-- Values under text keys, in ascending order of the keys. -/
structure Dictionary (α : Type) where
  entries : List (String × α)
  ascending : entries.Pairwise fun first second => first.1 < second.1
  deriving DecidableEq

namespace Dictionary

variable {α : Type}

def empty : Dictionary α :=
  ⟨[], List.Pairwise.nil⟩

instance : Inhabited (Dictionary α) :=
  ⟨empty⟩

/-- Puts an entry at its place in ascending entries, in place of one with its key. -/
def insertEntry (key : String) (value : α) : List (String × α) → List (String × α)
  | [] => [(key, value)]
  | entry :: rest =>
      if key < entry.1 then (key, value) :: entry :: rest
      else if key = entry.1 then (key, value) :: rest
      else entry :: insertEntry key value rest

theorem mem_of_mem_insertEntry {key : String} {value : α} {entries : List (String × α)}
    {entry : String × α} (mem : entry ∈ insertEntry key value entries) :
    entry = (key, value) ∨ entry ∈ entries := by
  induction entries with
  | nil => simpa [insertEntry] using mem
  | cons first rest ih =>
      unfold insertEntry at mem
      split at mem
      · simpa using mem
      · split at mem
        · rcases List.mem_cons.mp mem with same | mem
          · exact Or.inl same
          · exact Or.inr (List.mem_cons_of_mem _ mem)
        · rcases List.mem_cons.mp mem with rfl | mem
          · exact Or.inr List.mem_cons_self
          · exact (ih mem).imp id (List.mem_cons_of_mem _)

theorem lt_of_not_lt_of_ne {first second : String} (notBefore : ¬first < second)
    (different : first ≠ second) : second < first :=
  Decidable.byContradiction fun notAfter =>
    different (String.le_antisymm (String.not_lt.mp notAfter) (String.not_lt.mp notBefore))

theorem ascending_insertEntry (key : String) (value : α) {entries : List (String × α)}
    (ascending : entries.Pairwise fun first second => first.1 < second.1) :
    (insertEntry key value entries).Pairwise fun first second => first.1 < second.1 := by
  induction entries with
  | nil => simp [insertEntry]
  | cons first rest ih =>
      obtain ⟨below, rest_ascending⟩ := List.pairwise_cons.mp ascending
      unfold insertEntry
      split
      · rename_i before
        refine List.pairwise_cons.mpr ⟨fun entry mem => ?_, ascending⟩
        rcases List.mem_cons.mp mem with rfl | mem
        · exact before
        · exact String.lt_trans before (below entry mem)
      · rename_i notBefore
        split
        · rename_i same
          refine List.pairwise_cons.mpr ⟨fun entry mem => ?_, rest_ascending⟩
          simpa [same] using below entry mem
        · rename_i different
          refine List.pairwise_cons.mpr ⟨fun entry mem => ?_, ih rest_ascending⟩
          rcases mem_of_mem_insertEntry mem with rfl | mem
          · exact lt_of_not_lt_of_ne notBefore different
          · exact below entry mem

def insert (dictionary : Dictionary α) (key : String) (value : α) : Dictionary α :=
  ⟨insertEntry key value dictionary.entries, ascending_insertEntry key value dictionary.ascending⟩

def get? (dictionary : Dictionary α) (key : String) : Option α :=
  dictionary.entries.lookup key

theorem lookup_insertEntry (key other : String) (value : α) (entries : List (String × α)) :
    (insertEntry key value entries).lookup other =
      if other = key then some value else entries.lookup other := by
  induction entries with
  | nil =>
      by_cases same : other = key
      · simp [insertEntry, same]
      · simp [insertEntry, same, List.lookup_cons, beq_false_of_ne same]
  | cons first rest ih =>
      obtain ⟨name, held⟩ := first
      unfold insertEntry
      split
      · by_cases same : other = key
        · simp [same]
        · simp [same, List.lookup_cons, beq_false_of_ne same]
      · split
        · rename_i replaced
          dsimp only at replaced
          subst replaced
          by_cases same : other = key
          · simp [same]
          · simp [same, List.lookup_cons, beq_false_of_ne same]
        · rename_i different
          by_cases here : other = name
          · have absent : name ≠ key := fun same => different same.symm
            simp [here, absent]
          · simp [List.lookup_cons, beq_false_of_ne here, ih]

/-- A key holds what was put under it last. -/
theorem get?_insert (dictionary : Dictionary α) (key other : String) (value : α) :
    (dictionary.insert key value).get? other =
      if other = key then some value else dictionary.get? other :=
  lookup_insertEntry key other value dictionary.entries

def contains (dictionary : Dictionary α) (key : String) : Bool :=
  (dictionary.get? key).isSome

def size (dictionary : Dictionary α) : Nat :=
  dictionary.entries.length

def isEmpty (dictionary : Dictionary α) : Bool :=
  dictionary.entries.isEmpty

/-- The dictionary of a list of entries, where a later entry replaces an earlier
one with its key. -/
def ofList (entries : List (String × α)) : Dictionary α :=
  entries.foldl (fun dictionary entry => dictionary.insert entry.1 entry.2) empty

end Dictionary

end QueryClause
