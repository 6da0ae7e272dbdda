/-!
Finite maps from strings, kept as lists of entries in ascending key order. The order is part of the
type, so two maps with the same look-ups are equal.
-/

set_option autoImplicit false
set_option relaxedAutoImplicit false

namespace Repackage

/-- A finite map from strings with its entries in ascending key order. -/
structure Dict (α : Type) where
  entries : List (String × α)
  sorted : entries.Pairwise fun a b => a.1 < b.1

namespace Dict

variable {α : Type}

def empty : Dict α :=
  ⟨[], .nil⟩

def lookup (key : String) : List (String × α) → Option α
  | [] => none
  | (k, value) :: rest => if key = k then some value else lookup key rest

def find? (dict : Dict α) (key : String) : Option α :=
  lookup key dict.entries

def contains (dict : Dict α) (key : String) : Bool :=
  (dict.find? key).isSome

def keys (dict : Dict α) : List String :=
  dict.entries.map Prod.fst

def values (dict : Dict α) : List α :=
  dict.entries.map Prod.snd

def insertEntry (key : String) (value : α) : List (String × α) → List (String × α)
  | [] => [(key, value)]
  | (k, v) :: rest =>
    if key < k then (key, value) :: (k, v) :: rest
    else if key = k then (key, value) :: rest
    else (k, v) :: insertEntry key value rest

theorem mem_insertEntry {key : String} {value : α} {entries : List (String × α)}
    {entry : String × α} (member : entry ∈ insertEntry key value entries) :
    entry = (key, value) ∨ entry ∈ entries := by
  induction entries with
  | nil => simpa [insertEntry] using member
  | cons head rest ih =>
    obtain ⟨k, v⟩ := head
    simp only [insertEntry] at member
    split at member
    · simpa using member
    · split at member
      · rcases List.mem_cons.1 member with same | old
        · exact .inl same
        · exact .inr (List.mem_cons_of_mem _ old)
      · rcases List.mem_cons.1 member with same | deeper
        · exact .inr (same ▸ List.mem_cons_self)
        · exact (ih deeper).imp_right (List.mem_cons_of_mem _)

private theorem lt_of_not_lt_of_ne {a b : String} (notLess : ¬a < b) (different : a ≠ b) : b <
    a := by
  rcases String.le_total a b with le | le
  · exact absurd (String.le_antisymm le (String.not_lt.1 notLess)) different
  · exact String.not_le.1 fun other => different (String.le_antisymm other le)

private theorem sorted_insertEntry (key : String) (value : α) {entries : List (String × α)}
    (sorted : entries.Pairwise fun a b => a.1 < b.1) :
    (insertEntry key value entries).Pairwise fun a b => a.1 < b.1 := by
  induction entries with
  | nil => simp [insertEntry]
  | cons head rest ih =>
    obtain ⟨k, v⟩ := head
    obtain ⟨above, restSorted⟩ := List.pairwise_cons.1 sorted
    simp only [insertEntry]
    split
    · next less =>
      refine List.pairwise_cons.2 ⟨fun entry member => ?_, sorted⟩
      rcases List.mem_cons.1 member with same | deeper
      · exact same ▸ less
      · exact String.lt_trans less (above entry deeper)
    · next notLess =>
      split
      · next same => exact List.pairwise_cons.2 ⟨fun entry member => same ▸ above entry member,
          restSorted⟩
      · next different =>
        refine List.pairwise_cons.2 ⟨fun entry member => ?_, ih restSorted⟩
        rcases mem_insertEntry member with same | old
        · exact same ▸ lt_of_not_lt_of_ne notLess different
        · exact above entry old

def insert (dict : Dict α) (key : String) (value : α) : Dict α :=
  ⟨insertEntry key value dict.entries, sorted_insertEntry key value dict.sorted⟩

def insertNew (dict : Dict α) (key : String) (value : α) : Dict α :=
  if dict.contains key then dict else dict.insert key value

def erase (dict : Dict α) (key : String) : Dict α :=
  ⟨dict.entries.filter fun entry => entry.1 ≠ key, dict.sorted.filter _⟩

def ofList (entries : List (String × α)) : Dict α :=
  entries.foldl (fun dict entry => dict.insert entry.1 entry.2) empty

@[simp] theorem find?_empty (key : String) : (empty : Dict α).find? key = none := rfl

private theorem lookup_insertEntry (key : String) (value : α) (entries : List (String × α))
    (other : String) :
    lookup other (insertEntry key value entries) =
      if other = key then some value else lookup other entries := by
  induction entries with
  | nil => rfl
  | cons head rest ih =>
    obtain ⟨k, v⟩ := head
    simp only [insertEntry]
    split
    · rfl
    · split
      · next same =>
        subst same
        by_cases found : other = key <;> simp [lookup, found]
      · next different =>
        rw [lookup, ih, lookup]
        by_cases found : other = k
        · subst found
          simp [Ne.symm different]
        · simp [found]

private theorem lookup_erase (key : String) (entries : List (String × α)) (other : String) :
    lookup other (entries.filter fun entry => entry.1 ≠ key) =
      if other = key then none else lookup other entries := by
  induction entries with
  | nil => simp [lookup]
  | cons head rest ih =>
    obtain ⟨k, v⟩ := head
    by_cases erased : k = key
    · subst erased
      simp only [ne_eq, not_true_eq_false, decide_false, Bool.false_eq_true, not_false_eq_true,
        List.filter_cons_of_neg, lookup]
      rw [ih]
      by_cases found : other = k <;> simp [found]
    · rw [List.filter_cons_of_pos (by simpa using erased), lookup, lookup, ih]
      by_cases found : other = k
      · subst found
        simp [erased]
      · simp [found]

theorem find?_insert (dict : Dict α) (key : String) (value : α) (other : String) :
    (dict.insert key value).find? other = if other = key then some value else dict.find? other :=
  lookup_insertEntry key value dict.entries other

theorem find?_erase (dict : Dict α) (key other : String) :
    (dict.erase key).find? other = if other = key then none else dict.find? other :=
  lookup_erase key dict.entries other

end Dict

end Repackage
