import Mathlib.Tactic.ByContra
import Mathlib.Tactic.SplitIfs
import Repackage.Dict

/-!
Finite maps are determined by their look-ups: the keys are strictly ascending, so two maps in which
every key has the same value have the same entries.
-/

set_option autoImplicit false
set_option relaxedAutoImplicit false

namespace Repackage.Dict

variable {α : Type}

private theorem lookup_isSome_iff (key : String) (entries : List (String × α)) :
    (lookup key entries).isSome ↔ key ∈ entries.map Prod.fst := by
  induction entries with
  | nil => simp [lookup]
  | cons head rest ih =>
    obtain ⟨k, v⟩ := head
    by_cases same : key = k
    · simp [lookup, same]
    · rw [lookup, if_neg same, ih]
      simp [same]

theorem mem_keys_iff {dict : Dict α} {key : String} :
    key ∈ dict.keys ↔ (dict.find? key).isSome :=
  (lookup_isSome_iff key dict.entries).symm

theorem mem_values_of_find? {dict : Dict α} {key : String} {value : α}
    (found : dict.find? key = some value) : value ∈ dict.values := by
  obtain ⟨entries, sorted⟩ := dict
  simp only [find?, values] at found ⊢
  clear sorted
  induction entries with
  | nil => cases found
  | cons entry entries ih =>
    rw [lookup] at found
    split at found
    · cases found
      exact List.mem_cons_self
    · exact List.mem_cons_of_mem _ (ih found)

theorem keys_sorted (dict : Dict α) : dict.keys.Pairwise (· < ·) :=
  List.pairwise_map.mpr dict.sorted

private theorem lookup_eq_none_of_below {key : String} {entries : List (String × α)}
    (below : ∀ entry ∈ entries, key < entry.1) : lookup key entries = none := by
  by_contra found
  have member : key ∈ entries.map Prod.fst :=
    (lookup_isSome_iff key entries).mp (Option.isSome_iff_ne_none.mpr found)
  obtain ⟨entry, entryMember, same⟩ := List.mem_map.mp member
  have less := below entry entryMember
  rw [same] at less
  exact String.lt_irrefl key less

private theorem head_le_of_lookup {key : String} {value : α} {head : String × α}
    {rest : List (String × α)} (sorted : (head :: rest).Pairwise fun a b => a.1 < b.1)
    (found : lookup key (head :: rest) = some value) : key = head.1 ∨ head.1 < key := by
  have member : key ∈ (head :: rest).map Prod.fst :=
    (lookup_isSome_iff key (head :: rest)).mp (by rw [found]; rfl)
  rcases List.mem_cons.mp member with same | deeper
  · exact .inl same
  · obtain ⟨entry, entryMember, rfl⟩ := List.mem_map.mp deeper
    exact .inr ((List.pairwise_cons.mp sorted).1 entry entryMember)

private theorem entries_eq_of_lookup {a b : List (String × α)}
    (sortedA : a.Pairwise fun x y => x.1 < y.1) (sortedB : b.Pairwise fun x y => x.1 < y.1)
    (same : ∀ key, lookup key a = lookup key b) : a = b := by
  induction a generalizing b with
  | nil =>
    cases b with
    | nil => rfl
    | cons head rest =>
      have absent := same head.1
      simp [lookup] at absent
  | cons x as ih =>
    cases b with
    | nil =>
      have absent := same x.1
      simp [lookup] at absent
    | cons y bs =>
      have foundX : lookup x.1 (x :: as) = some x.2 := by simp [lookup]
      have foundY : lookup y.1 (y :: bs) = some y.2 := by simp [lookup]
      have keys : x.1 = y.1 := by
        rcases head_le_of_lookup sortedB (same x.1 ▸ foundX) with equal | less
        · exact equal
        · rcases head_le_of_lookup sortedA ((same y.1).trans foundY) with equal | greater
          · exact equal.symm
          · exact absurd (String.lt_trans less greater) (String.lt_irrefl _)
      obtain ⟨aboveX, restX⟩ := List.pairwise_cons.mp sortedA
      obtain ⟨aboveY, restY⟩ := List.pairwise_cons.mp sortedB
      have heads : x = y := by
        have values : some x.2 = some y.2 := by
          rw [← foundX, ← foundY, same, keys]
        exact Prod.ext keys (Option.some.inj values)
      subst heads
      congr 1
      apply ih restX restY
      intro key
      by_cases first : key = x.1
      · subst first
        rw [lookup_eq_none_of_below aboveX, lookup_eq_none_of_below aboveY]
      · have tails := same key
        simpa [lookup, first] using tails

/-- The entries of a map are its look-ups. -/
theorem mem_entries_iff {dict : Dict α} {key : String} {value : α} :
    (key, value) ∈ dict.entries ↔ dict.find? key = some value := by
  obtain ⟨entries, sorted⟩ := dict
  simp only [find?]
  induction entries with
  | nil => simp [lookup]
  | cons head rest ih =>
    obtain ⟨above, rest⟩ := List.pairwise_cons.mp sorted
    rw [List.mem_cons, ih rest, lookup]
    split_ifs with same
    · have absent := lookup_eq_none_of_below above
      rw [same, absent]
      simp [Prod.ext_iff, eq_comm]
    · simp [Prod.ext_iff, same]

theorem ext_find? {a b : Dict α} (same : ∀ key, a.find? key = b.find? key) : a = b := by
  obtain ⟨as, sortedA⟩ := a
  obtain ⟨bs, sortedB⟩ := b
  have entries : as = bs := entries_eq_of_lookup sortedA sortedB same
  subst entries
  rfl

theorem mem_values_iff {dict : Dict α} {value : α} :
    value ∈ dict.values ↔ ∃ key, dict.find? key = some value := by
  constructor
  · intro member
    obtain ⟨⟨key, _⟩, entry, rfl⟩ := List.mem_map.1 member
    exact ⟨key, mem_entries_iff.1 entry⟩
  · rintro ⟨key, found⟩
    exact mem_values_of_find? found

private theorem find?_insertNew (dict : Dict α) (key : String) (value : α) (other : String) :
    (dict.insertNew key value).find? other =
      (dict.find? other).or (if other = key then some value else none) := by
  rw [insertNew]
  split_ifs with present same same
  · obtain ⟨old, found⟩ := Option.isSome_iff_exists.1 (by simpa [contains] using present)
    rw [same, found, Option.some_or]
  · rw [Option.or_none]
  · have absent : dict.find? key = none := by simpa [contains] using present
    rw [find?_insert, if_pos same, same, absent, Option.none_or]
  · rw [find?_insert, if_neg same, Option.or_none]

theorem find?_foldl_insertNew {β : Type} (key : β → String) (value : β → α)
    (entries : List β) (dict : Dict α) (name : String) :
    (entries.foldl (fun dict entry => dict.insertNew (key entry) (value entry)) dict).find? name =
      (dict.find? name).or ((entries.find? (key · = name)).map value) := by
  induction entries generalizing dict with
  | nil => simp
  | cons entry entries ih =>
    rw [List.foldl_cons, ih, find?_insertNew, Option.or_assoc]
    by_cases same : key entry = name
    · simp [same]
    · simp [same, Ne.symm same]

def mapValues {β : Type} (f : α → β) (dict : Dict α) : Dict β :=
  ⟨dict.entries.map fun entry => (entry.1, f entry.2), List.pairwise_map.2 dict.sorted⟩

private theorem lookup_map {β : Type} (f : α → β) (entries : List (String × α)) (key : String) :
    lookup key (entries.map fun entry => (entry.1, f entry.2)) = (lookup key entries).map f := by
  induction entries with
  | nil => rfl
  | cons entry entries ih =>
    rw [List.map_cons, lookup, lookup, ih]
    split_ifs <;> rfl

@[simp] theorem find?_mapValues {β : Type} (f : α → β) (dict : Dict α) (key : String) :
    (dict.mapValues f).find? key = (dict.find? key).map f :=
  lookup_map f dict.entries key

theorem contains_iff {dict : Dict α} {key : String} :
    dict.contains key = true ↔ dict.find? key ≠ none := by
  rw [contains, Option.isSome_iff_ne_none]

theorem erase_insert_of_absent {dict : Dict α} {key : String} (value : α)
    (absent : dict.find? key = none) : (dict.insert key value).erase key = dict := by
  apply ext_find?
  intro other
  rw [find?_erase, find?_insert]
  by_cases same : other = key
  · simp [same, absent]
  · simp [same]

private theorem insertEntry_of_above {key : String} {value : α} {entries : List (String × α)}
    (above : ∀ entry ∈ entries, entry.1 < key) :
    insertEntry key value entries = entries ++ [(key, value)] := by
  induction entries with
  | nil => rfl
  | cons head rest ih =>
    obtain ⟨first, above⟩ := List.forall_mem_cons.1 above
    have different : key ≠ head.1 := fun same => String.lt_irrefl key (same ▸ first)
    rw [insertEntry, if_neg (String.lt_asymm first), if_neg different, ih above, List.cons_append]

theorem entries_foldl_insert {entries : List (String × α)} {dict : Dict α}
    (sorted : (dict.entries ++ entries).Pairwise fun a b => a.1 < b.1) :
    (entries.foldl (fun dict entry => dict.insert entry.1 entry.2) dict).entries =
      dict.entries ++ entries := by
  induction entries generalizing dict with
  | nil => rw [List.foldl_nil, List.append_nil]
  | cons entry entries ih =>
    have above : ∀ old ∈ dict.entries, old.1 < entry.1 := fun old member =>
      (List.pairwise_append.1 sorted).2.2 old member entry List.mem_cons_self
    have set : (dict.insert entry.1 entry.2).entries = dict.entries ++ [entry] :=
      insertEntry_of_above above
    have moved : dict.entries ++ entry :: entries =
        (dict.insert entry.1 entry.2).entries ++ entries := by
      rw [set, List.append_assoc, List.singleton_append]
    rw [List.foldl_cons, ih (moved ▸ sorted), moved]

end Repackage.Dict
