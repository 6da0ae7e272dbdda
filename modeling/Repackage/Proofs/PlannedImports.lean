import Repackage.Proofs.ImportNames

/-!
Import plans are exact. A plan fails for a needed package that is imported for its side effects
only. Otherwise it binds the needed paths and no others, adds one import for each of them that is
missing, in the order of the paths, and binds these to the names that are chosen for them.
-/

set_option autoImplicit false
set_option relaxedAutoImplicit false

namespace Repackage

def Import.boundName (spec : Import) : String :=
  spec.name.getD (defaultName spec.path)

namespace ImportPlan

@[simp] theorem boundName_specFor (path name : String) : (specFor path name).boundName = name := by
  rw [specFor]
  split_ifs with conventional
  · exact conventional.symm
  · rfl

section Planned

variable {existing : List Import} {taken : List String} {needs : List (String × Need)}
  {bound : List (String × Binding)} {added : List Import}

private theorem Plans.paths_added (plans : Plans existing taken needs bound added) :
    added.map (·.path) =
      (needs.map Prod.fst).filter fun path => (existing.find? (·.path = path)).isNone := by
  induction plans with
  | done => rfl
  | reused imported dictated rest ih =>
    rw [List.map_cons, List.filter_cons_of_neg (by simp [imported]), ih]
  | new missing rest ih =>
    rw [List.map_cons, List.map_cons, List.filter_cons_of_pos (by simp [missing]), ih, path_specFor]

private theorem Plans.exists_choice (plans : Plans existing taken needs bound added)
    {before after : List Import} {spec : Import} (parts : added = before ++ spec :: after) :
    ∃ need names, (spec.path, need) ∈ needs ∧
      spec = specFor spec.path (nameFor names spec.path need) ∧
      (spec.path, .qualified (nameFor names spec.path need)) ∈ bound ∧
      taken ⊆ names ∧ ∀ earlier ∈ before, earlier.boundName ∈ names := by
  induction plans generalizing before with
  | done => simp at parts
  | reused imported dictated rest ih =>
    obtain ⟨need, names, listed, same, member, first, earlier⟩ := ih parts
    exact ⟨need, names, List.mem_cons_of_mem _ listed, same, List.mem_cons_of_mem _ member, first,
      earlier⟩
  | @new taken path need needs bound added missing rest ih =>
    cases before with
    | nil =>
      obtain ⟨rfl, rfl⟩ := List.cons.inj parts
      refine ⟨need, taken, ?_, ?_, ?_, List.Subset.refl taken, by simp⟩ <;> rw [path_specFor]
      · exact List.mem_cons_self
      · exact List.mem_cons_self
    | cons head before =>
      obtain ⟨rfl, behind⟩ := List.cons.inj parts
      obtain ⟨other, names, listed, same, member, first, earlier⟩ := ih behind
      obtain ⟨own, first⟩ := List.cons_subset.1 first
      refine ⟨other, names, List.mem_cons_of_mem _ listed, same, List.mem_cons_of_mem _ member,
        first, List.forall_mem_cons.2 ⟨?_, earlier⟩⟩
      rwa [boundName_specFor]

end Planned

/-- What a plan binds and adds for the imports of a file, the packages that it needs, and the names
that it declares. -/
structure IsExact (existing : List Import) (needed : Dict Need) (declared : List String)
    (plan : ImportPlan) : Prop where
  /-- The needed paths are bound, and no others. -/
  bound : plan.bindings.keys = needed.keys
  /-- The first import of a path dictates what the path is bound to. -/
  reused : ∀ path need spec, needed.find? path = some need →
    existing.find? (·.path = path) = some spec →
      ∃ binding, Dictates need spec binding ∧ plan.bindings.find? path = some binding
  /-- Each path that is not imported gets one import, in the order of the paths. -/
  added : plan.additions.map (·.path) =
    needed.keys.filter fun path => (existing.find? (·.path = path)).isNone
  /-- The path of an added import is bound to its name. This is the name that a fixed need spells;
  another need gets one that is neither declared nor that of an import, also of an earlier one. -/
  named : ∀ before spec after, plan.additions = before ++ spec :: after →
    ∃ need, needed.find? spec.path = some need ∧
      plan.bindings.find? spec.path = some (.qualified spec.boundName) ∧
      (need.fixed → spec.boundName = need.name) ∧
      (need.fixed = false → spec.boundName ∉ declared ∧
        spec.boundName ∉ existing.filterMap Import.localName ∧
        ∀ earlier ∈ before, spec.boundName ≠ earlier.boundName)

variable {existing : List Import} {needed : Dict Need} {declared : List String}

private theorem isExact_of_make {plan : ImportPlan}
    (planned : make existing needed declared = .ok plan) :
    plan.IsExact existing needed declared := by
  have plans := plans_of_make planned
  refine ⟨plans.paths_bound, fun path need spec known imported => ?_, plans.paths_added,
    fun before spec after parts => ?_⟩
  · obtain ⟨binding, found⟩ := Option.isSome_iff_exists.1
      (isSome_find?_of_make planned (by rw [known]; rfl))
    obtain ⟨other, listed, ⟨first, same, dictated⟩ | ⟨missing, -⟩⟩ :=
      plans.binding_cases (Dict.mem_entries_iff.2 found)
    · cases known.symm.trans (Dict.mem_entries_iff.1 listed)
      cases imported.symm.trans same
      exact ⟨binding, dictated, found⟩
    · cases imported.symm.trans missing
  · obtain ⟨need, names, listed, same, member, first, earlier⟩ := plans.exists_choice parts
    have name : spec.boundName = nameFor names spec.path need := by
      rw [same, boundName_specFor, path_specFor]
    rw [← name] at member
    refine ⟨need, Dict.mem_entries_iff.1 listed, Dict.mem_entries_iff.1 member, fun fixed => ?_,
      fun free => ?_⟩
    · rw [name, nameFor, if_pos fixed]
    · have untaken : spec.boundName ∉ names := by
        rw [name, nameFor, if_neg (by simp [free])]
        exact pickName_not_mem need.name names spec.path
      have unused : spec.boundName ∉ existing.filterMap Import.localName ++ declared := fun used =>
        untaken (first used)
      rw [List.mem_append, not_or] at unused
      exact ⟨unused.2, unused.1, fun other member same => untaken (same ▸ earlier other member)⟩

private theorem make_eq_error_iff {failure : Failure} :
    make existing needed declared = .error failure ↔
      ∃ path, needed.keys.find? (isBlank existing) = some path ∧ failure = blankConflict path := by
  rw [make, planFrom_eq_error_iff, Dict.keys, List.find?_map]
  constructor
  · rintro ⟨entry, found, rfl⟩
    exact ⟨entry.1, congrArg (Option.map Prod.fst) found, rfl⟩
  · rintro ⟨path, first, rfl⟩
    obtain ⟨entry, found, rfl⟩ := Option.map_eq_some_iff.1 first
    exact ⟨entry, found, rfl⟩

/-- A plan fails with a conflict exactly when the first import of some needed path is blank, and the
conflict names the first such path. Every plan that is made is exact. -/
theorem planned_exactly (existing : List Import) (needed : Dict Need) (declared : List String) :
    ((∃ detail, make existing needed declared = .error (.conflict detail)) ↔
        ∃ path ∈ needed.keys, isBlank existing path) ∧
      (∀ failure, make existing needed declared = .error failure ↔
        ∃ path, needed.keys.find? (isBlank existing) = some path ∧
          failure = blankConflict path) ∧
      ∀ plan, make existing needed declared = .ok plan → plan.IsExact existing needed declared := by
  refine ⟨⟨?_, ?_⟩, fun failure => make_eq_error_iff, fun plan => isExact_of_make⟩
  · rintro ⟨detail, failed⟩
    obtain ⟨path, found, -⟩ := make_eq_error_iff.1 failed
    exact ⟨path, List.mem_of_find?_eq_some found, List.find?_some found⟩
  · rintro ⟨path, member, blank⟩
    obtain ⟨first, found⟩ := Option.isSome_iff_exists.1 (List.find?_isSome.2 ⟨path, member, blank⟩)
    exact ⟨_, make_eq_error_iff.2 ⟨first, found, rfl⟩⟩

-- A package that is imported with a dot needs no import, and `base` is declared already.
example : (make [⟨some ".", "m/a"⟩, ⟨none, "m/b"⟩]
    (Dict.ofList [("m/c/base", ⟨"base", false⟩), ("m/a", ⟨"a", false⟩)]) ["base"]).toOption.map
      (fun plan => (plan.bindings.entries, plan.additions)) =
    some ([("m/a", .dot), ("m/c/base", .qualified "cbase")], [⟨some "cbase", "m/c/base"⟩]) := by
  decide +kernel

end ImportPlan

end Repackage
