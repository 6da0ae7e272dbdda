import Mathlib.Data.List.Nodup
import Mathlib.Data.List.Pairwise
import Repackage.Proofs.ImportPlan
import Repackage.Proofs.NameSearch

/-!
The local names of the imports that a plan adds. A name that is picked is not taken, so two added
imports have one name only where the later one keeps a name that the file spells already.
-/

set_option autoImplicit false
set_option relaxedAutoImplicit false

namespace Repackage.ImportPlan

private theorem eq_of_localName_specFor {path name bound : String}
    (binds : (specFor path name).localName = some bound) : bound = name := by
  simp only [specFor] at binds
  split_ifs at binds with conventional
  · rw [conventional]
    exact (Option.some.inj binds).symm
  · simp only [Import.localName] at binds
    split_ifs at binds
    exact (Option.some.inj binds).symm

private theorem nameFor_cases (taken : List String) (path : String) (need : Need) :
    need.fixed = true ∧ nameFor taken path need = need.name ∨
      need.fixed = false ∧ nameFor taken path need ∉ taken := by
  cases fixed : need.fixed with
  | true => exact .inl ⟨rfl, by simp [nameFor, fixed]⟩
  | false => exact .inr ⟨rfl, by simpa [nameFor, fixed] using pickName_not_mem need.name taken path⟩

/-- The imports that are added for needs in order, where some names are taken, whatever the packages
are bound to. -/
inductive Adds (existing : List Import) :
    List String → List (String × Need) → List Import → Prop where
  | done {taken : List String} : Adds existing taken [] []
  /-- The package is imported already. -/
  | reused {taken : List String} {path : String} {need : Need} {needs : List (String × Need)}
      {added : List Import} (imported : (existing.find? (·.path = path)).isSome)
      (rest : Adds existing taken needs added) : Adds existing taken ((path, need) :: needs) added
  /-- The package gets an import, and its name is taken from then on. -/
  | new {taken : List String} {path : String} {need : Need} {needs : List (String × Need)}
      {added : List Import} (missing : existing.find? (·.path = path) = none)
      (rest : Adds existing (nameFor taken path need :: taken) needs added) :
      Adds existing taken ((path, need) :: needs) (specFor path (nameFor taken path need) :: added)

theorem Plans.adds {existing added : List Import} {taken : List String}
    {needs : List (String × Need)} {bound : List (String × Binding)}
    (plans : Plans existing taken needs bound added) : Adds existing taken needs added := by
  induction plans with
  | done => exact .done
  | reused imported dictated rest ih => exact .reused (by rw [imported]; rfl) ih
  | new missing rest ih => exact .new missing ih

theorem exists_adds {existing : List Import} {plan final : ImportPlan} {taken : List String}
    {needs : List (String × Need)} (planned : planFrom existing plan taken needs = .ok final) :
    ∃ added, final.additions = plan.additions ++ added ∧ Adds existing taken needs added := by
  obtain ⟨bound, added, plans, -, additions⟩ := exists_plans planned
  exact ⟨added, additions, plans.adds⟩

section Added

variable {existing added : List Import} {taken : List String} {needs : List (String × Need)}

theorem path_specFor (path name : String) : (specFor path name).path = path := by
  rw [specFor]
  split_ifs <;> rfl

theorem Adds.exists_need (adds : Adds existing taken needs added) {spec : Import}
    (member : spec ∈ added) :
    ∃ need, (spec.path, need) ∈ needs ∧ ∀ name ∈ spec.localName,
      need.fixed = true ∧ name = need.name ∨ need.fixed = false ∧ name ∉ taken := by
  induction adds with
  | done => cases member
  | reused imported rest ih =>
    obtain ⟨need, listed, named⟩ := ih member
    exact ⟨need, List.mem_cons_of_mem _ listed, named⟩
  | @new taken path need needs added missing rest ih =>
    rcases List.mem_cons.1 member with rfl | later
    · refine ⟨need, by rw [path_specFor]; exact List.mem_cons_self, fun name bound => ?_⟩
      rw [eq_of_localName_specFor bound]
      exact nameFor_cases taken path need
    · obtain ⟨other, listed, named⟩ := ih later
      refine ⟨other, List.mem_cons_of_mem _ listed, fun name bound => ?_⟩
      exact (named name bound).imp_right fun free =>
        ⟨free.1, fun used => free.2 (List.mem_cons_of_mem _ used)⟩

theorem Adds.pairwise (adds : Adds existing taken needs added)
    (sorted : needs.Pairwise fun a b => a.1 < b.1) :
    added.Pairwise fun earlier later => earlier.path < later.path ∧
      ∀ name ∈ earlier.localName, name ∈ later.localName →
        ∃ need, (later.path, need) ∈ needs ∧ need.fixed = true := by
  induction adds with
  | done => exact .nil
  | reused imported rest ih =>
    refine (ih sorted.of_cons).imp fun {a b} apart => ⟨apart.1, fun name first second => ?_⟩
    obtain ⟨need, listed, fixed⟩ := apart.2 name first second
    exact ⟨need, List.mem_cons_of_mem _ listed, fixed⟩
  | @new taken path need needs added missing rest ih =>
    obtain ⟨above, sorted⟩ := List.pairwise_cons.1 sorted
    refine List.pairwise_cons.2 ⟨fun later member => ?_, ?_⟩
    · obtain ⟨other, listed, named⟩ := rest.exists_need member
      rw [path_specFor]
      refine ⟨above _ listed, fun name first second => ?_⟩
      obtain rfl := eq_of_localName_specFor first
      rcases named _ second with ⟨fixed, -⟩ | ⟨-, free⟩
      · exact ⟨other, List.mem_cons_of_mem _ listed, fixed⟩
      · exact absurd List.mem_cons_self free
    · refine (ih sorted).imp fun {a b} apart => ⟨apart.1, fun name first second => ?_⟩
      obtain ⟨other, listed, fixed⟩ := apart.2 name first second
      exact ⟨other, List.mem_cons_of_mem _ listed, fixed⟩

end Added

/-- Whether the need of a path is fixed. -/
def isFixed (needed : Dict Need) (path : String) : Bool :=
  (needed.find? path).any (·.fixed)

/-- The names of fixed needs differ from each other, from the declared names and from the local
names of the imports. -/
structure FixedApart (existing : List Import) (needed : Dict Need) (declared : List String) :
    Prop where
  distinct : needed.entries.Pairwise fun a b => a.2.fixed → b.2.fixed → a.2.name ≠ b.2.name
  undeclared : ∀ entry ∈ needed.entries, entry.2.fixed → entry.2.name ∉ declared
  unimported : ∀ entry ∈ needed.entries, entry.2.fixed →
    entry.2.name ∉ existing.filterMap Import.localName

private theorem FixedApart.name_ne {existing : List Import} {needed : Dict Need}
    {declared : List String}
    (apart : FixedApart existing needed declared) {path other : String} {need need' : Need}
    (listed : (path, need) ∈ needed.entries) (listed' : (other, need') ∈ needed.entries)
    (different : path ≠ other) (fixed : need.fixed) (fixed' : need'.fixed) :
    need.name ≠ need'.name := by
  have symmetric : Std.Symm fun a b : String × Need =>
      a.2.fixed → b.2.fixed → a.2.name ≠ b.2.name :=
    ⟨fun a b differ fixedB fixedA => (differ fixedA fixedB).symm⟩
  have entries : (path, need) ≠ (other, need') := fun same => different (congrArg Prod.fst same)
  exact apart.distinct.forall listed listed' entries fixed fixed'

/-- Where fixed needs have names of their own, no added import has a declared name or that of one of
the file's imports. The names of the added imports differ from each other exactly when none that is
chosen freely is that of a fixed need with a later path. -/
theorem added_names_distinct_iff {existing : List Import} {needed : Dict Need}
    {declared : List String} {plan : ImportPlan} (apart : FixedApart existing needed declared)
    (planned : make existing needed declared = .ok plan) :
    (∀ name ∈ plan.additions.filterMap Import.localName,
        name ∉ declared ∧ name ∉ existing.filterMap Import.localName) ∧
      ((plan.additions.filterMap Import.localName).Nodup ↔
        plan.additions.Pairwise fun earlier later =>
          isFixed needed earlier.path = false → isFixed needed later.path = true →
            ∀ name ∈ earlier.localName, name ∉ later.localName) := by
  obtain ⟨added, additions, adds⟩ := exists_adds planned
  obtain rfl : plan.additions = added := additions
  constructor
  · intro name member
    obtain ⟨spec, inside, bound⟩ := List.mem_filterMap.1 member
    obtain ⟨need, listed, named⟩ := adds.exists_need inside
    rcases named name bound with ⟨fixed, rfl⟩ | ⟨-, free⟩
    · exact ⟨apart.undeclared _ listed fixed, apart.unimported _ listed fixed⟩
    · rw [List.mem_append, not_or] at free
      exact free.symm
  · rw [List.Nodup, List.pairwise_filterMap]
    constructor
    · intro distinct
      exact distinct.imp fun {a b} differ _ _ name first second => differ name first name second rfl
    · intro yields
      have ordered := adds.pairwise needed.sorted
      refine ((List.pairwise_and_iff.2 ⟨yields, ordered⟩).imp_of_mem ?_)
      rintro a b inA inB ⟨free, below, later⟩ name first _ second rfl
      obtain ⟨needA, listedA, namedA⟩ := adds.exists_need inA
      obtain ⟨needB, listedB, namedB⟩ := adds.exists_need inB
      obtain ⟨need, listed, fixedB⟩ := later name first second
      obtain rfl : need = needB := by
        rw [Dict.mem_entries_iff] at listed listedB
        exact Option.some.inj (listed.symm.trans listedB)
      have nameB : name = need.name := by
        rcases namedB name second with ⟨-, same⟩ | ⟨freeB, -⟩
        · exact same
        · simp [fixedB] at freeB
      rcases namedA name first with ⟨fixedA, nameA⟩ | ⟨freeA, -⟩
      · have different : a.path ≠ b.path := fun same => String.lt_irrefl _ (same ▸ below)
        exact apart.name_ne listedA listedB different fixedA fixedB (nameA.symm.trans nameB)
      · rw [Dict.mem_entries_iff] at listedA listedB
        exact free (by simp [isFixed, listedA, freeA]) (by simp [isFixed, listedB, fixedB]) name
          first second

/-- The packages that a file needs: one that it only refers to, and one that it spells. -/
def jettyNeeds : Dict Need :=
  Dict.ofList [("m/cli/base", ⟨"base", false⟩), ("m/z/clibase", ⟨"clibase", true⟩)]

/-- In a file that declares `base`, the first package is imported under the name of the second. -/
theorem jetty_names_clash :
    FixedApart [] jettyNeeds ["base"] ∧ ∃ plan, make [] jettyNeeds ["base"] = .ok plan ∧
      plan.additions = [⟨some "clibase", "m/cli/base"⟩, ⟨none, "m/z/clibase"⟩] ∧
      ¬(plan.additions.filterMap Import.localName).Nodup := by
  have apart : FixedApart [] jettyNeeds ["base"] := ⟨by decide, by decide, by decide⟩
  have view : (make [] jettyNeeds ["base"]).toOption.map (·.additions) =
      some [⟨some "clibase", "m/cli/base"⟩, ⟨none, "m/z/clibase"⟩] := by
    decide +kernel
  obtain ⟨plan, planned, additions⟩ := exists_of_view view
  refine ⟨apart, plan, planned, additions, fun distinct => ?_⟩
  have yields := (added_names_distinct_iff apart planned).2.1 distinct
  rw [additions] at yields
  revert yields
  decide +kernel

end Repackage.ImportPlan
