import Mathlib.Tactic.SplitIfs
import Repackage.Import.Plan
import Repackage.Proofs.Dict

/-!
What an import plan does for each need: the first import of its path dictates the binding, or an
additional one is planned under a name of its own. A plan fails for the first path with a blank
first import; otherwise every package that is needed is bound, and bare exactly those that the file
imports with a dot.
-/

set_option autoImplicit false
set_option relaxedAutoImplicit false

namespace Repackage

/-- A computation of which a view is known has a result, and this is its view. -/
theorem exists_of_view {ε α β : Type} {outcome : Except ε α} {view : α → β} {seen : β}
    (known : outcome.toOption.map view = some seen) :
    ∃ result, outcome = .ok result ∧ view result = seen := by
  cases outcome with
  | error failure => cases known
  | ok result => exact ⟨result, rfl, Option.some.inj known⟩

namespace ImportPlan

def isDotted (existing : List Import) (path : String) : Bool :=
  (existing.find? (·.path = path)).any (·.name = some ".")

/-- Whether the first import of a path is a blank import. -/
def isBlank (existing : List Import) (path : String) : Bool :=
  (existing.find? (·.path = path)).any (·.name = some "_")

theorem isBlank_iff {existing : List Import} {path : String} :
    isBlank existing path ↔
      ∃ spec, existing.find? (·.path = path) = some spec ∧ spec.name = some "_" := by
  simp [isBlank, Option.any_eq_true]

/-- What an import makes of the need for its path. A blank import dictates no binding. -/
inductive Dictates (need : Need) : Import → Binding → Prop where
  | unnamed {path : String} : Dictates need ⟨none, path⟩ (.qualified need.name)
  | dotted {path : String} : Dictates need ⟨some ".", path⟩ .dot
  | aliased {name path : String} (dot : name ≠ ".") (blank : name ≠ "_") :
      Dictates need ⟨some name, path⟩ (.qualified name)

private theorem dictates_of_reuse {spec : Import} {need : Need} {binding : Binding}
    (reused : reuse spec need = some binding) : Dictates need spec binding := by
  obtain ⟨name, path⟩ := spec
  cases name with
  | none =>
    cases reused
    exact .unnamed
  | some name =>
    simp only [reuse] at reused
    split_ifs at reused with blank dot
    · cases reused
      exact dot ▸ .dotted
    · cases reused
      exact .aliased dot blank

private theorem reuse_eq_none_iff {spec : Import} {need : Need} :
    reuse spec need = none ↔ spec.name = some "_" := by
  rw [reuse]
  split
  next unnamed => simp [unnamed]
  next name named =>
    split_ifs with blank dot
    · simp [named, blank]
    · simp [named, dot]
    · simp [named, blank]

def nameFor (taken : List String) (path : String) (need : Need) : String :=
  if need.fixed then need.name else pickName path need.name taken

/-- The bindings and the imports that are planned for needs in order, where some names are taken. -/
inductive Plans (existing : List Import) :
    List String → List (String × Need) → List (String × Binding) → List Import → Prop where
  | done {taken : List String} : Plans existing taken [] [] []
  /-- The package is imported already, and its first import dictates the binding. -/
  | reused {taken : List String} {path : String} {need : Need} {spec : Import} {binding : Binding}
      {needs : List (String × Need)} {bound : List (String × Binding)} {added : List Import}
      (imported : existing.find? (·.path = path) = some spec)
      (dictated : Dictates need spec binding) (rest : Plans existing taken needs bound added) :
      Plans existing taken ((path, need) :: needs) ((path, binding) :: bound) added
  /-- The package gets an import, and its name is taken from then on. -/
  | new {taken : List String} {path : String} {need : Need} {needs : List (String × Need)}
      {bound : List (String × Binding)} {added : List Import}
      (missing : existing.find? (·.path = path) = none)
      (rest : Plans existing (nameFor taken path need :: taken) needs bound added) :
      Plans existing taken ((path, need) :: needs)
        ((path, .qualified (nameFor taken path need)) :: bound)
        (specFor path (nameFor taken path need) :: added)

section Planned

variable {existing : List Import} {taken : List String} {needs : List (String × Need)}
  {bound : List (String × Binding)} {added : List Import}

theorem exists_plans {plan final : ImportPlan}
    (planned : planFrom existing plan taken needs = .ok final) :
    ∃ bound added, Plans existing taken needs bound added ∧
      final.bindings =
        bound.foldl (fun bindings entry => bindings.insert entry.1 entry.2) plan.bindings ∧
      final.additions = plan.additions ++ added := by
  induction needs generalizing plan taken with
  | nil =>
    cases planned
    exact ⟨[], [], .done, rfl, (List.append_nil _).symm⟩
  | cons entry needs ih =>
    obtain ⟨path, need⟩ := entry
    rw [planFrom] at planned
    split at planned
    next spec imported =>
      split at planned
      · cases planned
      next binding reused =>
        obtain ⟨bound, added, plans, bindings, additions⟩ := ih planned
        exact ⟨_, added, .reused imported (dictates_of_reuse reused) plans, bindings, additions⟩
    next missing =>
      obtain ⟨bound, added, plans, bindings, additions⟩ := ih planned
      refine ⟨_, _, .new missing plans, bindings, ?_⟩
      rw [additions, List.append_assoc]
      rfl

theorem Plans.paths_bound (plans : Plans existing taken needs bound added) :
    bound.map Prod.fst = needs.map Prod.fst := by
  induction plans with
  | done => rfl
  | reused imported dictated rest ih => rw [List.map_cons, List.map_cons, ih]
  | new missing rest ih => rw [List.map_cons, List.map_cons, ih]

theorem Plans.binding_cases (plans : Plans existing taken needs bound added) {path : String}
    {binding : Binding} (member : (path, binding) ∈ bound) :
    ∃ need, (path, need) ∈ needs ∧
      ((∃ spec, existing.find? (·.path = path) = some spec ∧ Dictates need spec binding) ∨
        existing.find? (·.path = path) = none ∧
          ∃ names, binding = .qualified (nameFor names path need)) := by
  induction plans with
  | done => cases member
  | @reused taken other need spec dictate needs bound added imported dictated rest ih =>
    rcases List.mem_cons.1 member with same | later
    · cases same
      exact ⟨need, List.mem_cons_self, .inl ⟨spec, imported, dictated⟩⟩
    · obtain ⟨need, listed, cases⟩ := ih later
      exact ⟨need, List.mem_cons_of_mem _ listed, cases⟩
  | @new taken other need needs bound added missing rest ih =>
    rcases List.mem_cons.1 member with same | later
    · cases same
      exact ⟨need, List.mem_cons_self, .inr ⟨missing, taken, rfl⟩⟩
    · obtain ⟨need, listed, cases⟩ := ih later
      exact ⟨need, List.mem_cons_of_mem _ listed, cases⟩

end Planned

theorem plans_of_make {existing : List Import} {needed : Dict Need} {declared : List String}
    {plan : ImportPlan} (planned : make existing needed declared = .ok plan) :
    Plans existing (existing.filterMap Import.localName ++ declared) needed.entries
      plan.bindings.entries plan.additions := by
  obtain ⟨bound, added, plans, bindings, additions⟩ := exists_plans planned
  have sorted : bound.Pairwise fun a b => a.1 < b.1 := by
    rw [← List.pairwise_map, plans.paths_bound]
    exact needed.keys_sorted
  have entries : plan.bindings.entries = bound := by
    rw [bindings]
    exact Dict.entries_foldl_insert sorted
  rw [List.nil_append] at additions
  rwa [entries, additions]

/-- The failure of a plan that needs a package which is imported for its side effects only. -/
def blankConflict (path : String) : Failure :=
  .conflict ("\"" ++ path ++ "\" is imported for side effects only but its symbols are referenced")

theorem planFrom_eq_error_iff {existing : List Import} {plan : ImportPlan} {taken : List String}
    {needs : List (String × Need)} {failure : Failure} :
    planFrom existing plan taken needs = .error failure ↔
      ∃ entry, needs.find? (isBlank existing ·.1) = some entry ∧
        failure = blankConflict entry.1 := by
  induction needs generalizing plan taken with
  | nil => simp [planFrom]
  | cons entry needs ih =>
    obtain ⟨path, need⟩ := entry
    rw [planFrom, List.find?_cons]
    split
    next spec imported =>
      split
      next refused =>
        have blank : isBlank existing path := by
          simp [isBlank, imported, reuse_eq_none_iff.1 refused]
        simp [blank, blankConflict, eq_comm]
      next binding reused =>
        have named : spec.name ≠ some "_" := fun blank => by
          simp [reuse_eq_none_iff.2 blank] at reused
        have bound : isBlank existing path = false := by simp [isBlank, imported, named]
        simp only [bound]
        exact ih
    next missing =>
      have absent : isBlank existing path = false := by simp [isBlank, missing]
      simp only [absent]
      exact ih

theorem isSome_find?_of_make {existing : List Import} {needed : Dict Need} {declared : List String}
    {plan : ImportPlan} (planned : make existing needed declared = .ok plan) {path : String}
    (known : (needed.find? path).isSome) : (plan.bindings.find? path).isSome := by
  rw [← Dict.mem_keys_iff, Dict.keys] at known ⊢
  rwa [(plans_of_make planned).paths_bound]

theorem eq_dot_iff_of_make {existing : List Import} {needed : Dict Need} {declared : List String}
    {plan : ImportPlan} (planned : make existing needed declared = .ok plan) {path : String}
    {binding : Binding} (found : plan.bindings.find? path = some binding) :
    binding = .dot ↔ isDotted existing path := by
  obtain ⟨need, -, ⟨spec, imported, dictated⟩ | ⟨missing, names, rfl⟩⟩ :=
    (plans_of_make planned).binding_cases (Dict.mem_entries_iff.2 found)
  · cases dictated with
    | unnamed => simp [isDotted, imported]
    | dotted => simp [isDotted, imported]
    | aliased dot blank => simp [isDotted, imported, dot]
  · simp [isDotted, missing]

end ImportPlan

end Repackage
