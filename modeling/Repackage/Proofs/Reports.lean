import Mathlib.Data.List.Nodup
import Repackage.Proofs.Execution

/-!
The reports of a run. Each walked unit is reported once, under its own path, so the report of a run
does not depend on the order in which the reports of its files were made, and a path has one report
at most.
-/

set_option autoImplicit false
set_option relaxedAutoImplicit false

namespace Repackage

namespace Report

variable {reports others : List FileReport} {dryRun failOnConflict aborted : Bool}

theorem units_sorted (reports : List FileReport) (dryRun failOnConflict aborted : Bool) :
    (build reports dryRun failOnConflict aborted).units.Pairwise fun a b => a.path ≤ b.path := by
  have sorted := @List.pairwise_mergeSort FileReport (fun a b => decide (a.path ≤ b.path))
    (fun a b c first second => by
      simp only [decide_eq_true_eq] at first second ⊢
      exact String.le_trans first second)
    (fun a b => by
      simp only [Bool.or_eq_true, decide_eq_true_eq]
      exact String.le_total a.path b.path)
    reports
  exact sorted.imp fun ordered => decide_eq_true_eq.mp ordered

theorem units_perm (reports : List FileReport) (dryRun failOnConflict aborted : Bool) :
    (build reports dryRun failOnConflict aborted).units.Perm reports :=
  List.mergeSort_perm reports _

private theorem eq_of_path (distinct : (reports.map (·.path)).Nodup) {a b : FileReport}
    (first : a ∈ reports) (second : b ∈ reports) (same : a.path = b.path) : a = b :=
  List.inj_on_of_nodup_map distinct first second same

theorem build_eq_of_perm (perm : reports.Perm others) (distinct : (reports.map (·.path)).Nodup)
    (dryRun failOnConflict aborted : Bool) :
    build reports dryRun failOnConflict aborted = build others dryRun failOnConflict aborted := by
  have units : (build reports dryRun failOnConflict aborted).units =
      (build others dryRun failOnConflict aborted).units := by
    have listed := units_perm reports dryRun failOnConflict aborted
    have others_listed := units_perm others dryRun failOnConflict aborted
    have permuted := (listed.trans perm).trans others_listed.symm
    refine permuted.eq_of_pairwise ?_
      (units_sorted reports dryRun failOnConflict aborted)
      (units_sorted others dryRun failOnConflict aborted)
    intro a b first second ab ba
    refine eq_of_path distinct (listed.subset first) ?_ (String.le_antisymm ab ba)
    exact listed.subset (permuted.symm.subset second)
  simp only [build] at units ⊢
  rw [units]

theorem unit?_build (distinct : (reports.map (·.path)).Nodup) {unit : FileReport}
    (member : unit ∈ reports) :
    (build reports dryRun failOnConflict aborted).unit? unit.path = some unit := by
  have listed := units_perm reports dryRun failOnConflict aborted
  have present := listed.symm.subset member
  unfold unit?
  cases found : (build reports dryRun failOnConflict aborted).units.find?
      (fun other => decide (other.path = unit.path)) with
  | none =>
    have missed := List.find?_eq_none.mp found unit present
    simp at missed
  | some other =>
    have path : other.path = unit.path := by simpa using List.find?_some found
    have otherMember := listed.subset (List.mem_of_find?_eq_some found)
    rw [eq_of_path distinct otherMember member path]

end Report

namespace Run

private theorem path_of_bystander {table : Table} {path : String} {report : FileReport}
    (left : enlist table path = .inl report) : report.path = path := by
  unfold enlist at left
  split at left
  · cases left
    rfl
  · split at left
    · cases left
    · cases left
      rfl

private theorem path_of_target {table : Table} {path : String} {target : Target}
    (right : enlist table path = .inr target) (unit : isUnit table path = true) :
    target.path = path := by
  have found : participant? table path = some target := by simp [participant?, unit, right]
  exact participant?_path found

theorem unit_paths_perm (table : Table) (paths : List String) :
    ((bystanders table paths).map (·.path) ++ (targets table paths).map (·.path)).Perm
      (paths.filter (isUnit table)) := by
  have units : ∀ path ∈ paths.filter (isUnit table), isUnit table path = true :=
    fun path member => (List.mem_filter.mp member).2
  unfold bystanders targets
  generalize paths.filter (isUnit table) = listed at units
  induction listed with
  | nil => exact .nil
  | cons path listed ih =>
    have rest := ih fun other member => units other (List.mem_cons_of_mem _ member)
    cases part : enlist table path with
    | inl report =>
      simp only [List.map_cons, part, List.filterMap_cons, Sum.getLeft?_inl, Sum.getRight?_inl,
        List.cons_append, path_of_bystander part]
      exact rest.cons path
    | inr target =>
      simp only [List.map_cons, part, List.filterMap_cons, Sum.getLeft?_inr, Sum.getRight?_inr,
        path_of_target part (units path List.mem_cons_self)]
      exact List.perm_middle.trans (rest.cons path)

theorem distinct_paths (table : Table) (tree : Memory) {reports : List FileReport}
    (listed : (reports.map (·.path)).Perm ((targets table tree.paths).map (·.path))) :
    ((bystanders table tree.paths ++ reports).map (·.path)).Nodup := by
  rw [List.map_append]
  have units := (listed.append_left _).trans (unit_paths_perm table tree.paths)
  refine units.symm.nodup (List.Nodup.filter _ ?_)
  refine tree.paths_sorted.imp ?_
  rintro a b less rfl
  exact String.lt_irrefl a less

theorem paths_slotsOf (table : Table) (tree : Memory) :
    (slotsOf table tree).map (·.report.path) = (targets table tree.paths).map (·.path) := by
  rw [slotsOf, planAll_eq_map, List.map_map]
  exact List.map_congr_left fun target _ => path_slotOf table tree _ target

private theorem paths_commitAll (options : RunOptions) (aborted : Bool) (tree : Memory)
    (slots : List Slot) :
    (commitAll options aborted tree slots).1.map (·.path) = slots.map (·.report.path) := by
  induction slots generalizing aborted tree with
  | nil => rfl
  | cons slot slots ih =>
    simp only [commitAll, List.map_cons, path_commitSlot, ih]

theorem paths_carryOut (table : Table) (options : RunOptions) (tree : Memory) :
    (carryOut options tree (slotsOf table tree)).1.map (·.path) =
      (targets table tree.paths).map (·.path) := by
  rw [carryOut, paths_commitAll, ← paths_slotsOf, createDestinations, List.map_map]
  exact List.map_congr_left fun slot _ => path_strand _ slot

end Run

end Repackage
