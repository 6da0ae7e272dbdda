import Repackage.Proofs.Reports
import Repackage.Proofs.Schedule
import Repackage.Proofs.Stopping

/-!
What a report accounts for. A run ends in one of three ways: it only looks, it stops before any
write, or it commits what it has planned. Each way gives one report for every file that takes part,
and the reports of the others are added before the totals are taken.
-/

set_option autoImplicit false
set_option relaxedAutoImplicit false

namespace Repackage

namespace Summary

def settled (summary : Summary) : Nat :=
  summary.moved + summary.rewritten + summary.unchanged + summary.skipped + summary.conflicts +
    summary.failed

def problems (summary : Summary) : Nat :=
  summary.conflicts + summary.failed

private theorem settled_add (summary : Summary) (report : FileReport) :
    (summary.add report).settled = summary.settled + 1 := by
  cases outcome : report.outcome <;> simp only [add, settled, outcome] <;> omega

private theorem units_add (summary : Summary) (report : FileReport) :
    (summary.add report).units = summary.units + 1 := by
  cases outcome : report.outcome <;> simp only [add, outcome]

private theorem problems_add (summary : Summary) (report : FileReport) :
    (summary.add report).problems =
      summary.problems + if report.outcome.isProblem then 1 else 0 := by
  cases outcome : report.outcome <;>
    simp only [add, problems, outcome, Outcome.isProblem, if_true, Bool.false_eq_true, if_false] <;>
    omega

private theorem settled_tally (reports : List FileReport) : (tally reports).settled =
    reports.length := by
  have counted : ∀ start : Summary,
      (reports.foldl add start).settled = start.settled + reports.length := by
    induction reports with
    | nil => simp
    | cons report reports ih =>
      intro start
      rw [List.foldl_cons, ih, settled_add, List.length_cons]
      omega
  simpa [tally, settled] using counted {}

private theorem units_tally (reports : List FileReport) : (tally reports).units =
    reports.length := by
  have counted : ∀ start : Summary,
      (reports.foldl add start).units = start.units + reports.length := by
    induction reports with
    | nil => simp
    | cons report reports ih =>
      intro start
      rw [List.foldl_cons, ih, units_add, List.length_cons]
      omega
  simpa [tally] using counted {}

private theorem problems_tally (reports : List FileReport) :
    (tally reports).problems = reports.countP fun report => report.outcome.isProblem := by
  have counted : ∀ start : Summary, (reports.foldl add start).problems =
      start.problems + reports.countP fun report => report.outcome.isProblem := by
    induction reports with
    | nil => simp
    | cons report reports ih =>
      intro start
      rw [List.foldl_cons, ih, problems_add, List.countP_cons]
      omega
  simpa [tally, problems] using counted {}

end Summary

namespace Report

variable {reports : List FileReport} {dryRun failOnConflict aborted : Bool}

private theorem status_eq_partialFailure_iff :
    (build reports dryRun failOnConflict aborted).status = .partialFailure ↔
      failOnConflict = true ∧ ∃ unit ∈ reports, unit.outcome.isProblem = true := by
  have problem : 0 < (build reports dryRun failOnConflict aborted).summary.problems ↔
      ∃ unit ∈ reports, unit.outcome.isProblem = true := by
    change 0 < (Summary.tally _).problems ↔ _
    rw [Summary.problems_tally, List.countP_pos_iff]
    simp only [List.mem_mergeSort]
  rw [← problem]
  change statusOf (build reports dryRun failOnConflict aborted).summary _ failOnConflict = _ ↔ _
  unfold statusOf Summary.problems
  constructor
  · intro status
    dsimp only at status
    split at status
    next both => exact ⟨both.2, both.1⟩
    · split at status <;> cases status
  · rintro ⟨strict, positive⟩
    exact if_pos ⟨positive, strict⟩

end Report

namespace Run

variable {table : Table} {options : RunOptions} {tree : Memory}

private theorem isProblem_of_planned {plan : Planned} (member : .planned plan ∈ slotsOf table tree)
    : plan.report.outcome.isProblem = false := by
  rw [foretold_of_mem_slotsOf member, Planned.outcome]
  split
  · rfl
  · split <;> rfl

private theorem path_abandon (slot : Slot) : (abandon slot).path = slot.report.path := by
  cases slot <;> rfl

private theorem problem_of_aborted {slots : List Slot}
    (aborted : (commitAll options false tree slots).2.1 = true) :
    options.failOnConflict = true ∧
      ∃ report ∈ (commitAll options false tree slots).1, report.outcome.isProblem = true := by
  induction slots generalizing tree with
  | nil => cases aborted
  | cons slot slots ih =>
    cases turn : (commitSlot options false tree slot).2.1 with
    | false =>
      simp only [commitAll, turn] at aborted ⊢
      obtain ⟨strict, report, member, problem⟩ := ih aborted
      exact ⟨strict, report, List.mem_cons_of_mem _ member, problem⟩
    | true =>
      have failed : options.failOnConflict = true ∧
          (commitSlot options false tree slot).1.outcome.isProblem = true := by
        cases slot with
        | settled report => cases turn
        | planned plan =>
          simp only [commitSlot, Bool.false_eq_true, if_false] at turn ⊢
          generalize plan.file.commit tree plan.changed = committed at turn ⊢
          rcases committed with ⟨failure | committed, next⟩
          · exact ⟨turn, isProblem_outcomeOf failure (by decide)⟩
          · cases turn
      exact ⟨failed.1, _, List.mem_cons_self, failed.2⟩

private theorem run_reported (walked : tree.walk = .ok tree.paths) :
    ∃ reports dryRun aborted,
      (run table options tree).1 = .ok (Report.build (bystanders table tree.paths ++ reports)
        dryRun options.failOnConflict aborted) ∧
      reports.map (·.path) = (targets table tree.paths).map (·.path) ∧
      (aborted = true → options.failOnConflict = true ∧
        ∃ report ∈ reports, report.outcome.isProblem = true) := by
  by_cases dry : options.dryRun = true
  · refine ⟨(slotsOf table tree).map Slot.report, true, false, ?_, ?_, ?_⟩
    · simp only [run, Memory.tree_walk, walked, execute, dry, if_true]
      rfl
    · rw [List.map_map, ← paths_slotsOf]
      rfl
    · intro aborted
      cases aborted
  · by_cases stops : options.failOnConflict = true ∧
        (slotsOf table tree).any (·.report.outcome.isProblem) = true
    · refine ⟨(slotsOf table tree).map abandon, false, true, ?_, ?_, ?_⟩
      · simp only [run, Memory.tree_walk, walked, execute, dry, Bool.false_eq_true, if_false]
        unfold slotsOf at stops
        rw [if_pos stops, stops.1]
        rfl
      · rw [List.map_map, ← paths_slotsOf]
        exact List.map_congr_left fun slot _ => path_abandon slot
      · intro _
        obtain ⟨slot, member, problem⟩ := List.any_eq_true.mp stops.2
        refine ⟨stops.1, abandon slot, List.mem_map_of_mem member, ?_⟩
        cases slot with
        | settled report => exact problem
        | planned plan =>
          have quiet := isProblem_of_planned member
          rw [Slot.report, quiet] at problem
          cases problem
    · have goesOn : ¬Stops table options tree := by
        rintro (looks | ⟨strict, found⟩)
        · exact dry looks
        · exact stops ⟨strict, List.any_eq_true.mpr found⟩
      refine ⟨(carryOut options tree (slotsOf table tree)).1, false,
        (carryOut options tree (slotsOf table tree)).2.1, ?_, ?_, ?_⟩
      · rw [run_of_carriedOut walked goesOn]
      · exact paths_carryOut table options tree
      · exact problem_of_aborted

/-- The report of a run is complete. It lists the walked source files that are not excluded, each
once and in walking order; every one of them is counted under one outcome; and the run counts as a
partial failure exactly when it was to stop on conflicts and one of them met with a problem, which
is always so when it was aborted. -/
theorem report_is_complete {paths : List String} (walked : tree.walk = .ok paths) :
    ∃ report, (run table options tree).1 = .ok report ∧
      report.units.map (·.path) =
        paths.filter (fun path => Path.hasSuffix ".go" path && !table.isExcluded path) ∧
      (report.units.map (·.path)).Nodup ∧
      report.summary.units = report.units.length ∧
      report.summary.moved + report.summary.rewritten + report.summary.unchanged +
        report.summary.skipped + report.summary.conflicts + report.summary.failed =
          report.summary.units ∧
      (report.status = .partialFailure ↔ options.failOnConflict = true ∧
        ∃ unit ∈ report.units,
          (∃ detail, unit.outcome = .conflict detail) ∨
            ∃ stage reason, unit.outcome = .failed stage reason) ∧
      (report.aborted = true → report.status = .partialFailure) := by
  obtain rfl := Memory.walk_eq_ok walked
  obtain ⟨reports, dryRun, aborted, reported, listed, problem⟩ :=
    @run_reported table options tree walked
  have perm := Report.units_perm (bystanders table tree.paths ++ reports) dryRun
    options.failOnConflict aborted
  have distinct := distinct_paths table tree (List.Perm.of_eq listed)
  have status := @Report.status_eq_partialFailure_iff (bystanders table tree.paths ++ reports)
    dryRun options.failOnConflict aborted
  have isProblem (unit : FileReport) : unit.outcome.isProblem = true ↔
      (∃ detail, unit.outcome = .conflict detail) ∨
        ∃ stage reason, unit.outcome = .failed stage reason := by
    cases unit.outcome <;> simp [Outcome.isProblem]
  refine ⟨_, reported, ?_, ?_, Summary.units_tally _, ?_, ?_, ?_⟩
  · -- Both lists are sorted, and the reports are those of the walked units in some order.
    have sorted : ((Report.build (bystanders table tree.paths ++ reports) dryRun
        options.failOnConflict aborted).units.map (·.path)).Pairwise (· ≤ ·) :=
      List.pairwise_map.mpr (Report.units_sorted _ _ _ _)
    have walkOrder : (tree.paths.filter (isUnit table)).Pairwise (· ≤ ·) :=
      (tree.paths_sorted.filter _).imp fun less => String.not_lt.mp (String.lt_asymm less)
    have members : ((Report.build (bystanders table tree.paths ++ reports) dryRun
        options.failOnConflict aborted).units.map (·.path)).Perm
          (tree.paths.filter (isUnit table)) := by
      refine (perm.map _).trans ?_
      rw [List.map_append, listed]
      exact unit_paths_perm table tree.paths
    exact members.eq_of_pairwise (fun _ _ _ _ => String.le_antisymm) sorted walkOrder
  · exact ((perm.map _).nodup_iff).mpr distinct
  · exact (Summary.settled_tally _).trans (Summary.units_tally _).symm
  · rw [status]
    simp only [perm.mem_iff, isProblem]
  · intro stopped
    obtain ⟨strict, unit, member, found⟩ := problem stopped
    exact status.mpr ⟨strict, unit, List.mem_append_right _ member, found⟩

/-- A tree with a file that moves, one that stays, one that lies outside all packages and one that
is no source file. -/
def outskirtsTree : Memory :=
  .ofFiles [("a/x.go", "package a\n".toList), ("e/y.go", "package c\n".toList),
    ("z/notes.txt", "z".toList), ("z/q.go", "package z\n".toList)]

/-- The directory of the first file cannot be made, and a strict run reports all three. -/
theorem outskirts_accounted_for :
    let start := outskirtsTree.restart { createDirs := Dict.ofList [("d", "read only")] }
    start.walk = .ok ["a/x.go", "e/y.go", "z/notes.txt", "z/q.go"] ∧
      ∃ report, (run outpostTable strict start).1 = .ok report ∧
        report.units.map (·.path) = ["a/x.go", "e/y.go", "z/q.go"] ∧
        report.summary.moved + report.summary.rewritten + report.summary.unchanged +
          report.summary.skipped + report.summary.conflicts + report.summary.failed = 3 ∧
        (report.aborted = true → report.status = .partialFailure) := by
  intro start
  have walked : start.walk = .ok ["a/x.go", "e/y.go", "z/notes.txt", "z/q.go"] := by
    decide +kernel
  obtain ⟨report, reported, paths, -, units, total, -, stopped⟩ :=
    @report_is_complete outpostTable strict start _ walked
  have listed : report.units.map (·.path) = ["a/x.go", "e/y.go", "z/q.go"] := by
    rw [paths]
    decide +kernel
  have length : report.units.length = 3 := by
    rw [← List.length_map, listed]
    rfl
  exact ⟨walked, report, reported, listed, by rw [total, units, length], stopped⟩

end Run

end Repackage
