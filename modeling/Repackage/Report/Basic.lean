import Repackage.Import.Basic
import Repackage.Relocate

/-!
The report of a run: what became of each file, in path order, and the totals.
-/

set_option autoImplicit false
set_option relaxedAutoImplicit false

namespace Repackage

/-- What became of a file. -/
inductive Outcome where
  | moved
  | rewritten
  | unchanged
  | skipped (reason : String)
  | conflict (detail : String)
  | failed (stage : Stage) (reason : String)
  deriving DecidableEq

namespace Outcome

def ambiguity : String := "parse ambiguity"

def unscannable (reason : String) : Outcome :=
  .skipped (ambiguity ++ ": " ++ reason)

def isChange : Outcome → Bool
  | .moved | .rewritten => true
  | _ => false

def isProblem : Outcome → Bool
  | .conflict _ | .failed _ _ => true
  | _ => false

def isUnscannable : Outcome → Bool
  | .skipped reason => ambiguity.toList.isPrefixOf reason.toList
  | _ => false

def label : Outcome → String
  | .moved => "moved"
  | .rewritten => "rewritten"
  | .unchanged => "unchanged"
  | .skipped _ => "skipped"
  | .conflict _ => "conflict"
  | .failed _ _ => "failed"

def describe : Outcome → String
  | .skipped reason => "skipped (" ++ reason ++ ")"
  | .conflict detail => "conflict: " ++ detail
  | .failed stage reason => "failed at " ++ stage.label ++ ": " ++ reason
  | outcome => outcome.label

end Outcome

/-- What became of one file. -/
structure FileReport where
  path : String
  destination : Option String := none
  outcome : Outcome
  packageChange : Option PackageChange := none
  qualified : Nat := 0
  renamed : Nat := 0
  importsAdded : List Import := []
  warnings : List String := []
  deriving DecidableEq

/-- The result of a run as a whole. -/
inductive RunStatus where
  | success
  | successWithWarnings
  | partialFailure
  deriving DecidableEq

/-- The totals of a run. -/
structure Summary where
  units : Nat := 0
  moved : Nat := 0
  rewritten : Nat := 0
  unchanged : Nat := 0
  skipped : Nat := 0
  /-- The skipped files that cannot be classified. -/
  unscannable : Nat := 0
  conflicts : Nat := 0
  failed : Nat := 0
  qualified : Nat := 0
  importsAdded : Nat := 0
  deriving DecidableEq

namespace Summary

def add (summary : Summary) (report : FileReport) : Summary :=
  let summary := { summary with
    units := summary.units + 1
    qualified := summary.qualified + report.qualified
    importsAdded := summary.importsAdded + report.importsAdded.length }
  match report.outcome with
  | .moved => { summary with moved := summary.moved + 1 }
  | .rewritten => { summary with rewritten := summary.rewritten + 1 }
  | .unchanged => { summary with unchanged := summary.unchanged + 1 }
  | .skipped _ => { summary with
      skipped := summary.skipped + 1
      unscannable := summary.unscannable + if report.outcome.isUnscannable then 1 else 0 }
  | .conflict _ => { summary with conflicts := summary.conflicts + 1 }
  | .failed _ _ => { summary with failed := summary.failed + 1 }

def tally (reports : List FileReport) : Summary :=
  reports.foldl add {}

def changes (summary : Summary) : Nat :=
  summary.moved + summary.rewritten

end Summary

/-- The report of a run. -/
structure Report where
  dryRun : Bool
  status : RunStatus
  /-- Whether the run was stopped by a conflict or failure. -/
  aborted : Bool
  summary : Summary
  /-- In path order. -/
  units : List FileReport
  deriving DecidableEq

namespace Report

def statusOf (summary : Summary) (units : List FileReport) (failOnConflict : Bool) : RunStatus :=
  let problems := summary.conflicts + summary.failed
  if problems > 0 ∧ failOnConflict then .partialFailure
  else if problems > 0 ∨ summary.unscannable > 0 ∨ units.any (!·.warnings.isEmpty) then
    .successWithWarnings
  else .success

def build (reports : List FileReport) (dryRun failOnConflict aborted : Bool) : Report :=
  let units := reports.mergeSort fun a b => a.path ≤ b.path
  let summary := Summary.tally units
  ⟨dryRun, statusOf summary units failOnConflict, aborted, summary, units⟩

def unit? (report : Report) (path : String) : Option FileReport :=
  report.units.find? (·.path = path)

end Report

end Repackage
