import Repackage.Data.Basic
import Repackage.Report.Basic

/-!
Reports as data documents and as text for people.
-/

set_option autoImplicit false
set_option relaxedAutoImplicit false

namespace Repackage

def Import.toData (spec : Import) : Data :=
  .object [("alias", Data.orNull .string spec.name), ("path", .string spec.path)]

def Outcome.toData (outcome : Outcome) : Data :=
  let kind : String × Data := ("kind", .string outcome.label)
  match outcome with
  | .skipped reason => .object [kind, ("reason", .string reason)]
  | .conflict detail => .object [kind, ("detail", .string detail)]
  | .failed stage reason =>
    .object [kind, ("stage", .string stage.tag), ("reason", .string reason)]
  | _ => .object [kind]

def PackageChange.toData (change : PackageChange) : Data :=
  .object [("from", .string change.before), ("to", .string change.after)]

namespace FileReport

def toData (report : FileReport) : Data :=
  let optional := fun (name : String) (value : Option Data) =>
    (value.map fun value => (name, value)).toList
  let unlessEmpty := fun (name : String) (items : List Data) =>
    if items.isEmpty then [] else [(name, Data.array items)]
  .object (
    [("path", .string report.path)] ++
    optional "destination" (report.destination.map .string) ++
    [("outcome", report.outcome.toData)] ++
    optional "package_change" (report.packageChange.map PackageChange.toData) ++
    [("qualified", .nat report.qualified), ("renamed", .nat report.renamed)] ++
    unlessEmpty "imports_added" (report.importsAdded.map Import.toData) ++
    unlessEmpty "warnings" (report.warnings.map .string))

def details (report : FileReport) : List String :=
  (match report.outcome with
    | .skipped reason => [reason]
    | .conflict detail => [detail]
    | .failed stage reason => ["at " ++ stage.label ++ ": " ++ reason]
    | _ => []) ++
  (match report.packageChange with
    | some change => ["package " ++ change.before ++ " -> " ++ change.after]
    | none => []) ++
  (if report.qualified > 0 then [toString report.qualified ++ " qualified"] else []) ++
  (if report.renamed > 0 then [toString report.renamed ++ " renamed"] else []) ++
  (if report.importsAdded.isEmpty then []
    else ["+" ++ toString report.importsAdded.length ++ " imports"])

def line (report : FileReport) : String :=
  let label := String.ofList (Text.padRight 10 report.outcome.label.toList)
  let destination := report.destination.elim "" (" -> " ++ ·)
  let details :=
    if report.details.isEmpty then "" else " (" ++ ", ".intercalate report.details ++ ")"
  label ++ " " ++ report.path ++ destination ++ details

end FileReport

def RunStatus.tag : RunStatus → String
  | .success => "success"
  | .successWithWarnings => "success_with_warnings"
  | .partialFailure => "partial_failure"

def RunStatus.label : RunStatus → String
  | .success => "success"
  | .successWithWarnings => "success with warnings"
  | .partialFailure => "partial failure"

def Summary.toData (summary : Summary) : Data :=
  .object [("units", .nat summary.units), ("moved", .nat summary.moved),
    ("rewritten", .nat summary.rewritten), ("unchanged", .nat summary.unchanged),
    ("skipped", .nat summary.skipped), ("unscannable", .nat summary.unscannable),
    ("conflicts", .nat summary.conflicts), ("failed", .nat summary.failed),
    ("qualified", .nat summary.qualified), ("imports_added", .nat summary.importsAdded)]

namespace Report

def toData (report : Report) : Data :=
  .object [("dry_run", .bool report.dryRun), ("status", .string report.status.tag),
    ("aborted", .bool report.aborted), ("summary", report.summary.toData),
    ("units", .array (report.units.map FileReport.toData))]

def totals (summary : Summary) : List String :=
  [toString summary.units ++ " units: " ++ toString summary.moved ++ " moved, " ++
    toString summary.rewritten ++ " rewritten, " ++ toString summary.unchanged ++ " unchanged, " ++
    toString summary.skipped ++ " skipped, " ++ toString summary.conflicts ++ " conflicts, " ++
    toString summary.failed ++ " failed"] ++
  (if summary.qualified > 0 ∨ summary.importsAdded > 0 then
    [toString summary.qualified ++ " references qualified, " ++
      toString summary.importsAdded ++ " imports added"]
    else []) ++
  (if summary.unscannable > 0 then
    [toString summary.unscannable ++ " units could not be scanned and were left as they are"]
    else [])

def lines (report : Report) : List String :=
  (if report.dryRun then ["dry run: no files written", ""] else []) ++
  report.units.flatMap (fun unit => unit.line :: unit.warnings.map ("    warning: " ++ ·)) ++
  [""] ++ totals report.summary ++
  (if report.aborted then ["run aborted: --fail-on-conflict"] else []) ++
  ["status: " ++ report.status.label]

end Report

end Repackage
