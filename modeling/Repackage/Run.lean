import Repackage.Import.Reconcile
import Repackage.Qualify
import Repackage.Report.Basic

/-!
Runs over a tree. A run first plans every file in memory, then makes the directories that files move
to, and then writes one file after another. What goes wrong with one file is reported and leaves the
others alone, unless the run is to stop on conflicts.
-/

set_option autoImplicit false
set_option relaxedAutoImplicit false

namespace Repackage

/-- The options of a run. -/
structure RunOptions where
  /-- Report only what would be done. -/
  dryRun : Bool := false
  /-- Write nothing when the plan has conflicts or failures, and stop at the first failure. -/
  failOnConflict : Bool := false
  deriving DecidableEq

/-- Why a run did not take place. -/
inductive RunError where
  | config (cause : ConfigError)
  /-- The root is no directory. -/
  | root (path : String)
  | walk (cause : TreeError)
  deriving DecidableEq

def notDirectoryMessage (path : String) : String :=
  "not a directory: " ++ path

def RunError.message : RunError → String
  | .config cause => cause.message
  | .root path => "cannot open source tree '" ++ path ++ "': " ++ notDirectoryMessage path
  | .walk cause => "cannot walk source tree: " ++ cause.message

namespace Run

/-- A file that takes part in a run. -/
structure Target where
  path : String
  package : Package
  destination : String
  deriving DecidableEq

/-- A file whose new text is known. -/
structure Planned where
  file : SourceFile
  /-- Whether the text differs from what was read. -/
  changed : Bool
  /-- Whether the destination holds the text already. -/
  alreadyWritten : Bool
  report : FileReport
  deriving DecidableEq

/-- The state of a file between the phases of a run. -/
inductive Slot where
  /-- Nothing more will be done. -/
  | settled (report : FileReport)
  | planned (plan : Planned)
  deriving DecidableEq

def Slot.report : Slot → FileReport
  | .settled report => report
  | .planned plan => plan.report

/-- What a failure means for a file that has reached a stage. A text that cannot be classified as it
was read is skipped; one that cannot be classified after an edit is a failure of the next stage. -/
def outcomeOf (failure : Failure) (reached : Stage) : Outcome :=
  match failure with
  | .ambiguous cause =>
    if reached = .discovered then .unscannable cause.message
    else .failed reached.next failure.message
  | .conflict detail => .conflict detail
  | .tree stage _ _ => .failed stage failure.message
  | .readBackMismatch _ => .failed .relocated failure.message
  | .misplacedEdit => .failed reached.next failure.message

def target? (table : Table) (path : String) : Option Target :=
  match table.packageOfFile? path with
  | some package =>
    let name := Path.fileName path
    some ⟨path, package, if package.dir = "" then name else package.dir ++ "/" ++ name⟩
  | none => (table.packageOfDir? (Path.parent path)).map fun package => ⟨path, package, path⟩

def isUnit (table : Table) (path : String) : Bool :=
  Path.hasSuffix ".go" path && !table.isExcluded path

def enlist (table : Table) (path : String) : FileReport ⊕ Target :=
  if Path.hasSuffix "_test.go" path ∧ !table.includeTests then
    .inl { path := path, outcome := .skipped "test file" }
  else
    match target? table path with
    | some target => .inr target
    | none => .inl { path := path, outcome := .skipped "outside configured packages" }

def targets (table : Table) (paths : List String) : List Target :=
  ((paths.filter (isUnit table)).map (enlist table)).filterMap Sum.getRight?

def bystanders (table : Table) (paths : List String) : List FileReport :=
  ((paths.filter (isUnit table)).map (enlist table)).filterMap Sum.getLeft?

variable {σ : Type} [Tree σ]

def readTarget (tree : σ) (target : Target) : Except Failure SourceFile :=
  match Tree.read tree target.path with
  | .error cause => .error (.tree .discovered target.path cause)
  | .ok text =>
    match SourceFile.parse target.path text with
    | .error cause => .error (.ambiguous cause)
    | .ok file => .ok { file with destination := some target.destination }

def stopped (report : FileReport) (failure : Failure) (reached : Stage) : Slot :=
  .settled { report with outcome := outcomeOf failure reached }

def settle (tree : σ) (read : Text) (file : SourceFile) (report : FileReport) : Slot :=
  match file.checkDestination tree with
  | .error failure => stopped report failure .relocated
  | .ok destination =>
    let changed := file.text ≠ read
    let outcome : Outcome :=
      if file.isMoved then .moved else if changed then .rewritten else .unchanged
    .planned ⟨file, changed, destination = .alreadyWritten, { report with outcome := outcome }⟩

/-- Plans a file that has been read: qualifies its references, adds the imports they need and sends
it to its package. -/
def planFile (tree : σ) (table : Table) (target : Target) (file : SourceFile)
    (report : FileReport) : Slot :=
  match file.qualify table (some target.package) with
  | .error failure => stopped report failure .scanned
  | .ok (qualified, result) =>
    let report := { report with
      qualified := result.qualified, renamed := result.renamed, warnings := result.warnings }
    match qualified.reconcile result.imports with
    | .error failure => stopped report failure .qualified
    | .ok (reconciled, added) =>
      let report := { report with importsAdded := added }
      match reconciled.relocate target.package target.destination with
      | (.error failure, _) => stopped report failure .importsReconciled
      | (.ok change, relocated) =>
        settle tree file.text relocated { report with packageChange := change }

def planTarget (table : Table) (tree : σ) (target : Target) : Slot :=
  let report : FileReport := { path := target.path, outcome := .unchanged }
  match readTarget tree target with
  | .error failure => stopped report failure .discovered
  | .ok file =>
    planFile tree table target file
      { report with destination := if file.isMoved then some target.destination else none }

/-- Whether a slot will write its file to a path. A file whose destination holds its text already
writes nothing. -/
def claims (path : String) : Slot → Bool
  | .settled _ => false
  | .planned plan => !plan.alreadyWritten && plan.file.finalPath == path

def claimants (slots : List Slot) (path : String) : Nat :=
  slots.countP (claims path)

def dispute (slots : List Slot) : Slot → Slot
  | .settled report => .settled report
  | .planned plan =>
    let count := claimants slots plan.file.finalPath
    if plan.alreadyWritten ∨ count ≤ 1 then .planned plan
    else .settled { plan.report with
      outcome := .conflict ("destination '" ++ plan.file.finalPath ++ "' is claimed by " ++
        toString count ++ " units") }

def claimDestinations (slots : List Slot) : List Slot :=
  slots.map (dispute slots)

def destinationDirs (slots : List Slot) : List String :=
  (slots.filterMap fun
    | .settled _ => none
    | .planned plan => if plan.file.isMoved then some plan.file.finalDir else none).eraseDups

def createAll (tree : σ) : List String → List (String × String) × σ
  | [] => ([], tree)
  | dir :: dirs =>
    match Tree.createDirs tree dir with
    | (.ok (), tree) => createAll tree dirs
    | (.error cause, tree) =>
      let (failed, tree) := createAll tree dirs
      ((dir, cause.message) :: failed, tree)

def strand (failed : List (String × String)) : Slot → Slot
  | .settled report => .settled report
  | .planned plan =>
    match failed.lookup plan.file.finalDir with
    | none => .planned plan
    | some reason => .settled { plan.report with
        outcome := .failed .relocated
          ("cannot create '" ++ plan.file.finalDir ++ "': " ++ reason) }

def createDestinations (tree : σ) (slots : List Slot) : List Slot × σ :=
  let (failed, tree) := createAll tree (destinationDirs slots)
  (slots.map (strand failed), tree)

def committedOutcome : Committed → Outcome
  | .moved => .moved
  | .rewritten => .rewritten
  | .unchanged => .unchanged

/-- Commits one slot. After a failure in a run that is to stop on one, the flag is set, and a slot
that finds it set is skipped. -/
def commitSlot (options : RunOptions) (aborted : Bool) (tree : σ) : Slot → FileReport × Bool × σ
  | .settled report => (report, aborted, tree)
  | .planned plan =>
    if aborted then ({ plan.report with outcome := .skipped "aborted" }, aborted, tree)
    else
      match plan.file.commit tree plan.changed with
      | (.ok committed, tree) =>
        ({ plan.report with outcome := committedOutcome committed }, aborted, tree)
      | (.error failure, tree) =>
        ({ plan.report with outcome := outcomeOf failure .relocated },
          options.failOnConflict, tree)

def commitAll (options : RunOptions) (aborted : Bool) (tree : σ) :
    List Slot → List FileReport × Bool × σ
  | [] => ([], aborted, tree)
  | slot :: slots =>
    let (report, aborted, tree) := commitSlot options aborted tree slot
    let (reports, aborted, tree) := commitAll options aborted tree slots
    (report :: reports, aborted, tree)

def abandon : Slot → FileReport
  | .settled report => report
  | .planned plan => { plan.report with outcome := .skipped "aborted" }

def planAll (table : Table) (tree : σ) (targets : List Target) : List Slot :=
  claimDestinations (targets.map (planTarget table tree))

def execute (options : RunOptions) (tree : σ) (bystanders : List FileReport)
    (slots : List Slot) : Report × σ :=
  if options.dryRun then
    (Report.build (bystanders ++ slots.map Slot.report) true options.failOnConflict false, tree)
  else if options.failOnConflict ∧ slots.any (·.report.outcome.isProblem) then
    (Report.build (bystanders ++ slots.map abandon) false true true, tree)
  else
    let (slots, tree) := createDestinations tree slots
    let (reports, aborted, tree) := commitAll options false tree slots
    (Report.build (bystanders ++ reports) false options.failOnConflict aborted, tree)

end Run

def run {σ : Type} [Tree σ] (table : Table) (options : RunOptions) (tree : σ) :
    Except RunError Report × σ :=
  match Tree.walk tree with
  | .error cause => (.error (.walk cause), tree)
  | .ok paths =>
    let slots := Run.planAll table tree (Run.targets table paths)
    let (report, tree) := Run.execute options tree (Run.bystanders table paths) slots
    (.ok report, tree)

end Repackage
