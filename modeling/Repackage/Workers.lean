import Repackage.Run

/-!
Runs by several workers. In the phase that changes the tree the workers take slots side by side.
Each commits the file of its slot by single operations on the tree that all of them share, and which
worker acts next is left open: a schedule names the slot whose worker acts, action by action.
-/

set_option autoImplicit false
set_option relaxedAutoImplicit false

namespace Repackage

/-- The operation that is next in the commit of a file. -/
inductive Operation where
  /-- Looks whether the destination is there. -/
  | look
  /-- Reads what the destination holds. -/
  | compare
  | write
  | readBack
  /-- Takes away a copy that does not read back as written. -/
  | undo
  | copyPermissions
  | remove
  deriving DecidableEq

/-- What a worker does for a file. -/
inductive Action where
  /-- Finds that the run goes on. -/
  | start
  /-- Finds that the run is aborted. -/
  | skip
  | look (present : Bool)
  | read (path : String) (answer : Except TreeError Text)
  | call (call : TreeCall) (answer : Except TreeError Unit)
  | finish (result : Except Failure Committed)

namespace SourceFile

def firstOperation (file : SourceFile) (changed : Bool) : Operation ⊕ Except Failure Committed :=
  if file.isMoved then .inl .look else if changed then .inl .write else .inr (.ok .unchanged)

variable {σ : Type} [Tree σ]

def perform (file : SourceFile) (tree : σ) :
    Operation → Action × (Operation ⊕ Except Failure Committed) × σ
  | .look =>
    let present := Tree.holds tree file.finalPath
    (.look present, .inl (if present then .compare else .write), tree)
  | .compare =>
    let answer := Tree.read tree file.finalPath
    let next :=
      match answer with
      | .error cause => .inr (.error (.tree .relocated file.finalPath cause))
      | .ok current =>
        if current = file.text then .inl .copyPermissions
        else .inr (.error (.conflict
          ("destination '" ++ file.finalPath ++ "' already exists with different content")))
    (.read file.finalPath answer, next, tree)
  | .write =>
    let (answer, tree) := Tree.write tree file.finalPath file.text
    let next :=
      match answer with
      | .error cause => .inr (.error (.tree .relocated file.finalPath cause))
      | .ok () => .inl .readBack
    (.call (.write file.finalPath file.text) answer, next, tree)
  | .readBack =>
    let answer := Tree.read tree file.finalPath
    let next :=
      match answer with
      | .error cause => .inr (.error (.tree .relocated file.finalPath cause))
      | .ok back =>
        if back = file.text then
          if file.isMoved then .inl .copyPermissions else .inr (.ok .rewritten)
        else if file.isMoved then .inl .undo
        else .inr (.error (.readBackMismatch file.finalPath))
    (.read file.finalPath answer, next, tree)
  | .undo =>
    let (answer, tree) := Tree.remove tree file.finalPath
    (.call (.remove file.finalPath) answer,
      .inr (.error (.readBackMismatch file.finalPath)), tree)
  | .copyPermissions =>
    let (answer, tree) := Tree.copyPermissions tree file.path file.finalPath
    let next :=
      match answer with
      | .error cause => .inr (.error (.tree .relocated file.finalPath cause))
      | .ok () => .inl .remove
    (.call (.copyPermissions file.path file.finalPath) answer, next, tree)
  | .remove =>
    let (answer, tree) := Tree.remove tree file.path
    let next :=
      match answer with
      | .error cause => .inr (.error (.tree .relocated file.path cause))
      | .ok () => .inr (.ok .moved)
    (.call (.remove file.path) answer, next, tree)

end SourceFile

/-- The options of a run by several workers. -/
structure PoolOptions extends RunOptions where
  /-- The number of workers, or zero for one per core. -/
  jobs : Nat := 0
  deriving DecidableEq

/-- Why a run by several workers did not take place. -/
inductive PoolError where
  /-- The workers cannot be started. -/
  | pool (cause : String)
  | run (cause : RunError)
  deriving DecidableEq

def PoolError.message : PoolError → String
  | .pool cause => "cannot start worker pool: " ++ cause
  | .run cause => cause.message

namespace Run

def resultOutcome : Except Failure Committed → Outcome
  | .ok committed => committedOutcome committed
  | .error failure => outcomeOf failure .relocated

/-- How far a slot has come. -/
inductive Progress where
  | settled (report : FileReport)
  | waiting (plan : Planned)
  | underway (plan : Planned) (operation : Operation)
  /-- All operations are done, but the result has not been handed over. -/
  | committed (plan : Planned) (result : Except Failure Committed)
  | finished (plan : Planned) (outcome : Outcome)

namespace Progress

def ofSlot : Slot → Progress
  | .settled report => .settled report
  | .planned plan => .waiting plan

def resume (plan : Planned) : Operation ⊕ Except Failure Committed → Progress
  | .inl operation => .underway plan operation
  | .inr result => .committed plan result

def isTaken : Progress → Bool
  | .underway _ _ | .committed _ _ => true
  | .settled _ | .waiting _ | .finished _ _ => false

def isWaiting : Progress → Bool
  | .waiting _ => true
  | _ => false

def report? : Progress → Option FileReport
  | .settled report => some report
  | .finished plan outcome => some { plan.report with outcome := outcome }
  | .waiting _ | .underway _ _ | .committed _ _ => none

end Progress

/-- An action, with the file that it is done for. -/
structure Event where
  plan : Planned
  action : Action

/-- The state of the commit phase. -/
structure Phase (σ : Type) where
  progress : List Progress
  aborted : Bool
  tree : σ

variable {σ : Type} [Tree σ]

/-- The next action for a slot, with what becomes of the slot, the flag and the tree. The flag is
looked at when the slot is taken, and set when a failure is handed over. -/
def Progress.act (options : RunOptions) (aborted : Bool) (tree : σ) :
    Progress → Option (Event × Progress × Bool × σ)
  | .settled _ | .finished _ _ => none
  | .waiting plan =>
    if aborted then some (⟨plan, .skip⟩, .finished plan (.skipped "aborted"), aborted, tree)
    else
      some (⟨plan, .start⟩, .resume plan (plan.file.firstOperation plan.changed), aborted, tree)
  | .underway plan operation =>
    let (action, next, tree) := plan.file.perform tree operation
    some (⟨plan, action⟩, .resume plan next, aborted, tree)
  | .committed plan result =>
    let failed := !result.isOk && options.failOnConflict
    some (⟨plan, .finish result⟩, .finished plan (resultOutcome result), aborted || failed, tree)

namespace Phase

def ofSlots (tree : σ) (slots : List Slot) : Phase σ :=
  ⟨slots.map Progress.ofSlot, false, tree⟩

def act (options : RunOptions) (workers : Nat) (phase : Phase σ) (i : Nat) :
    Option (Event × Phase σ) :=
  match phase.progress[i]? with
  | none => none
  | some current =>
    if current.isWaiting ∧ workers ≤ phase.progress.countP Progress.isTaken then none
    else
      (current.act options phase.aborted phase.tree).map fun (event, next, aborted, tree) =>
        (event, ⟨phase.progress.set i next, aborted, tree⟩)

def follow (options : RunOptions) (workers : Nat) (phase : Phase σ) :
    List Nat → Option (List Event × Phase σ)
  | [] => some ([], phase)
  | i :: schedule =>
    match phase.act options workers i with
    | none => none
    | some (event, next) =>
      (next.follow options workers schedule).map fun (history, last) => (event :: history, last)

def reports? (phase : Phase σ) : Option (List FileReport) :=
  phase.progress.mapM Progress.report?

end Phase

def executeBy (options : RunOptions) (workers : Nat) (schedule : List Nat) (tree : σ)
    (bystanders : List FileReport) (slots : List Slot) : Option (Report × σ) :=
  if options.dryRun then
    some (Report.build (bystanders ++ slots.map Slot.report) true options.failOnConflict false,
      tree)
  else if options.failOnConflict ∧ slots.any (·.report.outcome.isProblem) then
    some (Report.build (bystanders ++ slots.map abandon) false true true, tree)
  else
    let (slots, tree) := createDestinations tree slots
    ((Phase.ofSlots tree slots).follow options workers schedule).bind fun (_, phase) =>
      phase.reports?.map fun reports =>
        (Report.build (bystanders ++ reports) false options.failOnConflict phase.aborted,
          phase.tree)

end Run

/-- Runs a mapping over a tree by workers that follow a schedule, if that does all the slots. How
many workers there are for a number of jobs, or why there are none, is up to the system. -/
def runBy {σ : Type} [Tree σ] (pool : Nat → Except String Nat) (schedule : List Nat)
    (table : Table) (options : PoolOptions) (tree : σ) :
    Option (Except PoolError Report × σ) :=
  match pool options.jobs with
  | .error cause => some (.error (.pool cause), tree)
  | .ok workers =>
    match Tree.walk tree with
    | .error cause => some (.error (.run (.walk cause)), tree)
    | .ok paths =>
      let slots := Run.planAll table tree (Run.targets table paths)
      (Run.executeBy options.toRunOptions workers schedule tree (Run.bystanders table paths)
        slots).map fun (report, tree) => (.ok report, tree)

end Repackage
