import Repackage.Proofs.SharedTree

/-!
Runs that are to stop on conflicts, whichever worker is next. A problem of the plan stops such a run
before it changes anything. A commit that fails keeps every worker from starting with another file;
what is under way then goes on to its end. A directory that cannot be made stops nobody: its files
are reported as failed, and the others are committed all the same.
-/

set_option autoImplicit false
set_option relaxedAutoImplicit false

namespace Repackage.Run

def strict : RunOptions :=
  { failOnConflict := true }

theorem isProblem_outcomeOf (failure : Failure) {reached : Stage} (late : reached ≠ .discovered) :
    (outcomeOf failure reached).isProblem = true := by
  cases failure with
  | ambiguous cause => simp only [outcomeOf, late, if_false, Outcome.isProblem]
  | conflict _ | tree _ _ _ | readBackMismatch _ | misplacedEdit => rfl

section Directories

variable {tree : Memory} {slots : List Slot}

def Stranded (tree : Memory) (slots : List Slot) : Prop :=
  ∃ plan, .planned plan ∈ slots ∧
    (createAll tree (destinationDirs slots)).1.lookup plan.file.finalDir ≠ none

private theorem stranded_iff (quiet : ∀ slot ∈ slots, slot.report.outcome.isProblem = false) :
    (∃ report, .settled report ∈ (createDestinations tree slots).1 ∧
      report.outcome.isProblem = true) ↔ Stranded tree slots := by
  constructor
  · rintro ⟨report, member, problem⟩
    obtain ⟨slot, slotMember, settled⟩ := List.mem_map.mp member
    cases slot with
    | settled other =>
      cases settled
      have calm := quiet _ slotMember
      rw [Slot.report, problem] at calm
      cases calm
    | planned plan =>
      refine ⟨plan, slotMember, fun none => ?_⟩
      simp only [strand, none] at settled
      cases settled
  · rintro ⟨plan, member, failed⟩
    obtain ⟨reason, found⟩ := Option.ne_none_iff_exists'.mp failed
    have settled : ∃ report, strand (createAll tree (destinationDirs slots)).1 (.planned plan) =
        .settled report ∧ report.outcome.isProblem = true := by
      simp only [strand, found]
      exact ⟨_, rfl, rfl⟩
    obtain ⟨report, same, problem⟩ := settled
    exact ⟨report, List.mem_map.mpr ⟨.planned plan, member, same⟩, problem⟩

end Directories

section Flags

variable {σ : Type} [Tree σ] {options : RunOptions} {workers i : Nat} {slots : List Slot}
  {history : List Event} {start phase next : Phase σ} {event : Event} {current later : Progress}
  {tree : σ}

def Event.IsFailure (event : Event) : Prop :=
  ∃ failure, event.action = .finish (.error failure)

private theorem Steps.aborted_iff (steps : Steps options workers phase i event next current later) :
    next.aborted = true ↔
      phase.aborted = true ∨ options.failOnConflict = true ∧ event.IsFailure := by
  obtain ⟨_, _, _, acts⟩ := steps
  generalize next.aborted = after, next.tree = rest at acts
  cases acts with
  | skip plan _ | start plan _ => simp [Event.IsFailure]
  | perform plan operation => cases operation <;> simp [Event.IsFailure, SourceFile.perform]
  | finish plan result =>
    cases result <;> simp [Event.IsFailure, Except.isOk, Except.toBool]

private theorem Steps.going_of_start
    (steps : Steps options workers phase i event next current later)
    (starts : event.action = .start) : phase.aborted = false := by
  obtain ⟨_, _, _, acts⟩ := steps
  generalize next.aborted = after, next.tree = rest at acts
  cases acts with
  | skip _ _ | finish _ _ => cases starts
  | start _ going => exact going
  | perform plan operation => cases operation <;> cases starts

private theorem Reaches.aborted_iff (stops : options.failOnConflict = true)
    (reached : Reaches options workers (Phase.ofSlots tree slots) history phase) :
    phase.aborted = true ↔ ∃ event ∈ history, event.IsFailure := by
  induction reached with
  | refl => simp [Phase.ofSlots]
  | snoc reached steps ih =>
    rw [steps.aborted_iff, ih]
    simp [stops, or_and_right, exists_or]

private theorem Reaches.no_start (reached : Reaches options workers start history phase)
    (stopped : start.aborted = true) :
    phase.aborted = true ∧ ∀ event ∈ history, event.action ≠ .start := by
  induction reached with
  | refl => exact ⟨stopped, by simp⟩
  | snoc reached steps ih =>
    obtain ⟨flagged, none⟩ := ih
    refine ⟨steps.aborted_iff.mpr (.inl flagged), ?_⟩
    intro event member
    rcases List.mem_append.mp member with before | last
    · exact none event before
    · rw [List.mem_singleton] at last
      subst last
      intro starts
      rw [steps.going_of_start starts] at flagged
      cases flagged

private theorem Reaches.only_skips (reached : Reaches options workers start history phase)
    (stopped : start.aborted = true)
    (free : ∀ current ∈ start.progress, current.isTaken = false) :
    (∀ current ∈ phase.progress, current.isTaken = false) ∧
      ∀ event ∈ history, event.action = .skip := by
  induction reached with
  | refl => exact ⟨free, by simp⟩
  | @snoc history phase next i event current later reached steps ih =>
    obtain ⟨still, skips⟩ := ih
    have flagged := (reached.no_start stopped).1
    have idle := still current (List.mem_of_getElem? steps.before)
    have turn : event.action = .skip ∧ later.isTaken = false := by
      obtain ⟨_, _, _, acts⟩ := steps
      generalize next.aborted = after, next.tree = rest at acts
      cases acts with
      | skip plan _ => exact ⟨rfl, rfl⟩
      | start plan going =>
        rw [going] at flagged
        cases flagged
      | perform plan operation | finish plan result => cases idle
    constructor
    · intro other member
      rw [steps.after] at member
      rcases List.mem_or_eq_of_mem_set member with before | rfl
      · exact still other before
      · exact turn.2
    · intro other member
      rcases List.mem_append.mp member with before | last
      · exact skips other before
      · rw [List.mem_singleton] at last
        rw [last]
        exact turn.1

end Flags

section Ends

variable {σ : Type} [Tree σ] {options : RunOptions} {workers : Nat} {slots : List Slot}
  {history before after : List Event} {failed event : Event} {phase : Phase σ} {tree : σ}
  {reports : List FileReport}

private theorem Reaches.after_failure (stops : options.failOnConflict = true)
    (ordered : Ordered slots)
    (reached : Reaches options workers (Phase.ofSlots tree slots) (before ++ failed :: after) phase)
    (failure : failed.IsFailure) :
    (∀ event ∈ after, event.action ≠ .start) ∧
      (∀ event ∈ after, event.action ≠ .skip → ⟨event.plan, .start⟩ ∈ before) ∧
      (workers ≤ 1 → ∀ event ∈ after, event.action = .skip) := by
  rw [show before ++ failed :: after = (before ++ [failed]) ++ after by simp] at reached
  obtain ⟨between, sooner, rest⟩ := reached.split
  have flagged := (sooner.aborted_iff stops).mpr ⟨failed, by simp, failure⟩
  have none := (rest.no_start flagged).2
  obtain ⟨cause, finishes⟩ := failure
  refine ⟨none, ?_, ?_⟩
  · intro event member taken
    have started := reached.started ordered (List.mem_append_right _ member) taken
    rcases List.mem_append.mp started with sooner | later
    · rcases List.mem_append.mp sooner with before | last
      · exact before
      · rw [List.mem_singleton] at last
        rw [← last] at finishes
        cases finishes
    · exact absurd rfl (none _ later)
  · intro single
    exact (rest.only_skips flagged (sooner.free_of_finish single finishes)).2

private theorem Reaches.problem_iff (ordered : Ordered slots)
    (reached : Reaches options workers (Phase.ofSlots tree slots) history phase)
    (reported : phase.reports? = some reports) :
    (∃ unit ∈ reports, unit.outcome.isProblem = true) ↔
      (∃ event ∈ history, event.IsFailure) ∨
        ∃ report, .settled report ∈ slots ∧ report.outcome.isProblem = true := by
  constructor
  · rintro ⟨unit, member, problem⟩
    cases (reached.mem_reports_iff ordered reported).mp member with
    | settled settled => exact .inr ⟨unit, settled, problem⟩
    | skipped _ _ => cases problem
    | @committed plan actions result planned completes =>
      cases result with
      | ok committed => cases committed <;> cases problem
      | error failure => exact .inl ⟨_, completes.finished, failure, rfl⟩
  · rintro (⟨⟨plan, action⟩, member, failure, rfl⟩ | ⟨report, settled, problem⟩)
    · obtain ⟨actions, result, completes⟩ :=
        reached.result_of_mem ordered reported member (by simp)
      obtain rfl := completes.result_of_finish member
      exact ⟨_, (reached.mem_reports_iff ordered reported).mpr
        (.committed (reached.planned_of_mem member) completes),
        isProblem_outcomeOf failure (by decide)⟩
    · exact ⟨report, (reached.mem_reports_iff ordered reported).mpr (.settled settled), problem⟩

end Ends

def TouchesFile : TreeCall → Prop
  | .write _ _ | .remove _ => True
  | .createDirs _ | .copyPermissions _ _ => False

/-- Once there is a problem, no file is written or taken away for which nothing had been started. A
problem is a directory that could not be made before the commit phase, or a commit that hands over
its failure. -/
structure StopsInTime (stranded : Prop) (history : List Event) : Prop where
  stranded : stranded → ∀ call ∈ callsOf history, ¬TouchesFile call
  failed : ∀ before failed after, history = before ++ failed :: after → failed.IsFailure →
    ∀ event ∈ after, ∀ call, event.call? = some call → TouchesFile call →
      ⟨event.plan, .start⟩ ∈ before

private theorem stopsInTime_iff {stranded : Prop} {history : List Event}
    (later : ∀ before failed after, history = before ++ failed :: after → failed.IsFailure →
      ∀ event ∈ after, event.action ≠ .skip → ⟨event.plan, .start⟩ ∈ before) :
    StopsInTime stranded history ↔
      ¬stranded ∨ ∀ call ∈ callsOf history, ¬TouchesFile call := by
  constructor
  · intro inTime
    by_cases problem : stranded
    · exact .inr (inTime.stranded problem)
    · exact .inl problem
  · intro harmless
    refine ⟨fun problem => harmless.resolve_left (not_not_intro problem), ?_⟩
    intro before failed after place failure event member call called _
    apply later before failed after place failure event member
    intro skipped
    rw [Event.call?, skipped] at called
    cases called

private theorem CarriedOut.problem_iff {pool : Nat → Except String Nat} {schedule : List Nat}
    {table : Table} {options : PoolOptions} {start : Memory} {workers : Nat}
    {history : List Event} {phase : Phase Memory} {reports : List FileReport}
    (carried : CarriedOut pool schedule table options start workers history phase reports)
    (quiet : ∀ slot ∈ slotsOf table start, slot.report.outcome.isProblem = false) :
    (∃ unit ∈ (Report.build (bystanders table start.paths ++ reports) false
        options.failOnConflict phase.aborted).units, unit.outcome.isProblem = true) ↔
      (∃ event ∈ history, event.IsFailure) ∨ Stranded start (slotsOf table start) := by
  have ordered := (slotsOf_ordered table start).createDestinations start
  rw [← stranded_iff quiet, ← carried.reached.problem_iff ordered carried.reported]
  simp only [mem_units_build, List.mem_append, or_and_right, exists_or]
  refine or_iff_right ?_
  rintro ⟨unit, bystander, bad⟩
  obtain ⟨reason, skipped⟩ := skipped_of_mem_bystanders bystander
  rw [skipped] at bad
  cases bad

/-- How a run that is to stop on conflicts does so, with any number of workers, in any schedule and
with any faults. A problem of the plan stops it before any call. A commit that fails lets nobody
start with another file: these are passed over, and what is still called is called for files that
were under way, so for none if there is one worker. Directories that could not be made are the
exception. If that is all that went wrong, the problem is reported and the run is not reported as
aborted, and files are written and taken away all the same. -/
theorem strict_run_stops_iff (pool : Nat → Except String Nat) (schedule : List Nat) (table : Table)
    (options : PoolOptions) (stops : options.failOnConflict = true)
    (wet : options.dryRun = false) (tree : Memory) (faults : Faults) {report : Report}
    {final : Memory}
    (ran : runBy pool schedule table options (tree.restart faults) = some (.ok report, final)) :
    let start := tree.restart faults
    let slots := slotsOf table start
    ((∃ slot ∈ slots, slot.report.outcome.isProblem = true) →
      report.aborted = true ∧ final.trace = []) ∧
    ((∀ slot ∈ slots, slot.report.outcome.isProblem = false) →
      ∃ workers history phase reports,
        CarriedOut pool schedule table options start workers history phase reports ∧
        final.trace = (destinationDirs slots).map .createDirs ++ callsOf history ∧
        (report.aborted = true ↔ ∃ event ∈ history, event.IsFailure) ∧
        (∀ before failed after, history = before ++ failed :: after → failed.IsFailure →
          (∀ event ∈ after, event.action ≠ .start) ∧
          (∀ event ∈ after, event.action ≠ .skip → ⟨event.plan, .start⟩ ∈ before) ∧
          (workers ≤ 1 → ∀ event ∈ after, event.action = .skip)) ∧
        (∀ plan, .planned plan ∈ (createDestinations start slots).1 →
          ⟨plan, .start⟩ ∉ history →
            { plan.report with outcome := .skipped "aborted" } ∈ report.units) ∧
        (((∃ unit ∈ report.units, unit.outcome.isProblem = true) → report.aborted = true) ↔
          (∃ event ∈ history, event.IsFailure) ∨ ¬Stranded start slots) ∧
        (StopsInTime (Stranded start slots) history ↔
          ¬Stranded start slots ∨ ∀ call ∈ callsOf history, ¬TouchesFile call)) := by
  intro start slots
  rcases runBy_cases ran with ⟨_, failed, _⟩ | ⟨dry, _⟩ | ⟨_, _, problem, stopped, same⟩ |
    ⟨workers, history, phase, reports, carried, done, same⟩
  · cases failed
  · rw [wet] at dry
    cases dry
  · cases stopped
    refine ⟨fun _ => ⟨rfl, by rw [same]; rfl⟩, fun quiet => ?_⟩
    obtain ⟨slot, member, bad⟩ := problem
    rw [quiet slot member] at bad
    cases bad
  · cases done
    have reached := carried.reached
    have ordered := (slotsOf_ordered table start).createDestinations start
    have aborted := reached.aborted_iff stops
    have later : ∀ before failed after, history = before ++ failed :: after →
        failed.IsFailure → (∀ event ∈ after, event.action ≠ .start) ∧
          (∀ event ∈ after, event.action ≠ .skip → ⟨event.plan, .start⟩ ∈ before) ∧
          (workers ≤ 1 → ∀ event ∈ after, event.action = .skip) := by
      intro before failed after place failure
      rw [place] at reached
      exact reached.after_failure stops ordered failure
    refine ⟨fun problem => absurd (.inr ⟨stops, problem⟩) carried.goesOn, fun quiet => ?_⟩
    refine ⟨workers, history, phase, reports, carried, ?_, aborted, later, ?_, ?_, ?_⟩
    · rw [same]
      exact carried.trace rfl
    · intro plan member unstarted
      exact mem_units_build.mpr (List.mem_append_right _
        (reached.skipped_of_unstarted ordered carried.reported member unstarted))
    · rw [carried.problem_iff quiet]
      change (_ → phase.aborted = true) ↔ _
      rw [aborted]
      constructor
      · intro told
        by_cases stranded : Stranded start slots
        · exact .inl (told (.inr stranded))
        · exact .inr stranded
      · rintro (failure | free) problem
        · exact failure
        · exact problem.resolve_right free
    · exact stopsInTime_iff fun before failed after place failure =>
        (later before failed after place failure).2.1

def outpostTable : Table where
  modulePath := "m"
  packages := Dict.ofList [("d", ⟨"d", "d", "m/d"⟩), ("e", ⟨"e", "e", "m/e"⟩)]
  files := Dict.ofList [("a/x.go", "d")]
  symbols := []
  excludes := []
  includeTests := true

def outpostTree : Memory :=
  .ofFiles [("a/x.go", "package a\n".toList), ("e/y.go", "package c\n".toList)]

/-- The directory of the first file cannot be made. The run goes on to write the second one, and is
not reported as aborted. -/
theorem outpost_not_stopped :
    let faults : Faults := { createDirs := Dict.ofList [("d", "read only")] }
    let start := outpostTree.restart faults
    ∃ report final, runBy (fun _ => .ok 1) [1, 1, 1, 1] outpostTable ⟨strict, 1⟩ start =
        some (.ok report, final) ∧
      ¬((∃ unit ∈ report.units, unit.outcome.isProblem = true) → report.aborted = true) ∧
      final.trace = [.createDirs "d", .write "e/y.go" "package e\n".toList] := by
  intro faults start
  have ends : (runBy (fun _ => .ok 1) [1, 1, 1, 1] outpostTable ⟨strict, 1⟩ start).map
      (fun (result, final) => (result.toOption.map (·.aborted), final.trace)) =
        some (some false, [.createDirs "d", .write "e/y.go" "package e\n".toList]) := by
    decide +kernel
  obtain ⟨⟨result, final⟩, ran, same⟩ := Option.map_eq_some_iff.mp ends
  obtain ⟨going, trace⟩ := Prod.mk.inj same
  cases result with
  | error cause => cases going
  | ok report =>
    have quiet : ∀ slot ∈ slotsOf outpostTable start, slot.report.outcome.isProblem = false := by
      decide +kernel
    have settled : ∃ slot ∈ (createDestinations start (slotsOf outpostTable start)).1,
        slot.report.outcome.isProblem = true := by
      decide +kernel
    have stranded : Stranded start (slotsOf outpostTable start) := by
      obtain ⟨slot, member, problem⟩ := settled
      cases slot with
      | settled report => exact (stranded_iff quiet).mp ⟨report, member, problem⟩
      | planned plan =>
        have calm := quiet _ (planned_of_createDestinations member)
        rw [problem] at calm
        cases calm
    obtain ⟨workers, history, phase, reports, _, _, aborted, _, _, stops, _⟩ :=
      (strict_run_stops_iff _ _ outpostTable ⟨strict, 1⟩ rfl rfl outpostTree faults ran).2 quiet
    refine ⟨report, final, ran, fun told => ?_, trace⟩
    rcases stops.mp told with failure | free
    · rw [← aborted, show report.aborted = false from Option.some.inj going] at failure
      cases failure
    · exact free stranded

end Repackage.Run
