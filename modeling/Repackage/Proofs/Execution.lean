import Repackage.Proofs.Plan

/-!
The phases of a run that change the tree. Slots are committed in path order, each on the tree that
those before it have left. Only the slot of a file takes that file away or gives it another text, so
a file is as it was planned until its turn comes, and as its turn left it from then on.
-/

set_option autoImplicit false
set_option relaxedAutoImplicit false

namespace Repackage.Run

section Loop

variable {options : RunOptions} {aborted : Bool} {tree : Memory} {slots before after : List Slot}
  {slot : Slot} {plan : Planned} {path : String} {text : Text}

/-- Slots in path order, each planned one under the path of its own file. -/
structure Ordered (slots : List Slot) : Prop where
  sorted : slots.Pairwise fun a b => a.report.path < b.report.path
  named : ∀ plan, .planned plan ∈ slots → plan.report.path = plan.file.path

def Owned (slots : List Slot) (path : String) : Prop :=
  ∃ plan, Slot.planned plan ∈ slots ∧ plan.file.path = path

theorem Ordered.tail (ordered : Ordered (slot :: slots)) : Ordered slots :=
  ⟨(List.pairwise_cons.mp ordered.sorted).2,
    fun plan member => ordered.named plan (List.mem_cons_of_mem _ member)⟩

theorem Ordered.lt_of_after (ordered : Ordered slots) (place : slots = before ++ slot :: after)
    {later : Slot} (member : later ∈ after) : slot.report.path < later.report.path := by
  have sorted := ordered.sorted
  rw [place] at sorted
  exact (List.pairwise_cons.mp (List.pairwise_append.mp sorted).2.1).1 later member

theorem Ordered.not_owned (ordered : Ordered slots)
    (place : slots = before ++ .planned plan :: after) :
    ¬Owned before plan.file.path ∧ ¬Owned after plan.file.path := by
  have own := ordered.named plan (by simp [place])
  constructor
  · rintro ⟨other, member, same⟩
    have sorted := ordered.sorted
    rw [place] at sorted
    have less := (List.pairwise_append.mp sorted).2.2 _ member _ List.mem_cons_self
    have otherOwn := ordered.named other (by simp [place, member])
    simp only [Slot.report, own, otherOwn, same] at less
    exact String.lt_irrefl _ less
  · rintro ⟨other, member, same⟩
    have less := ordered.lt_of_after place member
    have otherOwn := ordered.named other (by simp [place, member])
    simp only [Slot.report, own, otherOwn, same] at less
    exact String.lt_irrefl _ less

private theorem commitAll_append (options : RunOptions) (aborted : Bool) (tree : Memory)
    (before after : List Slot) :
    let first := commitAll options aborted tree before
    let second := commitAll options first.2.1 first.2.2 after
    commitAll options aborted tree (before ++ after) = (first.1 ++ second.1, second.2) := by
  induction before generalizing aborted tree with
  | nil => rfl
  | cons slot before ih =>
    simp only [List.cons_append, commitAll, ih]

theorem commitSlot_tree (options : RunOptions) (aborted : Bool) (tree : Memory) (slot : Slot) :
    (commitSlot options aborted tree slot).2.2 = tree ∨
      ∃ plan, slot = .planned plan ∧
        (commitSlot options aborted tree slot).2.2 = (plan.file.commit tree plan.changed).2 := by
  cases slot with
  | settled report => exact .inl rfl
  | planned plan =>
    cases aborted with
    | true => exact .inl rfl
    | false =>
      right
      refine ⟨plan, rfl, ?_⟩
      simp only [commitSlot, Bool.false_eq_true, if_false]
      rcases plan.file.commit tree plan.changed with ⟨_ | _, _⟩ <;> rfl

private theorem Ordered.held_behind (ordered : Ordered (slot :: slots)) (options : RunOptions)
    (aborted : Bool) (member : .planned plan ∈ slots)
    (held : tree.files.find? plan.file.path = some text) :
    (commitSlot options aborted tree slot).2.2.files.find? plan.file.path = some text := by
  rcases commitSlot_tree options aborted tree slot with same | ⟨first, rfl, committed⟩
  · rw [same]
    exact held
  · rw [committed]
    have place : Slot.planned first :: slots = [] ++ .planned first :: slots := rfl
    exact first.file.commit_keeps tree first.changed held fun same =>
      (ordered.not_owned place).2 ⟨plan, member, same⟩

theorem commitAll_preserves (options : RunOptions) (aborted : Bool) (invariant : Memory → Prop)
    (step : ∀ plan, .planned plan ∈ slots → ∀ tree, invariant tree →
      invariant (plan.file.commit tree plan.changed).2)
    (start : invariant tree) : invariant (commitAll options aborted tree slots).2.2 := by
  induction slots generalizing aborted tree with
  | nil => exact start
  | cons slot slots ih =>
    have rest : ∀ plan, .planned plan ∈ slots → ∀ tree, invariant tree →
        invariant (plan.file.commit tree plan.changed).2 :=
      fun plan member => step plan (List.mem_cons_of_mem _ member)
    have turn : invariant (commitSlot options aborted tree slot).2.2 := by
      rcases commitSlot_tree options aborted tree slot with same | ⟨plan, rfl, committed⟩
      · rw [same]
        exact start
      · rw [committed]
        exact step plan List.mem_cons_self tree start
    exact ih _ rest turn

theorem commitAll_keeps (options : RunOptions) (aborted : Bool)
    (held : tree.files.find? path = some text) (free : ¬Owned slots path) :
    (commitAll options aborted tree slots).2.2.files.find? path = some text :=
  commitAll_preserves options aborted (·.files.find? path = some text)
    (fun plan member _ kept => plan.file.commit_keeps _ _ kept
      fun own => free ⟨plan, member, own.symm⟩) held

theorem Ordered.held_at_turn (ordered : Ordered slots)
    (place : slots = before ++ .planned plan :: after) (options : RunOptions) (aborted : Bool)
    (held : tree.files.find? plan.file.path = some text) :
    (commitAll options aborted tree before).2.2.files.find? plan.file.path = some text :=
  commitAll_keeps options aborted held (ordered.not_owned place).1

theorem mem_reports_iff {report : FileReport} :
    report ∈ (commitAll options aborted tree slots).1 ↔
      ∃ before slot after, slots = before ++ slot :: after ∧
        report = (commitSlot options (commitAll options aborted tree before).2.1
          (commitAll options aborted tree before).2.2 slot).1 := by
  induction slots generalizing aborted tree with
  | nil => simp [commitAll]
  | cons slot slots ih =>
    rw [commitAll, List.mem_cons, ih]
    constructor
    · rintro (rfl | ⟨before, other, after, rfl, rfl⟩)
      · exact ⟨[], slot, slots, rfl, rfl⟩
      · exact ⟨slot :: before, other, after, rfl, rfl⟩
    · rintro ⟨before, other, after, place, rfl⟩
      cases before with
      | nil =>
        cases place
        exact .inl rfl
      | cons first before =>
        cases place
        exact .inr ⟨before, other, after, rfl, rfl⟩

theorem commitAll_split (options : RunOptions) (aborted : Bool) (tree : Memory)
    (place : slots = before ++ slot :: after) :
    let start := commitAll options aborted tree before
    let turn := commitSlot options start.2.1 start.2.2 slot
    let rest := commitAll options turn.2.1 turn.2.2 after
    commitAll options aborted tree slots = (start.1 ++ turn.1 :: rest.1, rest.2) := by
  subst place
  rw [commitAll_append]
  rfl

theorem path_commitSlot (options : RunOptions) (aborted : Bool) (tree : Memory) (slot : Slot) :
    (commitSlot options aborted tree slot).1.path = slot.report.path := by
  cases slot with
  | settled report => rfl
  | planned plan =>
    simp only [commitSlot]
    split
    · rfl
    · rcases plan.file.commit tree plan.changed with ⟨_ | _, _⟩ <;> rfl

theorem commitAll_aborted (goesOn : options.failOnConflict = false) (tree : Memory)
    (slots : List Slot) : (commitAll options false tree slots).2.1 = false := by
  have step :
      ∀ (tree : Memory) (slot : Slot), (commitSlot options false tree slot).2.1 = false := by
    intro tree slot
    cases slot with
    | settled report => rfl
    | planned plan =>
      simp only [commitSlot, Bool.false_eq_true, if_false]
      rcases plan.file.commit tree plan.changed with ⟨_ | _, _⟩
      · exact goesOn
      · rfl
  induction slots generalizing tree with
  | nil => rfl
  | cons slot slots ih =>
    simp only [commitAll, step, ih]

end Loop

section Turns

variable {tree : Memory} {plan : Planned}

/-- What the turn of a planned file comes to when nothing fails. -/
inductive Turn (tree : Memory) (plan : Planned) (turn : FileReport × Bool × Memory) : Prop where
  | moved (away : plan.file.isMoved = true)
      (ready : tree.files.find? plan.file.finalPath = none ∨
        tree.files.find? plan.file.finalPath = some plan.file.text)
      (reported : turn.1 = { plan.report with outcome := .moved })
      (files : ∀ path, turn.2.2.files.find? path =
        if path = plan.file.path then none
        else if path = plan.file.finalPath then some plan.file.text
        else tree.files.find? path)
  | conflict (away : plan.file.isMoved = true) (current : Text) (detail : String)
      (held : tree.files.find? plan.file.finalPath = some current)
      (different : current ≠ plan.file.text)
      (reported : turn.1 = { plan.report with outcome := .conflict detail })
      (same : turn.2.2 = tree)
  | rewritten (stays : plan.file.isMoved = false) (changed : plan.changed = true)
      (reported : turn.1 = { plan.report with outcome := .rewritten })
      (files : turn.2.2.files = tree.files.insert plan.file.path plan.file.text)
  | unchanged (stays : plan.file.isMoved = false) (changed : plan.changed = false)
      (reported : turn.1 = { plan.report with outcome := .unchanged })
      (same : turn.2.2 = tree)

theorem turn_of_calm (options : RunOptions) (calm : tree.Calm)
    (own : tree.files.find? plan.file.path ≠ none) :
    Turn tree plan (commitSlot options false tree (.planned plan)) := by
  simp only [commitSlot, Bool.false_eq_true, if_false]
  cases away : plan.file.isMoved with
  | true =>
    have moving := SourceFile.commit_moved_of_calm calm plan.changed away own
    cases held : tree.files.find? plan.file.finalPath with
    | none =>
      obtain ⟨result, files⟩ := moving (.inl held)
      rcases committed : plan.file.commit tree plan.changed with ⟨outcome, after⟩
      rw [committed] at result files
      dsimp only at result
      subst result
      exact .moved away (.inl held) rfl files
    | some current =>
      by_cases same : current = plan.file.text
      · subst same
        obtain ⟨result, files⟩ := moving (.inr held)
        rcases committed : plan.file.commit tree plan.changed with ⟨outcome, after⟩
        rw [committed] at result files
        dsimp only at result
        subst result
        exact .moved away (.inr held) rfl files
      · obtain ⟨detail, committed⟩ :=
          SourceFile.commit_conflict_of_calm calm plan.changed away held same
        rw [committed]
        exact .conflict away current detail held same rfl rfl
  | false =>
    cases changed : plan.changed with
    | true =>
      obtain ⟨result, files⟩ := SourceFile.commit_rewritten_of_calm calm away
      rcases committed : plan.file.commit tree true with ⟨outcome, after⟩
      rw [committed] at result files
      dsimp only at result
      subst result
      exact .rewritten away changed rfl files
    | false =>
      rw [SourceFile.commit_unchanged away]
      exact .unchanged away changed rfl rfl

end Turns

section Directories

variable {tree : Memory} {slots : List Slot}

theorem createAll_replay (tree : Memory) (dirs : List String) :
    (createAll tree dirs).2 = tree.replay (dirs.map .createDirs) := by
  induction dirs generalizing tree with
  | nil => rfl
  | cons dir dirs ih =>
    have rest := ih (tree.createDirs dir).2
    simp only [createAll, Memory.tree_createDirs]
    rcases made : tree.createDirs dir with ⟨cause | ⟨⟩, next⟩ <;>
      rw [made] at rest <;>
      simpa [Memory.replay, Memory.perform, made] using rest

theorem files_createDestinations (tree : Memory) (slots : List Slot) :
    (createDestinations tree slots).2.files = tree.files := by
  have replayed := createAll_replay tree (destinationDirs slots)
  simp only [createDestinations, replayed]
  generalize destinationDirs slots = dirs
  clear replayed
  induction dirs generalizing tree with
  | nil => rfl
  | cons dir dirs ih => exact (ih (tree.createDirs dir).2).trans (tree.files_createDirs dir)

theorem faults_createDestinations (tree : Memory) (slots : List Slot) :
    (createDestinations tree slots).2.faults = tree.faults := by
  simp only [createDestinations, createAll_replay, Memory.faults_replay]

theorem planned_of_strand {failed : List (String × String)} {slot : Slot} {plan : Planned}
    (planned : strand failed slot = .planned plan) : slot = .planned plan := by
  cases slot with
  | settled report => cases planned
  | planned other =>
    simp only [strand] at planned
    split at planned
    · exact planned
    · cases planned

theorem path_strand (failed : List (String × String)) (slot : Slot) :
    (strand failed slot).report.path = slot.report.path := by
  cases slot with
  | settled report => rfl
  | planned plan =>
    simp only [strand]
    split <;> rfl

theorem planned_of_createDestinations {plan : Planned}
    (planned : .planned plan ∈ (createDestinations tree slots).1) : .planned plan ∈ slots := by
  obtain ⟨slot, member, stranded⟩ := List.mem_map.mp planned
  rw [planned_of_strand stranded] at member
  exact member

theorem Ordered.createDestinations (ordered : Ordered slots) (tree : Memory) :
    Ordered (createDestinations tree slots).1 := by
  constructor
  · refine List.pairwise_map.mpr (ordered.sorted.imp ?_)
    intro a b less
    rw [path_strand, path_strand]
    exact less
  · intro plan member
    exact ordered.named plan (planned_of_createDestinations member)

theorem createDestinations_of_calm (calm : tree.Calm) (slots : List Slot) :
    (createDestinations tree slots).1 = slots := by
  have none : ∀ dirs, (createAll tree dirs).1 = [] := by
    intro dirs
    induction dirs generalizing tree with
    | nil => rfl
    | cons dir dirs ih =>
      have made := calm.createDirs dir
      have rest := ih (calm.perform (.createDirs dir))
      simp only [createAll, Memory.tree_createDirs, Memory.perform] at rest ⊢
      rcases created : tree.createDirs dir with ⟨result, next⟩
      rw [created] at made rest
      dsimp only at made rest
      subst made
      exact rest
  have unchanged : strand [] = id := by
    funext slot
    cases slot <;> rfl
  simp only [Run.createDestinations, none, unchanged, List.map_id]

end Directories

section Slots

variable {table : Table} {tree : Memory} {all : List Target}

theorem path_planTarget (table : Table) (tree : Memory) (target : Target) :
    (planTarget table tree target).report.path = target.path := by
  cases read : tree.read target.path with
  | error cause =>
    obtain ⟨report, settled, path, _⟩ := planTarget_of_unreadable table read
    rw [settled]
    exact path
  | ok text =>
    cases revised : revise table target text with
    | none =>
      obtain ⟨report, settled, path, _⟩ := planTarget_of_failed read revised
      rw [settled]
      exact path
    | some file =>
      obtain ⟨report, settled, path, _⟩ := planTarget_of_revised read revised
      rw [settled, ← path]
      unfold settle
      split <;> rfl

private theorem settled_of_planTarget {target : Target} {report : FileReport}
    (settled : planTarget table tree target = .settled report) :
    report.outcome.isChange = false := by
  cases read : tree.read target.path with
  | error cause =>
    obtain ⟨other, same, _, idle⟩ := planTarget_of_unreadable table read
    rw [settled] at same
    cases same
    exact idle
  | ok text =>
    cases revised : revise table target text with
    | none =>
      obtain ⟨other, same, _, idle⟩ := planTarget_of_failed read revised
      rw [settled] at same
      cases same
      exact idle
    | some file =>
      obtain ⟨other, same, _⟩ := planTarget_of_revised read revised
      rw [settled] at same
      unfold settle at same
      split at same
      · next failure _ =>
        cases same
        exact isChange_outcomeOf failure .relocated
      · cases same

theorem path_slotOf (table : Table) (tree : Memory) (all : List Target) (target : Target) :
    (slotOf table tree all target).report.path = target.path := by
  rw [← path_planTarget table tree target]
  unfold slotOf
  cases planTarget table tree target with
  | settled report => rfl
  | planned plan =>
    simp only [dispute]
    split <;> rfl

theorem settled_of_slotOf {target : Target} {report : FileReport}
    (settled : slotOf table tree all target = .settled report) :
    report.outcome.isChange = false := by
  unfold slotOf at settled
  cases drafted : planTarget table tree target with
  | settled other =>
    rw [drafted] at settled
    cases settled
    exact settled_of_planTarget drafted
  | planned plan =>
    rw [drafted] at settled
    simp only [dispute] at settled
    split at settled
    · cases settled
    · cases settled
      rfl

/-- The slots of a run over a tree, before anything is written. -/
def slotsOf (table : Table) (tree : Memory) : List Slot :=
  planAll table tree (targets table tree.paths)

theorem mem_slotsOf_iff {slot : Slot} :
    slot ∈ slotsOf table tree ↔ ∃ target ∈ targets table tree.paths,
      slotOf table tree (targets table tree.paths) target = slot := by
  rw [slotsOf, planAll_eq_map, List.mem_map]

theorem follows_of_mem_slotsOf {plan : Planned} (member : .planned plan ∈ slotsOf table tree) :
    ∃ target ∈ targets table tree.paths, ∃ text, Follows table tree target text plan := by
  obtain ⟨target, targetMember, planned⟩ := mem_slotsOf_iff.mp member
  obtain ⟨text, follows⟩ := follows_of_planned (slotOf_eq_planned_iff.mp planned).1
  exact ⟨target, targetMember, text, follows⟩

theorem isChange_of_settled {report : FileReport}
    (member : .settled report ∈ slotsOf table tree) : report.outcome.isChange = false := by
  obtain ⟨target, _, settled⟩ := mem_slotsOf_iff.mp member
  exact settled_of_slotOf settled

theorem slotsOf_ordered (table : Table) (tree : Memory) : Ordered (slotsOf table tree) := by
  constructor
  · rw [slotsOf, planAll_eq_map, List.pairwise_map]
    refine (targets_sorted tree.paths_sorted).imp ?_
    intro a b less
    rw [path_slotOf, path_slotOf]
    exact less
  · intro plan member
    obtain ⟨target, _, text, follows⟩ := follows_of_mem_slotsOf member
    rw [follows.reported, follows.path]

theorem targets_nodup (table : Table) (tree : Memory) : (targets table tree.paths).Nodup := by
  refine (targets_sorted tree.paths_sorted).imp ?_
  rintro a b less rfl
  exact String.lt_irrefl _ less

/-- Slots that were planned on the given files. The destination of a file that moves is free or
holds its text, and a free one is the destination of one file only. -/
structure Laid (files : Dict Text) (slots : List Slot) : Prop where
  ordered : Ordered slots
  held : ∀ plan, .planned plan ∈ slots → files.find? plan.file.path ≠ none
  landing : ∀ plan, .planned plan ∈ slots → plan.file.isMoved = true →
    files.find? plan.file.finalPath = none ∨ files.find? plan.file.finalPath = some plan.file.text
  sole : ∀ plan other, .planned plan ∈ slots → .planned other ∈ slots →
    plan.file.isMoved = true → other.file.isMoved = true →
    plan.file.finalPath = other.file.finalPath → files.find? plan.file.finalPath = none →
      plan = other

theorem laid_slotsOf (table : Table) (honest : tree.Honest) :
    Laid tree.files (slotsOf table tree) where
  ordered := slotsOf_ordered table tree
  held := by
    intro plan member
    obtain ⟨target, _, text, follows⟩ := follows_of_mem_slotsOf member
    rw [follows.path]
    exact Memory.held_of_read follows.read
  landing := by
    intro plan member away
    obtain ⟨target, _, text, follows⟩ := follows_of_mem_slotsOf member
    cases written : plan.alreadyWritten with
    | false => exact .inl (follows.free away written)
    | true => exact .inr (honest (follows.written written).2.2)
  sole := by
    intro plan other member otherMember away otherAway same free
    obtain ⟨target, targetMember, slot⟩ := mem_slotsOf_iff.mp member
    obtain ⟨otherTarget, otherTargetMember, otherSlot⟩ := mem_slotsOf_iff.mp otherMember
    obtain ⟨planned, undisputed⟩ := slotOf_eq_planned_iff.mp slot
    obtain ⟨otherPlanned, _⟩ := slotOf_eq_planned_iff.mp otherSlot
    obtain ⟨_, follows⟩ := follows_of_planned planned
    obtain ⟨_, otherFollows⟩ := follows_of_planned otherPlanned
    have unwritten : plan.alreadyWritten = false := by
      cases written : plan.alreadyWritten with
      | false => rfl
      | true => exact absurd free (follows.written written).2.1
    have otherUnwritten : other.alreadyWritten = false := by
      cases written : other.alreadyWritten with
      | false => rfl
      | true => exact absurd (same ▸ free) (otherFollows.written written).2.1
    have few := undisputed.resolve_left (by simp [unwritten])
    have targets : target = otherTarget := by
      apply (claimants_le_one_iff (targets_nodup table tree) _).mp few target targetMember
        otherTarget otherTargetMember
      · rw [planned, claims_planned_iff]
        exact ⟨unwritten, rfl⟩
      · rw [otherPlanned, claims_planned_iff]
        exact ⟨otherUnwritten, same.symm⟩
    subst targets
    rw [planned] at otherPlanned
    cases otherPlanned
    rfl

theorem Laid.createDestinations {files : Dict Text} {slots : List Slot} (laid : Laid files slots)
    (tree : Memory) : Laid files (createDestinations tree slots).1 where
  ordered := laid.ordered.createDestinations tree
  held := fun plan member => laid.held plan (planned_of_createDestinations member)
  landing := fun plan member => laid.landing plan (planned_of_createDestinations member)
  sole := fun plan other member otherMember => laid.sole plan other
    (planned_of_createDestinations member) (planned_of_createDestinations otherMember)

theorem Laid.landed {files : Dict Text} {slots : List Slot} {plan : Planned} {text : Text}
    (laid : Laid files slots) (member : .planned plan ∈ slots) (away : plan.file.isMoved = true)
    (held : files.find? plan.file.finalPath = some text) : text = plan.file.text := by
  have landing := laid.landing plan member away
  rw [held] at landing
  simpa using landing

theorem Laid.agree {files : Dict Text} {slots : List Slot} {plan other : Planned}
    (laid : Laid files slots) (member : .planned plan ∈ slots)
    (otherMember : .planned other ∈ slots) (away : plan.file.isMoved = true)
    (otherAway : other.file.isMoved = true)
    (same : plan.file.finalPath = other.file.finalPath) : plan.file.text = other.file.text := by
  cases held : files.find? plan.file.finalPath with
  | none => rw [laid.sole plan other member otherMember away otherAway same held]
  | some text =>
    rw [← laid.landed member away held]
    rw [same] at held
    exact laid.landed otherMember otherAway held

end Slots

section Runs

variable {table : Table} {options : RunOptions} {tree : Memory}

def carryOut (options : RunOptions) (tree : Memory) (slots : List Slot) :
    List FileReport × Bool × Memory :=
  commitAll options false (createDestinations tree slots).2 (createDestinations tree slots).1

def Stops (table : Table) (options : RunOptions) (tree : Memory) : Prop :=
  options.dryRun = true ∨ options.failOnConflict = true ∧
    ∃ slot ∈ slotsOf table tree, slot.report.outcome.isProblem = true

private theorem run_of_unwalked {cause : TreeError} (failed : tree.walk = .error cause) :
    run table options tree = (.error (.walk cause), tree) := by
  simp only [run, Memory.tree_walk, failed]

private theorem run_of_stops (stops : Stops table options tree) : (run table options tree).2 =
    tree := by
  unfold run
  cases walked : tree.walk with
  | error cause => simp only [Memory.tree_walk, walked]
  | ok paths =>
    obtain rfl := Memory.walk_eq_ok walked
    simp only [Memory.tree_walk, walked, execute]
    rcases stops with dry | ⟨strict, problem⟩
    · simp only [dry, if_true]
    · have some : (slotsOf table tree).any (·.report.outcome.isProblem) = true :=
        List.any_eq_true.mpr problem
      unfold slotsOf at some
      cases options.dryRun <;> simp [strict, some]

theorem run_of_carriedOut (walked : tree.walk = .ok tree.paths)
    (goesOn : ¬Stops table options tree) :
    run table options tree =
      (.ok (Report.build
        (bystanders table tree.paths ++ (carryOut options tree (slotsOf table tree)).1) false
        options.failOnConflict (carryOut options tree (slotsOf table tree)).2.1),
        (carryOut options tree (slotsOf table tree)).2.2) := by
  obtain ⟨wet, quiet⟩ := not_or.mp goesOn
  have calm : ¬(options.failOnConflict = true ∧
      (slotsOf table tree).any (·.report.outcome.isProblem) = true) := by
    rw [List.any_eq_true]
    exact quiet
  simp only [run, Memory.tree_walk, walked, execute, if_neg wet]
  unfold slotsOf at calm
  rw [if_neg calm]
  rfl

theorem run_tree_cases (table : Table) (options : RunOptions) (tree : Memory) :
    (run table options tree).2 = tree ∨
      ¬Stops table options tree ∧
        (run table options tree).2 = (carryOut options tree (slotsOf table tree)).2.2 := by
  cases walked : tree.walk with
  | error cause =>
    rw [run_of_unwalked walked]
    exact .inl rfl
  | ok paths =>
    obtain rfl := Memory.walk_eq_ok walked
    by_cases stops : Stops table options tree
    · exact .inl (run_of_stops stops)
    · rw [run_of_carriedOut walked stops]
      exact .inr ⟨stops, rfl⟩

end Runs

section WithoutFaults

variable {options : RunOptions} {aborted : Bool} {tree : Memory} {slots before after : List Slot}
  {slot : Slot} {plan : Planned} {path : String} {text : Text}

/-- A tree without faults and slots that are still to be committed to it. -/
structure Ready (tree : Memory) (slots : List Slot) : Prop where
  calm : tree.Calm
  ordered : Ordered slots
  held : ∀ plan, .planned plan ∈ slots → tree.files.find? plan.file.path ≠ none
  idle : ∀ report, .settled report ∈ slots → report.outcome.isChange = false

theorem Ready.front (ready : Ready tree slots) (place : slots = before ++ after) :
    Ready tree before := by
  subst place
  refine ⟨ready.calm, ⟨(List.pairwise_append.mp ready.ordered.sorted).1, ?_⟩, ?_, ?_⟩
  · exact fun plan member => ready.ordered.named plan (List.mem_append_left _ member)
  · exact fun plan member => ready.held plan (List.mem_append_left _ member)
  · exact fun report member => ready.idle report (List.mem_append_left _ member)

theorem Ready.step (ready : Ready tree (slot :: slots)) (options : RunOptions) (aborted : Bool) :
    Ready (commitSlot options aborted tree slot).2.2 slots where
  calm := by
    rcases commitSlot_tree options aborted tree slot with same | ⟨plan, rfl, committed⟩
    · rw [same]
      exact ready.calm
    · rw [committed]
      exact (plan.file.faults_commit tree plan.changed).trans ready.calm
  ordered := ready.ordered.tail
  held := by
    intro plan member
    obtain ⟨text, found⟩ :=
      Option.ne_none_iff_exists'.mp (ready.held plan (List.mem_cons_of_mem _ member))
    rw [ready.ordered.held_behind options aborted member found]
    simp
  idle := fun report member => ready.idle report (List.mem_cons_of_mem _ member)

theorem Ready.back (ready : Ready tree slots) (options : RunOptions) (aborted : Bool)
    (place : slots = before ++ after) :
    Ready (commitAll options aborted tree before).2.2 after := by
  subst place
  induction before generalizing aborted tree with
  | nil => exact ready
  | cons slot before ih => exact ih _ (ready.step options aborted)

theorem Ready.turn (ready : Ready tree slots) (options : RunOptions) (aborted : Bool)
    (place : slots = before ++ .planned plan :: after) :
    let state := (commitAll options aborted tree before).2.2
    Turn state plan (commitSlot options false state (.planned plan)) := by
  have now := ready.back options aborted place
  exact turn_of_calm options now.calm (now.held plan List.mem_cons_self)

theorem Ready.changed (ready : Ready tree slots) {report : FileReport}
    (member : report ∈ (commitAll options false tree slots).1)
    (changed : report.outcome.isChange = true) :
    ∃ before plan after state turn, slots = before ++ .planned plan :: after ∧
      Turn state plan turn ∧ report = turn.1 ∧ Ready turn.2.2 after ∧
      (commitAll options false tree slots).2.2 =
        (commitAll options turn.2.1 turn.2.2 after).2.2 ∧
      ∀ late ∈ (commitAll options turn.2.1 turn.2.2 after).1,
        late ∈ (commitAll options false tree slots).1 := by
  obtain ⟨before, slot, after, place, rfl⟩ := mem_reports_iff.mp member
  have split := commitAll_split options false tree place
  dsimp only at split
  cases slot with
  | settled report =>
    have idle := ready.idle report (by simp [place])
    exact absurd changed (by simp [commitSlot, idle])
  | planned plan =>
    cases stopped : (commitAll options false tree before).2.1 with
    | true =>
      rw [stopped] at changed
      simp [commitSlot, Outcome.isChange] at changed
    | false =>
      rw [stopped] at split
      refine ⟨before, plan, after, _, _, place, ready.turn options false place, rfl, ?_, ?_, ?_⟩
      · exact (ready.back options false place).step options false
      · rw [split]
      · intro late lateMember
        rw [split]
        exact List.mem_append_right _ (List.mem_cons_of_mem _ lateMember)

/-- A run without faults that does not stop on conflicts gives every planned file its turn. -/
theorem Ready.reported (ready : Ready tree slots) (options : RunOptions)
    (goesOn : options.failOnConflict = false) (member : .planned plan ∈ slots) :
    ∃ before after turn, slots = before ++ .planned plan :: after ∧
      Turn (commitAll options false tree before).2.2 plan turn ∧
      turn.1 ∈ (commitAll options false tree slots).1 ∧
      (commitAll options false tree slots).2.2 =
        (commitAll options turn.2.1 turn.2.2 after).2.2 := by
  obtain ⟨before, after, place⟩ := List.append_of_mem member
  have split := commitAll_split options false tree place
  dsimp only at split
  rw [commitAll_aborted goesOn] at split
  refine ⟨before, after, _, place, ready.turn options false place, ?_, ?_⟩
  · rw [split]
    exact List.mem_append_right _ List.mem_cons_self
  · rw [split]

theorem Ready.arrival (ready : Ready tree slots) (options : RunOptions) (aborted : Bool)
    (absent : tree.files.find? path = none)
    (found : (commitAll options aborted tree slots).2.2.files.find? path = some text) :
    ∃ plan, .planned plan ∈ slots ∧ plan.file.finalPath = path ∧
      { plan.report with outcome := .moved } ∈ (commitAll options aborted tree slots).1 := by
  induction slots generalizing aborted tree with
  | nil =>
    rw [commitAll, absent] at found
    cases found
  | cons slot slots ih =>
    have step := ready.step options aborted
    have deeper : (commitSlot options aborted tree slot).2.2.files.find? path = none →
        ∃ plan, .planned plan ∈ slot :: slots ∧ plan.file.finalPath = path ∧
          { plan.report with outcome := .moved } ∈
            (commitAll options aborted tree (slot :: slots)).1 := by
      intro still
      obtain ⟨plan, member, final, reported⟩ := ih step _ still found
      exact ⟨plan, List.mem_cons_of_mem _ member, final, List.mem_cons_of_mem _ reported⟩
    cases slot with
    | settled report => exact deeper absent
    | planned plan =>
      cases aborted with
      | true => exact deeper absent
      | false =>
        have own := ready.held plan List.mem_cons_self
        have elsewhere : path ≠ plan.file.path := fun same => own (same ▸ absent)
        cases turn_of_calm options ready.calm own with
        | moved _ _ reported files =>
          by_cases final : plan.file.finalPath = path
          · refine ⟨plan, List.mem_cons_self, final, ?_⟩
            rw [← reported]
            exact List.mem_cons_self
          · refine deeper ?_
            rw [files, if_neg elsewhere, if_neg (Ne.symm final)]
            exact absent
        | conflict _ _ _ _ _ _ same =>
          refine deeper ?_
          rw [same]
          exact absent
        | rewritten _ _ _ files =>
          refine deeper ?_
          rw [files, Dict.find?_insert, if_neg elsewhere]
          exact absent
        | unchanged _ _ _ same =>
          refine deeper ?_
          rw [same]
          exact absent

theorem Ready.kept (ready : Ready tree slots) (options : RunOptions) (aborted : Bool)
    (held : tree.files.find? path = some text)
    (idle : ∀ report ∈ (commitAll options aborted tree slots).1, report.path = path →
      report.outcome.isChange = false) :
    (commitAll options aborted tree slots).2.2.files.find? path = some text := by
  by_cases owned : Owned slots path
  · obtain ⟨plan, member, own⟩ := owned
    obtain ⟨before, after, place⟩ := List.append_of_mem member
    obtain ⟨notBefore, notAfter⟩ := ready.ordered.not_owned place
    rw [own] at notBefore notAfter
    have waited : (commitAll options aborted tree before).2.2.files.find? path = some text :=
      commitAll_keeps options aborted held notBefore
    rw [commitAll_split options aborted tree place]
    refine commitAll_keeps options _ ?_ notAfter
    cases stopped : (commitAll options aborted tree before).2.1 with
    | true => exact waited
    | false =>
      have reported := idle _ (mem_reports_iff.mpr ⟨before, _, after, place, rfl⟩) (by
        rw [path_commitSlot, Slot.report, ready.ordered.named plan member, own])
      rw [stopped] at reported
      cases ready.turn options aborted place with
      | moved _ _ moved _ =>
        rw [moved] at reported
        cases reported
      | conflict _ _ _ _ _ _ same =>
        rw [same]
        exact waited
      | rewritten _ _ rewritten _ =>
        rw [rewritten] at reported
        cases reported
      | unchanged _ _ _ same =>
        rw [same]
        exact waited
  · exact commitAll_keeps options aborted held owned

theorem Ready.files_of_idle (ready : Ready tree slots) (options : RunOptions)
    (idle : ∀ report ∈ (commitAll options false tree slots).1,
      report.outcome.isChange = false) :
    (commitAll options false tree slots).2.2.files = tree.files := by
  apply Dict.ext_find?
  intro path
  cases held : tree.files.find? path with
  | some text => exact ready.kept options false held fun report member _ => idle report member
  | none =>
    cases found : (commitAll options false tree slots).2.2.files.find? path with
    | none => rfl
    | some text =>
      obtain ⟨plan, _, _, reported⟩ := ready.arrival options false held found
      have contrary := idle _ reported
      cases contrary

theorem ready_of_calm (table : Table) (calm : tree.Calm) :
    Ready (createDestinations tree (slotsOf table tree)).2 (slotsOf table tree) where
  calm := (faults_createDestinations tree _).trans calm
  ordered := slotsOf_ordered table tree
  held := by
    intro plan member
    obtain ⟨target, _, text, follows⟩ := follows_of_mem_slotsOf member
    rw [files_createDestinations, follows.path]
    exact Memory.held_of_read follows.read
  idle := fun _ => isChange_of_settled

theorem carryOut_of_calm (table : Table) (options : RunOptions) (calm : tree.Calm) :
    carryOut options tree (slotsOf table tree) =
      commitAll options false (createDestinations tree (slotsOf table tree)).2
        (slotsOf table tree) := by
  rw [carryOut, createDestinations_of_calm calm]

end WithoutFaults

section Reports

variable {table : Table} {options : RunOptions} {tree : Memory}

theorem mem_units_build {reports : List FileReport} {dryRun failOnConflict aborted : Bool}
    {unit : FileReport} :
    unit ∈ (Report.build reports dryRun failOnConflict aborted).units ↔ unit ∈ reports :=
  List.mem_mergeSort

theorem skipped_of_mem_bystanders {paths : List String} {unit : FileReport}
    (member : unit ∈ bystanders table paths) : ∃ reason, unit.outcome = .skipped reason := by
  obtain ⟨part, partMember, left⟩ := List.mem_filterMap.mp member
  obtain ⟨path, _, rfl⟩ := List.mem_map.mp partMember
  unfold enlist at left
  split at left
  · cases left
    exact ⟨_, rfl⟩
  · split at left
    · cases left
    · cases left
      exact ⟨_, rfl⟩

theorem isChange_of_mem_bystanders {paths : List String} {unit : FileReport}
    (member : unit ∈ bystanders table paths) : unit.outcome.isChange = false := by
  obtain ⟨reason, skipped⟩ := skipped_of_mem_bystanders member
  rw [skipped]
  rfl

end Reports

end Repackage.Run
