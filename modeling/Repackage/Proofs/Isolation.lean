import Repackage.Proofs.Reports

/-!
Failures stay with the files they hit. The plan and the commit of a file look at its own path and
its destination only, and nothing else of the run touches these when no other file has them. So a
file that no fault names comes out of a run with faults as it comes out of one without.
-/

set_option autoImplicit false
set_option relaxedAutoImplicit false

namespace Repackage

/-- No operation on a path is made to fail. -/
structure Faults.Spares (faults : Faults) (path : String) : Prop where
  read : faults.read.find? path = none
  write : faults.write.find? path = none
  remove : faults.remove.find? path = none
  copyPermissions : faults.copyPermissions.find? path = none
  readBack : faults.readBack.find? path = none
  corrupt : faults.corrupt.find? path = none

namespace Memory

/-- Two trees have the same texts at some paths, and no fault is set on these. -/
structure Alike (paths : List String) (first second : Memory) : Prop where
  files : ∀ path ∈ paths, first.files.find? path = second.files.find? path
  spared : ∀ path ∈ paths, first.faults.Spares path ∧ second.faults.Spares path

section Operations

variable {paths : List String} {first second tree : Memory} {path : String}

private theorem read_of_spared (spared : tree.faults.Spares path) :
    tree.read path = (tree.files.find? path).elim (.error (.missing path)) .ok := by
  unfold Memory.read
  rw [spared.read, spared.readBack, spared.corrupt]
  cases tree.files.find? path with
  | none => rfl
  | some text => simp only [ite_self, Option.elim_some]

theorem Alike.read (alike : Alike paths first second) (member : path ∈ paths) :
    first.read path = second.read path := by
  obtain ⟨left, right⟩ := alike.spared path member
  rw [read_of_spared left, read_of_spared right, alike.files path member]

theorem Alike.contains (alike : Alike paths first second) (member : path ∈ paths) :
    first.files.contains path = second.files.contains path := by
  rw [Dict.contains, Dict.contains, alike.files path member]

theorem Alike.perform (alike : Alike paths first second) (call : TreeCall)
    (same : ∀ other ∈ paths, (first.perform call).files.find? other =
      (second.perform call).files.find? other) :
    Alike paths (first.perform call) (second.perform call) := by
  refine ⟨same, ?_⟩
  rw [faults_perform, faults_perform]
  exact alike.spared

private theorem write_of_spared (spared : tree.faults.Spares path) (text : Text) :
    (tree.write path text).1 = .ok () ∧
      (tree.write path text).2.files = tree.files.insert path text := by
  simp only [Memory.write, faults_record, files_record, spared.write, and_self]

theorem Alike.write (alike : Alike paths first second) (member : path ∈ paths) (text : Text) :
    (first.write path text).1 = (second.write path text).1 ∧
      Alike paths (first.write path text).2 (second.write path text).2 := by
  obtain ⟨left, right⟩ := alike.spared path member
  obtain ⟨leftResult, leftFiles⟩ := write_of_spared left text
  obtain ⟨rightResult, rightFiles⟩ := write_of_spared right text
  refine ⟨leftResult.trans rightResult.symm, alike.perform (.write path text) ?_⟩
  intro other otherMember
  simp only [Memory.perform, leftFiles, rightFiles, Dict.find?_insert,
    alike.files other otherMember]

theorem Alike.remove (alike : Alike paths first second) (member : path ∈ paths) :
    (first.remove path).1 = (second.remove path).1 ∧
      Alike paths (first.remove path).2 (second.remove path).2 := by
  obtain ⟨left, right⟩ := alike.spared path member
  have held := alike.contains member
  cases present : second.files.contains path with
  | false =>
    rw [present] at held
    refine ⟨?_, alike.perform (.remove path) fun other otherMember => ?_⟩
    · simp [Memory.remove, left.remove, right.remove, held, present]
    · simpa [Memory.perform, Memory.remove, left.remove, right.remove, held, present] using
        alike.files other otherMember
  | true =>
    rw [present] at held
    refine ⟨?_, alike.perform (.remove path) fun other otherMember => ?_⟩
    · simp [Memory.remove, left.remove, right.remove, held, present]
    · simp [Memory.perform, Memory.remove, left.remove, right.remove, held, present,
        Dict.find?_erase, alike.files other otherMember]

theorem Alike.copyPermissions (alike : Alike paths first second) (source : String)
    (member : path ∈ paths) :
    (first.copyPermissions source path).1 = (second.copyPermissions source path).1 ∧
      Alike paths (first.copyPermissions source path).2 (second.copyPermissions source path).2 := by
  obtain ⟨left, right⟩ := alike.spared path member
  have results : (first.copyPermissions source path).1 =
      (second.copyPermissions source path).1 := by
    simp only [Memory.copyPermissions, faults_record, left.copyPermissions, right.copyPermissions]
  refine ⟨results, alike.perform (.copyPermissions source path) ?_⟩
  intro other otherMember
  simp only [Memory.perform, files_copyPermissions, alike.files other otherMember]

end Operations

end Memory

namespace SourceFile

variable {paths : List String} {first second : Memory} {file : SourceFile}

private theorem checkDestination_alike (alike : Memory.Alike paths first second)
    (final : file.finalPath ∈ paths) :
    file.checkDestination first = file.checkDestination second := by
  simp only [checkDestination, Memory.tree_holds, Memory.tree_read, alike.contains final,
    alike.read final]

private theorem writeVerified_alike (alike : Memory.Alike paths first second) {path : String}
    (member : path ∈ paths) (text : Text) :
    (writeVerified first path text).1 = (writeVerified second path text).1 ∧
      Memory.Alike paths (writeVerified first path text).2 (writeVerified second path text).2 := by
  obtain ⟨results, after⟩ := alike.write member text
  unfold writeVerified
  simp only [Memory.tree_write, Memory.tree_read]
  rcases left : first.write path text with ⟨result, next⟩
  rcases right : second.write path text with ⟨other, otherNext⟩
  rw [left, right] at results after
  dsimp only at results after
  subst results
  cases result with
  | error cause => exact ⟨rfl, after⟩
  | ok done =>
    dsimp only
    rw [after.read member]
    cases otherNext.read path <;> exact ⟨rfl, after⟩

private theorem finishMove_alike (alike : Memory.Alike paths first second) (own : file.path ∈ paths)
    (final : file.finalPath ∈ paths) :
    (file.finishMove first).1 = (file.finishMove second).1 ∧
      Memory.Alike paths (file.finishMove first).2 (file.finishMove second).2 := by
  obtain ⟨results, after⟩ := alike.copyPermissions file.path final
  unfold finishMove
  simp only [Memory.tree_copyPermissions, Memory.tree_remove]
  rcases left : first.copyPermissions file.path file.finalPath with ⟨result, next⟩
  rcases right : second.copyPermissions file.path file.finalPath with ⟨other, otherNext⟩
  rw [left, right] at results after
  dsimp only at results after
  subst results
  cases result with
  | error cause => exact ⟨rfl, after⟩
  | ok done =>
    dsimp only
    obtain ⟨removals, rest⟩ := after.remove own
    rcases left : next.remove file.path with ⟨result, last⟩
    rcases right : otherNext.remove file.path with ⟨other, otherLast⟩
    rw [left, right] at removals rest
    dsimp only at removals rest
    subst removals
    cases result <;> exact ⟨rfl, rest⟩

private theorem move_alike (alike : Memory.Alike paths first second) (own : file.path ∈ paths)
    (final : file.finalPath ∈ paths) :
    (file.move first).1 = (file.move second).1 ∧
      Memory.Alike paths (file.move first).2 (file.move second).2 := by
  unfold move
  rw [checkDestination_alike alike final]
  cases file.checkDestination second with
  | error failure => exact ⟨rfl, alike⟩
  | ok destination =>
    cases destination with
    | alreadyWritten => exact finishMove_alike alike own final
    | free =>
      dsimp only
      obtain ⟨results, after⟩ := writeVerified_alike alike final file.text
      rcases left : writeVerified first file.finalPath file.text with ⟨result, next⟩
      rcases right : writeVerified second file.finalPath file.text with ⟨other, otherNext⟩
      rw [left, right] at results after
      dsimp only at results after
      subst results
      cases result with
      | ok done => exact finishMove_alike after own final
      | error failure =>
        cases failure with
        | readBackMismatch path => exact ⟨rfl, (after.remove final).2⟩
        | ambiguous _ | conflict _ | tree _ _ _ | misplacedEdit => exact ⟨rfl, after⟩

private theorem commit_alike (alike : Memory.Alike paths first second) (own : file.path ∈ paths)
    (final : file.finalPath ∈ paths) (changed : Bool) :
    (file.commit first changed).1 = (file.commit second changed).1 ∧
      Memory.Alike paths (file.commit first changed).2 (file.commit second changed).2 := by
  unfold commit
  split
  · exact move_alike alike own final
  · split
    · unfold rewriteInPlace
      obtain ⟨results, after⟩ := writeVerified_alike alike own file.text
      rcases left : writeVerified first file.path file.text with ⟨result, next⟩
      rcases right : writeVerified second file.path file.text with ⟨other, otherNext⟩
      rw [left, right] at results after
      dsimp only at results after
      subst results
      cases result <;> exact ⟨rfl, after⟩
    · exact ⟨rfl, alike⟩

end SourceFile

namespace Run

section Plans

variable {table : Table} {first second : Memory} {target : Target}

private theorem planFile_alike (alike : Memory.Alike [target.path, target.destination] first second)
    (file : SourceFile) (report : FileReport) :
    planFile first table target file report = planFile second table target file report := by
  unfold planFile
  cases file.qualify table (some target.package) with
  | error failure => rfl
  | ok pair =>
    obtain ⟨qualified, result⟩ := pair
    dsimp only
    cases qualified.reconcile result.imports with
    | error failure => rfl
    | ok pair =>
      obtain ⟨reconciled, added⟩ := pair
      dsimp only
      rcases relocating : reconciled.relocate target.package target.destination with
        ⟨failure | change, relocated⟩
      · rfl
      · have final : relocated.finalPath = target.destination := by
          simp [SourceFile.finalPath, (SourceFile.relocate_place relocating).2]
        have member : relocated.finalPath ∈ [target.path, target.destination] := by
          simp [final]
        simp only [settle, SourceFile.checkDestination_alike alike member]

private theorem planTarget_alike
    (alike : Memory.Alike [target.path, target.destination] first second) :
    planTarget table first target = planTarget table second target := by
  have same : readTarget first target = readTarget second target := by
    simp only [readTarget, Memory.tree_read, alike.read List.mem_cons_self]
  unfold planTarget
  rw [same]
  cases readTarget second target with
  | error failure => rfl
  | ok file => exact planFile_alike alike file _

private theorem slotOf_of_sole {all : List Target} (nodup : all.Nodup) (tree : Memory)
    (alone : ∀ other ∈ all, other ≠ target → other.destination ≠ target.destination) :
    slotOf table tree all target = planTarget table tree target := by
  cases planned : planTarget table tree target with
  | settled report => simp only [slotOf, planned, dispute]
  | planned plan =>
    refine slotOf_eq_planned_iff.mpr ⟨planned, .inr ?_⟩
    obtain ⟨_, follows⟩ := follows_of_planned planned
    refine claimants_le_one_of_sole nodup target fun other member draft drafted _ same => ?_
    obtain ⟨_, draftFollows⟩ := follows_of_planned drafted
    by_contra different
    refine alone other member different ?_
    rw [← draftFollows.final, same, follows.final]

end Plans

section Directories

variable {tree : Memory}

private theorem lookup_createAll (tree : Memory) (dirs : List String) {dir : String}
    (makable : tree.faults.createDirs.find? dir = none) :
    (createAll tree dirs).1.lookup dir = none := by
  induction dirs generalizing tree with
  | nil => rfl
  | cons head dirs ih =>
    have faults : (tree.createDirs head).2.faults = tree.faults :=
      tree.faults_perform (.createDirs head)
    have rest := ih (tree.createDirs head).2 (by rw [faults, makable])
    simp only [createAll, Memory.tree_createDirs]
    rcases made : tree.createDirs head with ⟨cause | ⟨⟩, next⟩
    · rw [made] at rest
      have different : dir ≠ head := by
        rintro rfl
        simp [Memory.createDirs, makable] at made
      have other : (dir == head) = false := by simpa using different
      rw [List.lookup_cons, other]
      exact rest
    · rw [made] at rest
      exact rest

private theorem strand_of_makable (dirs : List String) {slot : Slot}
    (makable : ∀ plan, slot = .planned plan →
      tree.faults.createDirs.find? plan.file.finalDir = none) :
    strand (createAll tree dirs).1 slot = slot := by
  cases slot with
  | settled report => rfl
  | planned plan => simp only [strand, lookup_createAll tree dirs (makable plan rfl)]

end Directories

section Runs

variable {table : Table} {tree : Memory} {target : Target}

/-- The path and the destination of a target are no other target's. -/
def Alone (table : Table) (tree : Memory) (target : Target) : Prop :=
  ∀ other ∈ targets table tree.paths, other ≠ target →
    other.path ≠ target.destination ∧ other.destination ≠ target.path ∧
      other.destination ≠ target.destination

def Foreign (table : Table) (tree : Memory) (target : Target) (plan : Planned) : Prop :=
  ∃ other ∈ targets table tree.paths, other ≠ target ∧ plan.file.path = other.path ∧
    plan.file.finalPath = other.destination

/-- A target that has its paths to itself has the slot that it is planned, and the slots on both
sides belong to other targets. -/
theorem Alone.slots (alone : Alone table tree target)
    (member : target ∈ targets table tree.paths)
    (makable : tree.faults.createDirs.find? (Path.parent target.destination) = none) :
    ∃ before after, (createDestinations tree (slotsOf table tree)).1 =
        before ++ planTarget table tree target :: after ∧
      (∀ plan, .planned plan ∈ before → Foreign table tree target plan) ∧
      ∀ plan, .planned plan ∈ after → Foreign table tree target plan := by
  have nodup := targets_nodup table tree
  obtain ⟨before, after, place⟩ := List.append_of_mem member
  let failed := (createAll tree (destinationDirs (slotsOf table tree))).1
  let slotAt := fun other => strand failed (slotOf table tree (targets table tree.paths) other)
  have slots : (createDestinations tree (slotsOf table tree)).1 =
      (targets table tree.paths).map slotAt := by
    have stranded : (createDestinations tree (slotsOf table tree)).1 =
        (slotsOf table tree).map (strand failed) := rfl
    rw [stranded, slotsOf, planAll_eq_map, List.map_map]
    rfl
  have own : slotAt target = planTarget table tree target := by
    have kept : slotOf table tree (targets table tree.paths) target =
        planTarget table tree target :=
      slotOf_of_sole nodup tree fun other otherMember different =>
        (alone other otherMember different).2.2
    simp only [slotAt, kept]
    refine strand_of_makable _ fun plan planned => ?_
    obtain ⟨_, follows⟩ := follows_of_planned planned
    rw [SourceFile.finalDir, follows.final]
    exact makable
  have foreign : ∀ {part : List Target},
      (∀ other ∈ part, other ∈ targets table tree.paths ∧ other ≠ target) →
        ∀ plan, .planned plan ∈ part.map slotAt → Foreign table tree target plan := by
    intro part others plan planned
    obtain ⟨other, otherMember, stranded⟩ := List.mem_map.mp planned
    have slot := (slotOf_eq_planned_iff.mp (planned_of_strand stranded)).1
    obtain ⟨_, follows⟩ := follows_of_planned slot
    obtain ⟨listed, different⟩ := others other otherMember
    exact ⟨other, listed, different, follows.path, follows.final⟩
  have apart := nodup
  rw [place, List.nodup_append] at apart
  refine ⟨before.map slotAt, after.map slotAt, ?_, foreign ?_, foreign ?_⟩
  · rw [slots, ← own]
    conv_lhs => rw [place]
    rw [List.map_append, List.map_cons]
  · intro other otherMember
    exact ⟨by simp [place, otherMember], apart.2.2 other otherMember target List.mem_cons_self⟩
  · intro other otherMember
    refine ⟨by simp [place, otherMember], fun same => ?_⟩
    exact (List.nodup_cons.mp apart.2.1).1 (same ▸ otherMember)

private theorem Alone.commitAll_find? (alone : Alone table tree target)
    (member : target ∈ targets table tree.paths) {slots : List Slot}
    (others : ∀ plan, .planned plan ∈ slots → Foreign table tree target plan)
    (options : RunOptions) (aborted : Bool) (state : Memory) {path : String}
    (concerned : path ∈ [target.path, target.destination]) :
    (commitAll options aborted state slots).2.2.files.find? path = state.files.find? path := by
  refine commitAll_preserves options aborted
    (fun now => now.files.find? path = state.files.find? path) ?_ rfl
  intro plan planned now same
  obtain ⟨other, otherMember, different, own, final⟩ := others plan planned
  obtain ⟨notFinal, awayFromOwn, awayFromFinal⟩ := alone other otherMember different
  have notOwn : other.path ≠ target.path := fun equal =>
    different (target_eq_of_path otherMember member equal)
  rw [← same]
  simp only [List.mem_cons, List.not_mem_nil, or_false] at concerned
  rcases concerned with rfl | rfl
  · exact plan.file.commit_find?_other now plan.changed (own ▸ notOwn.symm)
      (final ▸ awayFromOwn.symm)
  · exact plan.file.commit_find?_other now plan.changed (own ▸ notFinal.symm)
      (final ▸ awayFromFinal.symm)

theorem Alone.run (alone : Alone table tree target)
    (member : target ∈ targets table tree.paths) (walks : tree.faults.walk = none)
    (makable : tree.faults.createDirs.find? (Path.parent target.destination) = none) :
    ∃ (report : Report) (state : Memory), (run table {} tree).1 = .ok report ∧
      state.faults = tree.faults ∧
      (∀ path ∈ [target.path, target.destination],
        state.files.find? path = tree.files.find? path ∧
        (run table {} tree).2.files.find? path =
          (commitSlot {} false state (planTarget table tree target)).2.2.files.find? path) ∧
      report.unit? target.path =
        some (commitSlot {} false state (planTarget table tree target)).1 := by
  have walked : tree.walk = .ok tree.paths := by
    simp only [Memory.walk, walks]
    rfl
  have carried := run_of_carriedOut walked (show ¬Stops table {} tree by simp [Stops])
  obtain ⟨before, after, slots, earlier, later⟩ := alone.slots member makable
  let ready := (createDestinations tree (slotsOf table tree)).2
  let state := (commitAll {} false ready before).2.2
  have split := commitAll_split {} false ready slots
  dsimp only at split
  rw [commitAll_aborted rfl] at split
  refine ⟨_, state, by rw [carried], ?_, ?_, ?_⟩
  · have untouched := faults_createDestinations tree (slotsOf table tree)
    refine commitAll_preserves {} false (fun now => now.faults = tree.faults) ?_ untouched
    intro plan _ now same
    rw [SourceFile.faults_commit, same]
  · intro path concerned
    refine ⟨?_, ?_⟩
    · rw [alone.commitAll_find? member earlier {} false ready concerned]
      exact congrArg (·.find? path) (files_createDestinations tree (slotsOf table tree))
    · rw [carried, carryOut, split]
      exact alone.commitAll_find? member later {} _ _ concerned
  · have reported : (commitSlot {} false state (planTarget table tree target)).1 ∈
        bystanders table tree.paths ++ (carryOut {} tree (slotsOf table tree)).1 := by
      rw [carryOut, split]
      simp [state]
    have distinct := distinct_paths table tree (.of_eq (paths_carryOut table {} tree))
    have path := path_commitSlot {} false state (planTarget table tree target)
    rw [path_planTarget] at path
    rw [← Report.unit?_build distinct reported, path]

end Runs

/-- A file whose path and destination no fault names and no other file has, and whose directory can
be made, is reported as in a run without faults, and its path and its destination have the same
texts. -/
theorem failures_isolated (table : Table) (tree : Memory) (faults : Faults)
    (walks : faults.walk = none) (target : Target)
    (member : target ∈ targets table tree.paths)
    (spared : faults.Spares target.path ∧ faults.Spares target.destination)
    (makable : faults.createDirs.find? (Path.parent target.destination) = none)
    (alone : Alone table tree target) :
    ∃ report calmReport unit,
      (run table {} (tree.restart faults)).1 = .ok report ∧
      (run table {} (tree.restart {})).1 = .ok calmReport ∧
      report.unit? target.path = some unit ∧ calmReport.unit? target.path = some unit ∧
      ∀ path, path = target.path ∨ path = target.destination →
        (run table {} (tree.restart faults)).2.files.find? path =
          (run table {} (tree.restart {})).2.files.find? path := by
  have none : ∀ path, ({} : Faults).Spares path := fun path => ⟨rfl, rfl, rfl, rfl, rfl, rfl⟩
  have both : ∀ {first second : Memory}, first.faults = faults → second.faults = {} →
      (∀ path ∈ [target.path, target.destination],
        first.files.find? path = second.files.find? path) →
      Memory.Alike [target.path, target.destination] first second := by
    intro first second faulty calm same
    refine ⟨same, fun path concerned => ?_⟩
    rw [faulty, calm]
    simp only [List.mem_cons, List.not_mem_nil, or_false] at concerned
    rcases concerned with rfl | rfl
    · exact ⟨spared.1, none _⟩
    · exact ⟨spared.2, none _⟩
  obtain ⟨report, state, done, stateFaults, paths, reported⟩ :=
    @Alone.run table (tree.restart faults) target alone member walks makable
  obtain ⟨calmReport, calmState, calmDone, calmFaults, calmPaths, calmReported⟩ :=
    @Alone.run table (tree.restart {}) target alone member rfl rfl
  have start : Memory.Alike [target.path, target.destination] (tree.restart faults)
      (tree.restart {}) := both rfl rfl fun _ _ => rfl
  have turn : Memory.Alike [target.path, target.destination] state calmState :=
    both stateFaults calmFaults fun path concerned =>
      (paths path concerned).1.trans (calmPaths path concerned).1.symm
  rw [planTarget_alike start] at paths reported
  have slot : (commitSlot {} false state (planTarget table (tree.restart {}) target)).1 =
        (commitSlot {} false calmState (planTarget table (tree.restart {}) target)).1 ∧
      Memory.Alike [target.path, target.destination]
        (commitSlot {} false state (planTarget table (tree.restart {}) target)).2.2
        (commitSlot {} false calmState (planTarget table (tree.restart {}) target)).2.2 := by
    cases planned : planTarget table (tree.restart {}) target with
    | settled settled => exact ⟨rfl, turn⟩
    | planned plan =>
      obtain ⟨_, follows⟩ := follows_of_planned planned
      obtain ⟨results, after⟩ := SourceFile.commit_alike turn
        (by rw [follows.path]; simp) (by rw [follows.final]; simp) plan.changed
      simp only [commitSlot, Bool.false_eq_true, if_false]
      rcases left : plan.file.commit state plan.changed with ⟨result, next⟩
      rcases right : plan.file.commit calmState plan.changed with ⟨other, otherNext⟩
      rw [left, right] at results after
      dsimp only at results after
      subst results
      cases result <;> exact ⟨rfl, after⟩
  refine ⟨report, calmReport, _, done, calmDone, reported, slot.1 ▸ calmReported, ?_⟩
  intro path concerned
  have listed : path ∈ [target.path, target.destination] := by simpa using concerned
  rw [(paths path listed).2, (calmPaths path listed).2, slot.2.files path listed]

def partingTable : Table where
  modulePath := "m"
  packages := Dict.ofList [("d", ⟨"d", "d", "m/d"⟩), ("e", ⟨"e", "e", "m/e"⟩)]
  files := Dict.ofList [("a/x.go", "d"), ("a/y.go", "e")]
  symbols := []
  excludes := []
  includeTests := true

def partingTree : Memory :=
  .ofFiles [("a/x.go", "package a\n".toList), ("a/y.go", "package a\n".toList)]

/-- The first file cannot be written and its directory cannot be made. The second does not
notice. -/
theorem parting_isolated :
    let faults : Faults :=
      { write := Dict.ofList [("d/x.go", "no space")],
        createDirs := Dict.ofList [("d", "read only")] }
    let target : Target := ⟨"a/y.go", ⟨"e", "e", "m/e"⟩, "e/y.go"⟩
    target ∈ targets partingTable partingTree.paths ∧
      Alone partingTable partingTree target ∧
      ∃ report unit, (run partingTable {} (partingTree.restart faults)).1 = .ok report ∧
        report.unit? "a/y.go" = some unit ∧
        (run partingTable {} (partingTree.restart faults)).2.files.find? "e/y.go" =
          (run partingTable {} (partingTree.restart {})).2.files.find? "e/y.go" := by
  intro faults target
  have member : target ∈ targets partingTable partingTree.paths := by decide +kernel
  have alone : Alone partingTable partingTree target := by
    have apart : ∀ other ∈ targets partingTable partingTree.paths, other ≠ target →
        other.path ≠ target.destination ∧ other.destination ≠ target.path ∧
          other.destination ≠ target.destination := by
      decide +kernel
    exact apart
  have spared : faults.Spares target.path ∧ faults.Spares target.destination :=
    ⟨⟨rfl, by decide +kernel, rfl, rfl, rfl, rfl⟩, ⟨rfl, by decide +kernel, rfl, rfl, rfl, rfl⟩⟩
  obtain ⟨report, _, unit, done, _, found, _, same⟩ :=
    failures_isolated partingTable partingTree faults rfl target member spared
      (by decide +kernel) alone
  exact ⟨member, alone, report, unit, done, found, same _ (.inr rfl)⟩

end Run

end Repackage
