import Repackage.Proofs.Commit
import Repackage.Run

/-!
The plan of a run. What a file becomes is decided by its path and its text alone; the tree comes in
only when the destination is looked at. A slot of the plan is therefore known from the final file of
its target, from what the destination holds, and from whether another slot writes there too.
-/

set_option autoImplicit false
set_option relaxedAutoImplicit false

namespace Repackage

namespace SourceFile

private theorem edit_place {file edited : SourceFile} {edits : List Edit} {changed : Bool}
    (done : file.edit edits = .ok (edited, changed)) :
    edited.path = file.path ∧ edited.destination = file.destination := by
  rcases edit_cases done with rfl | ⟨text, taken⟩
  · exact ⟨rfl, rfl⟩
  · unfold withText at taken
    cases scanned : Span.scan text with
    | error cause =>
      rw [scanned] at taken
      cases taken
    | ok spans =>
      rw [scanned] at taken
      cases taken
      exact ⟨rfl, rfl⟩

private theorem qualify_place {file qualified : SourceFile} {table : Table} {home : Option Package}
    {result : Qualification} (done : file.qualify table home = .ok (qualified, result)) :
    qualified.path = file.path ∧ qualified.destination = file.destination := by
  obtain ⟨edits, changed, spliced⟩ := exists_edit_of_qualify done
  exact edit_place spliced

private theorem reconcile_place {file reconciled : SourceFile} {required added : List Import}
    (done : file.reconcile required = .ok (reconciled, added)) :
    reconciled.path = file.path ∧ reconciled.destination = file.destination := by
  rcases reconcile_cases done with rfl | ⟨edit, changed, spliced⟩
  · exact ⟨rfl, rfl⟩
  · exact edit_place spliced

theorem relocate_place {file relocated : SourceFile} {package : Package} {destination : String}
    {change : Option PackageChange}
    (done : file.relocate package destination = (.ok change, relocated)) :
    relocated.path = file.path ∧ relocated.destination = some destination := by
  unfold relocate renameClause at done
  dsimp only at done
  split at done
  · cases done
  · next renamed setting =>
    cases done
    split at setting
    · cases setting
      exact ⟨rfl, rfl⟩
    · split at setting
      · cases setting
      · next edited _ spliced =>
        cases setting
        exact edit_place spliced

theorem parse_place {path : String} {text : Text} {file : SourceFile}
    (parsed : parse path text = .ok file) : file.path = path ∧ file.text = text := by
  unfold parse at parsed
  cases scanned : Span.scan text with
  | error cause =>
    rw [scanned] at parsed
    cases parsed
  | ok spans =>
    rw [scanned] at parsed
    cases parsed
    exact ⟨rfl, rfl⟩

end SourceFile

namespace Run

/-- The file of a target with its final text, made from the text that was read. There is none when
the text cannot be classified or a stage fails on it. -/
def revise (table : Table) (target : Target) (text : Text) : Option SourceFile :=
  match SourceFile.parse target.path text with
  | .error _ => none
  | .ok parsed =>
    let file : SourceFile := { parsed with destination := some target.destination }
    match file.qualify table (some target.package) with
    | .error _ => none
    | .ok (qualified, result) =>
      match qualified.reconcile result.imports with
      | .error _ => none
      | .ok (reconciled, _) =>
        match reconciled.relocate target.package target.destination with
        | (.error _, _) => none
        | (.ok _, relocated) => some relocated

theorem revise_place {table : Table} {target : Target} {text : Text} {file : SourceFile}
    (revised : revise table target text = some file) :
    file.path = target.path ∧ file.finalPath = target.destination := by
  unfold revise at revised
  split at revised
  · cases revised
  · next parsed parsing =>
    dsimp only at revised
    split at revised
    · cases revised
    · next qualified result qualifying =>
      split at revised
      · cases revised
      · next reconciled _ reconciling =>
        split at revised
        · cases revised
        · next relocating =>
          cases revised
          obtain ⟨path, destination⟩ := SourceFile.relocate_place relocating
          refine ⟨?_, by simp [SourceFile.finalPath, destination]⟩
          rw [path, (SourceFile.reconcile_place reconciling).1,
            (SourceFile.qualify_place qualifying).1]
          exact (SourceFile.parse_place parsing).1

theorem revise_isMoved_iff {table : Table} {target : Target} {text : Text} {file : SourceFile}
    (revised : revise table target text = some file) :
    file.isMoved = true ↔ target.destination ≠ target.path := by
  obtain ⟨path, final⟩ := revise_place revised
  simp [SourceFile.isMoved, path, final]

theorem isChange_outcomeOf (failure : Failure) (reached : Stage) :
    (outcomeOf failure reached).isChange = false := by
  cases failure with
  | ambiguous cause =>
    simp only [outcomeOf]
    split <;> rfl
  | conflict _ | tree _ _ _ | readBackMismatch _ | misplacedEdit => rfl

section Stages

variable {table : Table} {tree : Memory} {target : Target} {text : Text}

theorem planTarget_of_unreadable (table : Table) {cause : TreeError}
    (unreadable : tree.read target.path = .error cause) :
    ∃ report, planTarget table tree target = .settled report ∧ report.path = target.path ∧
      report.outcome.isChange = false := by
  simp only [planTarget, readTarget, Memory.tree_read, unreadable, stopped]
  exact ⟨_, rfl, rfl, isChange_outcomeOf (.tree .discovered target.path cause) .discovered⟩

theorem planTarget_of_failed (read : tree.read target.path = .ok text)
    (failed : revise table target text = none) :
    ∃ report, planTarget table tree target = .settled report ∧ report.path = target.path ∧
      report.outcome.isChange = false := by
  unfold revise at failed
  unfold planTarget readTarget
  rw [Memory.tree_read, read]
  dsimp only
  cases parsed : SourceFile.parse target.path text with
  | error cause => exact ⟨_, rfl, rfl, isChange_outcomeOf (.ambiguous cause) .discovered⟩
  | ok file =>
    rw [parsed] at failed
    dsimp only [planFile] at failed ⊢
    generalize ({ file with destination := some target.destination } : SourceFile) = started
      at failed ⊢
    cases qualifying : started.qualify table (some target.package) with
    | error failure => exact ⟨_, rfl, rfl, isChange_outcomeOf failure .scanned⟩
    | ok pair =>
      obtain ⟨qualified, result⟩ := pair
      rw [qualifying] at failed
      dsimp only at failed ⊢
      cases reconciling : qualified.reconcile result.imports with
      | error failure => exact ⟨_, rfl, rfl, isChange_outcomeOf failure .qualified⟩
      | ok pair =>
        obtain ⟨reconciled, added⟩ := pair
        rw [reconciling] at failed
        dsimp only at failed ⊢
        rcases relocating : reconciled.relocate target.package target.destination with
          ⟨failure | change, relocated⟩
        · exact ⟨_, rfl, rfl, isChange_outcomeOf failure .importsReconciled⟩
        · rw [relocating] at failed
          cases failed

theorem planTarget_of_revised {file : SourceFile} (read : tree.read target.path = .ok text)
    (revised : revise table target text = some file) :
    ∃ report, planTarget table tree target = settle tree text file report ∧
      report.path = target.path ∧
      (target.destination ≠ target.path → report.destination = some target.destination) := by
  unfold revise at revised
  unfold planTarget readTarget
  rw [Memory.tree_read, read]
  dsimp only
  cases parsed : SourceFile.parse target.path text with
  | error cause =>
    rw [parsed] at revised
    cases revised
  | ok start =>
    rw [parsed] at revised
    obtain ⟨path, same⟩ := SourceFile.parse_place parsed
    dsimp only [planFile] at revised ⊢
    have moves : target.destination ≠ target.path →
        ({ start with destination := some target.destination } : SourceFile).isMoved = true := by
      intro away
      simpa [SourceFile.isMoved, SourceFile.finalPath, path] using away
    generalize ({ start with destination := some target.destination } : SourceFile) = started
      at revised moves ⊢
    cases qualifying : started.qualify table (some target.package) with
    | error failure =>
      rw [qualifying] at revised
      cases revised
    | ok pair =>
      obtain ⟨qualified, result⟩ := pair
      rw [qualifying] at revised
      dsimp only at revised ⊢
      cases reconciling : qualified.reconcile result.imports with
      | error failure =>
        rw [reconciling] at revised
        cases revised
      | ok pair =>
        obtain ⟨reconciled, added⟩ := pair
        rw [reconciling] at revised
        dsimp only at revised ⊢
        rcases relocating : reconciled.relocate target.package target.destination with
          ⟨failure | change, relocated⟩
        · rw [relocating] at revised
          cases revised
        · rw [relocating] at revised
          cases revised
          rw [same]
          exact ⟨_, rfl, rfl, fun away => by simp only [moves away, if_true]⟩

end Stages

section Participants

variable {table : Table}

def participant? (table : Table) (path : String) : Option Target :=
  if isUnit table path then (enlist table path).getRight? else none

private theorem targets_eq_filterMap (table : Table) (paths : List String) :
    targets table paths = paths.filterMap (participant? table) := by
  unfold targets
  induction paths with
  | nil => rfl
  | cons path paths ih =>
    by_cases unit : isUnit table path = true
    · rw [List.filter_cons_of_pos unit, List.map_cons, List.filterMap_cons, List.filterMap_cons, ih]
      simp only [participant?, unit, if_true]
    · rw [List.filter_cons_of_neg unit, ih, List.filterMap_cons_none (by simp [participant?, unit])]

theorem participant?_path {path : String} {target : Target}
    (found : participant? table path = some target) : target.path = path := by
  unfold participant? enlist target? at found
  split at found
  · split at found
    · cases found
    · split at found
      · next enlisted =>
        cases found
        split at enlisted
        · cases enlisted
          rfl
        · obtain ⟨package, _, rfl⟩ := Option.map_eq_some_iff.mp enlisted
          rfl
      · cases found
  · cases found

theorem mem_targets_iff {paths : List String} {target : Target} :
    target ∈ targets table paths ↔
      target.path ∈ paths ∧ participant? table target.path = some target := by
  rw [targets_eq_filterMap, List.mem_filterMap]
  constructor
  · rintro ⟨path, member, found⟩
    rw [participant?_path found]
    exact ⟨member, found⟩
  · rintro ⟨member, found⟩
    exact ⟨target.path, member, found⟩

theorem targets_sorted {paths : List String} (sorted : paths.Pairwise (· < ·)) :
    (targets table paths).Pairwise fun a b => a.path < b.path := by
  rw [targets_eq_filterMap, List.pairwise_filterMap]
  refine sorted.imp ?_
  intro a b less first foundFirst second foundSecond
  rw [participant?_path foundFirst, participant?_path foundSecond]
  exact less

theorem target_eq_of_path {paths : List String} {a b : Target} (first : a ∈ targets table paths)
    (second : b ∈ targets table paths) (same : a.path = b.path) : a = b := by
  have foundFirst := (mem_targets_iff.mp first).2
  have foundSecond := (mem_targets_iff.mp second).2
  rw [same, foundSecond] at foundFirst
  exact (Option.some.inj foundFirst).symm

end Participants

section Drafts

variable {table : Table} {tree : Memory} {target : Target} {text : Text}

def HasForm (table : Table) (tree : Memory) (target : Target) : Prop :=
  ∃ text file, tree.files.find? target.path = some text ∧ revise table target text = some file

/-- How a planned file follows from its target, the text that was read, and the tree. -/
structure Follows (table : Table) (tree : Memory) (target : Target) (text : Text)
    (plan : Planned) : Prop where
  read : tree.read target.path = .ok text
  revised : revise table target text = some plan.file
  changed : plan.changed = decide (plan.file.text ≠ text)
  reported : plan.report.path = target.path
  destination : plan.file.isMoved = true → plan.report.destination = some plan.file.finalPath
  free : plan.file.isMoved = true → plan.alreadyWritten = false →
    tree.files.find? plan.file.finalPath = none
  written : plan.alreadyWritten = true → plan.file.isMoved = true ∧
    tree.files.find? plan.file.finalPath ≠ none ∧
    tree.read plan.file.finalPath = .ok plan.file.text

theorem Follows.path {plan : Planned} (follows : Follows table tree target text plan) :
    plan.file.path = target.path :=
  (revise_place follows.revised).1

theorem Follows.final {plan : Planned} (follows : Follows table tree target text plan) :
    plan.file.finalPath = target.destination :=
  (revise_place follows.revised).2

private theorem checkDestination_cases (file : SourceFile) (tree : Memory) :
    (file.checkDestination tree = .ok .free ∧
      (file.isMoved = true → tree.files.find? file.finalPath = none)) ∨
    (file.checkDestination tree = .ok .alreadyWritten ∧ file.isMoved = true ∧
      tree.files.find? file.finalPath ≠ none ∧ tree.read file.finalPath = .ok file.text) ∨
    (∃ failure, file.checkDestination tree = .error failure ∧ file.isMoved = true ∧
      tree.files.find? file.finalPath ≠ none ∧
      ((∃ cause, tree.read file.finalPath = .error cause) ∨
        ∃ back detail, tree.read file.finalPath = .ok back ∧ back ≠ file.text ∧
          failure = .conflict detail)) := by
  unfold SourceFile.checkDestination
  simp only [Memory.tree_holds, Memory.tree_read]
  cases moved : file.isMoved with
  | false => exact .inl ⟨by simp, by simp⟩
  | true =>
    cases held : tree.files.find? file.finalPath with
    | none => exact .inl ⟨by simp [Dict.contains, held], by simp⟩
    | some current =>
      have present : tree.files.contains file.finalPath = true :=
        Dict.contains_iff.mpr (by simp [held])
      simp only [present, Bool.not_true, Bool.false_eq_true, or_self, if_false]
      right
      cases read : tree.read file.finalPath with
      | error cause => exact .inr ⟨_, rfl, trivial, by simp, .inl ⟨cause, rfl⟩⟩
      | ok back =>
        by_cases same : back = file.text
        · exact .inl ⟨by simp [same], trivial, by simp, by rw [same]⟩
        · exact .inr ⟨_, if_neg same, trivial, by simp, .inr ⟨back, _, rfl, same, rfl⟩⟩

private theorem follows_of_settle {file : SourceFile} {report : FileReport} {plan : Planned}
    (read : tree.read target.path = .ok text) (revised : revise table target text = some file)
    (reported : report.path = target.path)
    (destination : target.destination ≠ target.path →
      report.destination = some target.destination)
    (settled : settle tree text file report = .planned plan) :
    plan.file = file ∧ Follows table tree target text plan := by
  obtain ⟨path, final⟩ := revise_place revised
  have moves := revise_isMoved_iff revised
  unfold settle at settled
  rcases checkDestination_cases file tree with
    ⟨check, free⟩ | ⟨check, moved, held, back⟩ | ⟨failure, check, _⟩
  · rw [check] at settled
    cases settled
    refine ⟨rfl, read, revised, rfl, reported, fun moved => ?_, fun moved _ => free moved, ?_⟩
    · rw [final]
      exact destination (moves.mp moved)
    · simp
  · rw [check] at settled
    cases settled
    refine ⟨rfl, read, revised, rfl, reported, fun moved => ?_, by simp, fun _ => ?_⟩
    · rw [final]
      exact destination (moves.mp moved)
    · exact ⟨moved, held, back⟩
  · rw [check] at settled
    cases settled

theorem follows_of_planned {plan : Planned}
    (planned : planTarget table tree target = .planned plan) :
    ∃ text, Follows table tree target text plan := by
  cases read : tree.read target.path with
  | error cause =>
    obtain ⟨report, settled, _⟩ := planTarget_of_unreadable table read
    rw [settled] at planned
    cases planned
  | ok text =>
    cases revised : revise table target text with
    | none =>
      obtain ⟨report, settled, _⟩ := planTarget_of_failed read revised
      rw [settled] at planned
      cases planned
    | some file =>
      obtain ⟨report, settled, reported, destination⟩ := planTarget_of_revised read revised
      rw [settled] at planned
      exact ⟨text, (follows_of_settle read revised reported destination planned).2⟩

theorem planned_of_calm {file : SourceFile} (calm : tree.Calm)
    (held : tree.files.find? target.path = some text)
    (revised : revise table target text = some file)
    (ready : target.destination = target.path ∨
      tree.files.find? target.destination = none ∨
      tree.files.find? target.destination = some file.text) :
    ∃ plan, planTarget table tree target = .planned plan ∧ plan.file = file ∧
      Follows table tree target text plan := by
  have read := calm.read_of_held held
  obtain ⟨_, final⟩ := revise_place revised
  obtain ⟨report, settled, reported, destination⟩ := planTarget_of_revised read revised
  have planned : ∃ plan, settle tree text file report = .planned plan := by
    unfold settle
    rcases checkDestination_cases file tree with
      ⟨check, _⟩ | ⟨check, _⟩ | ⟨failure, check, moved, present, blocked⟩
    · rw [check]
      exact ⟨_, rfl⟩
    · rw [check]
      exact ⟨_, rfl⟩
    · exfalso
      rw [final] at present blocked
      rcases ready with stays | absent | same
      · exact (revise_isMoved_iff revised).mp moved stays
      · exact present absent
      · rcases blocked with ⟨cause, failed⟩ | ⟨back, _, gave, different, _⟩
        · rw [calm.read_of_held same] at failed
          cases failed
        · rw [calm.read_of_held same] at gave
          exact different (Except.ok.inj gave).symm
  obtain ⟨plan, planned⟩ := planned
  obtain ⟨same, follows⟩ := follows_of_settle read revised reported destination planned
  exact ⟨plan, settled.trans planned, same, follows⟩

private theorem conflict_of_calm {file : SourceFile} {current : Text} (calm : tree.Calm)
    (held : tree.files.find? target.path = some text)
    (revised : revise table target text = some file)
    (away : target.destination ≠ target.path)
    (occupied : tree.files.find? target.destination = some current)
    (different : current ≠ file.text) :
    ∃ report detail, planTarget table tree target = .settled report ∧
      report.path = target.path ∧ report.outcome = .conflict detail := by
  have read := calm.read_of_held held
  obtain ⟨_, final⟩ := revise_place revised
  obtain ⟨report, settled, reported, _⟩ := planTarget_of_revised read revised
  have moved := (revise_isMoved_iff revised).mpr away
  rw [settled]
  unfold settle
  rcases checkDestination_cases file tree with
    ⟨_, free⟩ | ⟨_, _, _, back⟩ | ⟨failure, check, _, _, blocked⟩
  · have absent := free moved
    rw [final, occupied] at absent
    cases absent
  · rw [final, calm.read_of_held occupied] at back
    exact absurd (Except.ok.inj back) different
  · rcases blocked with ⟨cause, failed⟩ | ⟨_, detail, _, _, rfl⟩
    · rw [final, calm.read_of_held occupied] at failed
      cases failed
    · rw [check]
      exact ⟨_, detail, rfl, reported, rfl⟩

end Drafts

section Disputes

variable {table : Table} {tree : Memory}

def slotOf (table : Table) (tree : Memory) (targets : List Target) (target : Target) : Slot :=
  dispute (targets.map (planTarget table tree)) (planTarget table tree target)

theorem planAll_eq_map (targets : List Target) :
    planAll table tree targets = targets.map (slotOf table tree targets) := by
  simp only [planAll, claimDestinations, List.map_map]
  rfl

private theorem countP_le_one_iff {α : Type} {p : α → Bool} {items : List α}
    (nodup : items.Nodup) :
    items.countP p ≤ 1 ↔ ∀ a ∈ items, ∀ b ∈ items, p a = true → p b = true → a = b := by
  induction items with
  | nil => simp
  | cons head rest ih =>
    obtain ⟨fresh, restNodup⟩ := List.nodup_cons.mp nodup
    cases counted : p head with
    | false =>
      rw [List.countP_cons_of_neg (by simp [counted]), ih restNodup]
      constructor
      · intro unique a aMember b bMember pa pb
        rcases List.mem_cons.mp aMember with rfl | aMember
        · rw [counted] at pa
          cases pa
        · rcases List.mem_cons.mp bMember with rfl | bMember
          · rw [counted] at pb
            cases pb
          · exact unique a aMember b bMember pa pb
      · intro unique a aMember b bMember
        exact unique a (List.mem_cons_of_mem _ aMember) b (List.mem_cons_of_mem _ bMember)
    | true =>
      rw [List.countP_cons_of_pos counted]
      constructor
      · intro few
        have none : rest.countP p = 0 := by omega
        rw [List.countP_eq_zero] at none
        intro a aMember b bMember pa pb
        rcases List.mem_cons.mp aMember with rfl | aMember
        · rcases List.mem_cons.mp bMember with rfl | bMember
          · rfl
          · exact absurd pb (none b bMember)
        · exact absurd pa (none a aMember)
      · intro unique
        have none : rest.countP p = 0 := by
          rw [List.countP_eq_zero]
          intro a member pa
          have same := unique a (List.mem_cons_of_mem _ member) head List.mem_cons_self pa counted
          exact fresh (same ▸ member)
        omega

theorem claimants_le_one_iff {targets : List Target} (nodup : targets.Nodup) (path : String) :
    claimants (targets.map (planTarget table tree)) path ≤ 1 ↔
      ∀ a ∈ targets, ∀ b ∈ targets, claims path (planTarget table tree a) = true →
        claims path (planTarget table tree b) = true → a = b := by
  rw [claimants, List.countP_map]
  exact countP_le_one_iff nodup

theorem claims_planned_iff {path : String} {plan : Planned} :
    claims path (.planned plan) = true ↔
      plan.alreadyWritten = false ∧ plan.file.finalPath = path := by
  simp [claims]

theorem claimants_le_one_of_sole {targets : List Target} {path : String}
    (nodup : targets.Nodup) (target : Target)
    (sole : ∀ other ∈ targets, ∀ draft, planTarget table tree other = .planned draft →
      draft.alreadyWritten = false → draft.file.finalPath = path → other = target) :
    claimants (targets.map (planTarget table tree)) path ≤ 1 := by
  have only : ∀ other ∈ targets, claims path (planTarget table tree other) = true →
      other = target := by
    intro other member claimed
    cases drafted : planTarget table tree other with
    | settled report =>
      rw [drafted] at claimed
      cases claimed
    | planned draft =>
      rw [drafted, claims_planned_iff] at claimed
      exact sole other member draft drafted claimed.1 claimed.2
  rw [claimants_le_one_iff nodup]
  intro a aMember b bMember claimedA claimedB
  rw [only a aMember claimedA, only b bMember claimedB]

theorem slotOf_eq_planned_iff {targets : List Target} {target : Target} {plan : Planned} :
    slotOf table tree targets target = .planned plan ↔
      planTarget table tree target = .planned plan ∧ (plan.alreadyWritten = true ∨
        claimants (targets.map (planTarget table tree)) plan.file.finalPath ≤ 1) := by
  unfold slotOf
  cases drafted : planTarget table tree target with
  | settled report => simp [dispute]
  | planned draft =>
    by_cases kept : draft.alreadyWritten = true ∨
        claimants (targets.map (planTarget table tree)) draft.file.finalPath ≤ 1
    · simp only [dispute, kept, if_true, Slot.planned.injEq]
      constructor
      · rintro rfl
        exact ⟨rfl, kept⟩
      · exact And.left
    · simp only [dispute, kept, if_false, reduceCtorEq, false_iff, not_and]
      intro same
      rwa [← Slot.planned.inj same]

private theorem slotOf_of_disputed {targets : List Target} {target : Target} {plan : Planned}
    (planned : planTarget table tree target = .planned plan)
    (disputed : ¬(plan.alreadyWritten = true ∨
      claimants (targets.map (planTarget table tree)) plan.file.finalPath ≤ 1)) :
    ∃ report detail, slotOf table tree targets target = .settled report ∧
      report.path = plan.report.path ∧ report.outcome = .conflict detail := by
  unfold slotOf
  rw [planned]
  simp only [dispute, disputed, if_false]
  exact ⟨_, _, rfl, rfl, rfl⟩

theorem conflict_of_settled (calm : tree.Calm) {all : List Target} {target : Target} {text : Text}
    {file : SourceFile} {report : FileReport} (held : tree.files.find? target.path = some text)
    (revised : revise table target text = some file)
    (settled : slotOf table tree all target = .settled report) :
    ∃ detail, report.outcome = .conflict detail := by
  by_cases reaches : target.destination = target.path ∨
      tree.files.find? target.destination = none ∨
      tree.files.find? target.destination = some file.text
  · obtain ⟨plan, planned, _⟩ := planned_of_calm calm held revised reaches
    have disputed : ¬(plan.alreadyWritten = true ∨
        claimants (all.map (planTarget table tree)) plan.file.finalPath ≤ 1) := by
      intro kept
      rw [slotOf_eq_planned_iff.mpr ⟨planned, kept⟩] at settled
      cases settled
    obtain ⟨other, detail, lost, _, conflict⟩ := slotOf_of_disputed planned disputed
    rw [settled] at lost
    cases lost
    exact ⟨detail, conflict⟩
  · obtain ⟨away, rest⟩ := not_or.mp reaches
    obtain ⟨present, different⟩ := not_or.mp rest
    obtain ⟨current, occupied⟩ := Option.ne_none_iff_exists'.mp present
    obtain ⟨other, detail, lost, _, conflict⟩ := conflict_of_calm calm held revised away occupied
      (fun same => different (same ▸ occupied))
    rw [slotOf, lost] at settled
    cases settled
    exact ⟨detail, conflict⟩

theorem undisputed_of_stays {paths : List String} {target : Target} {plan : Planned}
    (nodup : (targets table paths).Nodup) (member : target ∈ targets table paths)
    (planned : planTarget table tree target = .planned plan)
    (stays : plan.file.isMoved = false) :
    claimants ((targets table paths).map (planTarget table tree)) plan.file.finalPath ≤ 1 := by
  obtain ⟨text, follows⟩ := follows_of_planned planned
  have home : plan.file.finalPath = target.path := by
    rw [← follows.path]
    exact SourceFile.final_of_stays stays
  have held := Memory.held_of_read follows.read
  refine claimants_le_one_of_sole nodup target
    fun other otherMember draft drafted unwritten same => ?_
  obtain ⟨_, draftFollows⟩ := follows_of_planned drafted
  cases moved : draft.file.isMoved with
  | true =>
    have absent := draftFollows.free moved unwritten
    rw [same, home] at absent
    exact absurd absent held
  | false =>
    have draftHome : draft.file.finalPath = other.path := by
      rw [← draftFollows.path]
      exact SourceFile.final_of_stays moved
    exact target_eq_of_path otherMember member (by rw [← draftHome, same, home])

end Disputes

end Run

end Repackage
