import Repackage.Proofs.Execution

/-!
A run repeated. Whether a second run has anything to do is decided by the files that the first one
has written or has left behind in a conflict: all others are planned again as they were.
-/

set_option autoImplicit false
set_option relaxedAutoImplicit false

namespace Repackage

namespace Summary

private theorem changes_tally (reports : List FileReport) :
    (tally reports).changes = reports.countP fun report => report.outcome.isChange := by
  have counted : ∀ start : Summary, (reports.foldl add start).changes =
      start.changes + reports.countP fun report => report.outcome.isChange := by
    induction reports with
    | nil => simp
    | cons report reports ih =>
      intro start
      rw [List.foldl_cons, ih, List.countP_cons]
      cases outcome : report.outcome <;>
        simp only [add, changes, outcome, Outcome.isChange, Bool.false_eq_true, if_false,
          if_true] <;>
        omega
  simpa [changes, tally] using counted {}

private theorem idle_tally_iff (reports : List FileReport) :
    (tally reports).moved = 0 ∧ (tally reports).rewritten = 0 ↔
      ∀ report ∈ reports, report.outcome.isChange = false := by
  rw [← Nat.add_eq_zero_iff, ← changes, changes_tally, List.countP_eq_zero]
  simp only [Bool.not_eq_true]

end Summary

namespace Run

private theorem idle_build_iff {reports : List FileReport} {dryRun failOnConflict aborted : Bool} :
    (Report.build reports dryRun failOnConflict aborted).summary.moved = 0 ∧
        (Report.build reports dryRun failOnConflict aborted).summary.rewritten = 0 ↔
      ∀ report ∈ reports, report.outcome.isChange = false := by
  refine (Summary.idle_tally_iff _).trans ?_
  simp only [List.mem_mergeSort]

section Dues

variable {table : Table} {tree : Memory} {path : String}

/-- A run has something to do at a path: the file there has a final form, and it stays and gets
another text, or it goes where its text is already, or where nothing is and no other file goes. -/
def Due (table : Table) (tree : Memory) (path : String) : Prop :=
  ∃ target ∈ targets table tree.paths, target.path = path ∧
    ∃ text file, tree.files.find? path = some text ∧ revise table target text = some file ∧
      (target.destination = path ∧ file.text ≠ text ∨
        target.destination ≠ path ∧
          (tree.files.find? target.destination = some file.text ∨
            tree.files.find? target.destination = none ∧
              ∀ other ∈ targets table tree.paths, other.destination = target.destination →
                HasForm table tree other → other = target))

private theorem planned_of_due (calm : tree.Calm) (due : Due table tree path) :
    ∃ plan, .planned plan ∈ slotsOf table tree ∧ plan.file.path = path ∧
      (plan.file.isMoved = true ∨ plan.changed = true) := by
  obtain ⟨target, member, rfl, text, file, held, revised, ways⟩ := due
  have moves := revise_isMoved_iff revised
  have reaches : target.destination = target.path ∨ tree.files.find? target.destination = none ∨
      tree.files.find? target.destination = some file.text := by
    rcases ways with ⟨stays, _⟩ | ⟨_, written | ⟨absent, _⟩⟩
    · exact .inl stays
    · exact .inr (.inr written)
    · exact .inr (.inl absent)
  obtain ⟨plan, planned, rfl, follows⟩ := planned_of_calm calm held revised reaches
  have kept : plan.alreadyWritten = true ∨ claimants
      ((targets table tree.paths).map (planTarget table tree)) plan.file.finalPath ≤ 1 := by
    rcases ways with ⟨stays, _⟩ | ⟨away, written | ⟨absent, alone⟩⟩
    · right
      refine undisputed_of_stays (targets_nodup table tree) member planned ?_
      simpa [stays] using moves
    · left
      cases unwritten : plan.alreadyWritten with
      | true => rfl
      | false =>
        have free := follows.free (moves.mpr away) unwritten
        rw [follows.final, written] at free
        cases free
    · right
      refine claimants_le_one_of_sole (targets_nodup table tree) target
        fun other otherMember draft drafted _ same => ?_
      obtain ⟨otherText, otherFollows⟩ := follows_of_planned drafted
      refine alone other otherMember ?_ ⟨otherText, draft.file, ?_, otherFollows.revised⟩
      · rw [← otherFollows.final, same, follows.final]
      · exact calm.read_eq_ok_iff.mp otherFollows.read
  refine ⟨plan, mem_slotsOf_iff.mpr ⟨target, member, slotOf_eq_planned_iff.mpr ⟨planned, kept⟩⟩,
    follows.path, ?_⟩
  rcases ways with ⟨_, differs⟩ | ⟨away, _⟩
  · right
    rw [follows.changed, decide_eq_true differs]
  · exact .inl (moves.mpr away)

private theorem due_of_planned (calm : tree.Calm) {plan : Planned}
    (member : .planned plan ∈ slotsOf table tree)
    (active : plan.file.isMoved = true ∨ plan.changed = true) :
    Due table tree plan.file.path := by
  obtain ⟨target, targetMember, slot⟩ := mem_slotsOf_iff.mp member
  obtain ⟨planned, kept⟩ := slotOf_eq_planned_iff.mp slot
  obtain ⟨text, follows⟩ := follows_of_planned planned
  have moves := revise_isMoved_iff follows.revised
  refine ⟨target, targetMember, follows.path.symm, text, plan.file, ?_, follows.revised, ?_⟩
  · rw [follows.path]
    exact calm.read_eq_ok_iff.mp follows.read
  · rw [follows.path]
    by_cases stays : target.destination = target.path
    · left
      have changed := active.resolve_left (fun moved => moves.mp moved stays)
      rw [follows.changed, decide_eq_true_eq] at changed
      exact ⟨stays, changed⟩
    · right
      refine ⟨stays, ?_⟩
      cases written : plan.alreadyWritten with
      | true =>
        left
        rw [← follows.final]
        exact calm.read_eq_ok_iff.mp (follows.written written).2.2
      | false =>
        right
        have free := follows.free (moves.mpr stays) written
        rw [follows.final] at free
        refine ⟨free, ?_⟩
        rintro other otherMember same ⟨otherText, otherFile, held, revised⟩
        obtain ⟨draft, drafted, _, otherFollows⟩ :=
          planned_of_calm calm held revised (.inr (.inl (same ▸ free)))
        have unwritten : draft.alreadyWritten = false := by
          cases already : draft.alreadyWritten with
          | false => rfl
          | true =>
            have present := (otherFollows.written already).2.1
            rw [otherFollows.final, same] at present
            exact absurd free present
        have few := kept.resolve_left (by simp [written])
        apply (claimants_le_one_iff (targets_nodup table tree) _).mp few other otherMember target
          targetMember
        · rw [drafted, claims_planned_iff, otherFollows.final, follows.final]
          exact ⟨unwritten, same⟩
        · rw [planned, claims_planned_iff]
          exact ⟨written, rfl⟩

end Dues

section Repeats

variable {table : Table} {options : RunOptions} {tree : Memory} {slots : List Slot}

private theorem settled_reported {report : FileReport} (aborted : Bool)
    (member : .settled report ∈ slots) : report ∈ (commitAll options aborted tree slots).1 := by
  obtain ⟨before, after, place⟩ := List.append_of_mem member
  exact mem_reports_iff.mpr ⟨before, .settled report, after, place, rfl⟩

private theorem Ready.vacated (ready : Ready tree slots) {unit : FileReport}
    (member : unit ∈ (commitAll options false tree slots).1)
    (changed : unit.outcome.isChange = true) :
    unit.outcome = .rewritten ∨
      (commitAll options false tree slots).2.2.files.find? unit.path = none ∨
      ∃ later, .planned later ∈ slots ∧ later.file.finalPath = unit.path ∧
        unit.path < later.report.path ∧
        { later.report with outcome := .moved } ∈ (commitAll options false tree slots).1 := by
  obtain ⟨before, plan, after, state, turn, place, taken, rfl, rest, final, late⟩ :=
    ready.changed member changed
  have named := ready.ordered.named plan (by simp [place])
  cases taken with
  | moved _ _ reported files =>
    right
    have gone := files plan.file.path
    rw [if_pos rfl] at gone
    simp only [reported, named]
    cases found : (commitAll options false tree slots).2.2.files.find? plan.file.path with
    | none => exact .inl rfl
    | some text =>
      rw [final] at found
      obtain ⟨later, laterMember, arrives, moved⟩ := rest.arrival options _ gone found
      have less := ready.ordered.lt_of_after place laterMember
      rw [Slot.report, named] at less
      exact .inr ⟨later, by simp [place, laterMember], arrives, less, late _ moved⟩
  | conflict _ _ _ _ _ reported _ =>
    rw [reported] at changed
    cases changed
  | rewritten _ _ reported _ =>
    rw [reported]
    exact .inl rfl
  | unchanged _ _ reported _ =>
    rw [reported] at changed
    cases changed

private theorem idle_iff (table : Table) (calm : tree.Calm) :
    (∀ report ∈ (carryOut {} tree (slotsOf table tree)).1, report.outcome.isChange = false) ↔
      ∀ path, ¬Due table tree path := by
  have ready := ready_of_calm table calm
  rw [carryOut_of_calm table {} calm]
  constructor
  · intro idle path due
    obtain ⟨plan, member, rfl, active⟩ := planned_of_due calm due
    obtain ⟨before, after, turn, place, taken, reported, _⟩ := ready.reported {} rfl member
    have quiet := idle _ reported
    cases taken with
    | moved _ _ moved _ =>
      rw [moved] at quiet
      cases quiet
    | rewritten _ _ rewritten _ =>
      rw [rewritten] at quiet
      cases quiet
    | unchanged stays same _ _ => simp [stays, same] at active
    | conflict away current _ held different _ _ =>
      -- Nothing has been changed before, so the destination is as it was planned.
      have split := commitAll_split {} false
        (createDestinations tree (slotsOf table tree)).2 place
      have still := (ready.front place).files_of_idle {} fun report early => by
        refine idle report ?_
        rw [split]
        exact List.mem_append_left _ early
      rw [still, files_createDestinations] at held
      rcases (laid_slotsOf table calm.honest).landing plan member away with absent | written
      · rw [held] at absent
        cases absent
      · rw [held] at written
        exact different (Option.some.inj written)
  · intro nothing report reported
    cases changed : report.outcome.isChange with
    | false => rfl
    | true =>
      obtain ⟨before, plan, after, _, turn, place, taken, rfl, _⟩ := ready.changed reported changed
      have member : .planned plan ∈ slotsOf table tree := by simp [place]
      refine absurd (due_of_planned calm member ?_) (nothing plan.file.path)
      cases taken with
      | moved away _ _ _ => exact .inl away
      | rewritten _ differs _ _ => exact .inr differs
      | conflict _ _ _ _ _ conflict _ =>
        rw [conflict] at changed
        cases changed
      | unchanged _ _ unchanged _ =>
        rw [unchanged] at changed
        cases changed

def leftAt? (unit : FileReport) : Option String :=
  match unit.outcome with
  | .moved => unit.destination
  | .rewritten | .conflict _ => some unit.path
  | .unchanged | .skipped _ | .failed _ _ => none

private theorem conflict_of_form (table : Table) (calm : tree.Calm) {target : Target} {text : Text}
    {file : SourceFile} (member : target ∈ targets table tree.paths)
    (held : tree.files.find? target.path = some text)
    (revised : revise table target text = some file)
    (active : target.destination ≠ target.path ∨ file.text ≠ text)
    (idle : ∀ report ∈ (carryOut {} tree (slotsOf table tree)).1, report.path = target.path →
      report.outcome.isChange = false) :
    ∃ report ∈ (carryOut {} tree (slotsOf table tree)).1, report.path = target.path ∧
      ∃ detail, report.outcome = .conflict detail := by
  have ready := ready_of_calm table calm
  rw [carryOut_of_calm table {} calm] at idle ⊢
  have slotMember : slotOf table tree (targets table tree.paths) target ∈ slotsOf table tree :=
    mem_slotsOf_iff.mpr ⟨target, member, rfl⟩
  have path := path_slotOf table tree (targets table tree.paths) target
  cases slot : slotOf table tree (targets table tree.paths) target with
  | planned plan =>
    rw [slot] at slotMember path
    obtain ⟨planned, _⟩ := slotOf_eq_planned_iff.mp slot
    obtain ⟨read, follows⟩ := follows_of_planned planned
    have same : read = text := by
      have given := calm.read_eq_ok_iff.mp follows.read
      rw [held] at given
      exact (Option.some.inj given).symm
    subst same
    have files : file = plan.file := by
      have given := follows.revised
      rw [revised] at given
      exact Option.some.inj given
    subst files
    obtain ⟨before, after, turn, place, taken, reported, _⟩ := ready.reported {} rfl slotMember
    cases taken with
    | moved _ _ moved _ =>
      have contrary := idle _ reported (by rw [moved]; exact path)
      rw [moved] at contrary
      cases contrary
    | rewritten _ _ rewritten _ =>
      have contrary := idle _ reported (by rw [rewritten]; exact path)
      rw [rewritten] at contrary
      cases contrary
    | conflict _ _ detail _ _ conflict _ =>
      exact ⟨turn.1, reported, by rw [conflict]; exact path, detail, by rw [conflict]⟩
    | unchanged stays same _ _ =>
      rcases active with away | differs
      · rw [(revise_isMoved_iff revised).mpr away] at stays
        cases stays
      · rw [follows.changed, decide_eq_false_iff_not] at same
        exact absurd differs same
  | settled report =>
    rw [slot] at slotMember path
    exact ⟨report, settled_reported false slotMember, path,
      conflict_of_settled calm held revised slot⟩

private theorem left_of_due (table : Table) (calm : tree.Calm) {path : String}
    (due : Due table (carryOut {} tree (slotsOf table tree)).2.2 path) :
    ∃ unit ∈ (carryOut {} tree (slotsOf table tree)).1, leftAt? unit = some path := by
  obtain ⟨target, member, rfl, text, file, held, revised, ways⟩ := due
  have ready := ready_of_calm table calm
  have leaves : ∀ {plan : Planned}, .planned plan ∈ slotsOf table tree →
      plan.file.finalPath = target.path → plan.file.path ≠ target.path →
      { plan.report with outcome := .moved } ∈ (carryOut {} tree (slotsOf table tree)).1 →
      ∃ unit ∈ (carryOut {} tree (slotsOf table tree)).1, leftAt? unit = some target.path := by
    intro plan planned final elsewhere reported
    obtain ⟨source, _, read, follows⟩ := follows_of_mem_slotsOf planned
    refine ⟨_, reported, ?_⟩
    rw [← final] at elsewhere ⊢
    exact follows.destination (SourceFile.isMoved_iff.mpr elsewhere.symm)
  rw [mem_targets_iff, Memory.mem_paths_iff] at member
  obtain ⟨⟨_, visible⟩, participates⟩ := member
  cases before : tree.files.find? target.path with
  | none =>
    -- The file is new, so it has been moved here.
    have absent := before
    rw [← files_createDestinations tree (slotsOf table tree)] at absent
    rw [carryOut_of_calm table {} calm] at held leaves ⊢
    obtain ⟨plan, planned, final, reported⟩ := ready.arrival {} false absent held
    refine leaves planned final ?_ reported
    intro same
    exact ready.held plan planned (same ▸ absent)
  | some old =>
    have start : target ∈ targets table tree.paths :=
      mem_targets_iff.mpr ⟨Memory.mem_paths_iff.mpr ⟨by simp [before], visible⟩, participates⟩
    by_cases idle : ∀ report ∈ (carryOut {} tree (slotsOf table tree)).1,
        report.path = target.path → report.outcome.isChange = false
    · -- The file is as it was, and so it is due again only if it was in a conflict.
      have kept : (carryOut {} tree (slotsOf table tree)).2.2.files.find? target.path =
          some old := by
        rw [carryOut_of_calm table {} calm] at idle ⊢
        rw [← files_createDestinations tree (slotsOf table tree)] at before
        exact ready.kept {} false before idle
      rw [held] at kept
      cases kept
      have active : target.destination ≠ target.path ∨ file.text ≠ text := by
        rcases ways with ⟨_, differs⟩ | ⟨away, _⟩
        · exact .inr differs
        · exact .inl away
      obtain ⟨report, reported, path, detail, conflict⟩ :=
        conflict_of_form table calm start before revised active idle
      refine ⟨report, reported, ?_⟩
      simp only [leftAt?, conflict, path]
    · simp only [not_forall, Bool.not_eq_false] at idle
      obtain ⟨unit, reported, path, changed⟩ := idle
      have vacated := reported
      rw [carryOut_of_calm table {} calm] at vacated
      have ends := ready.vacated vacated changed
      rw [← carryOut_of_calm table {} calm, path, held] at ends
      rcases ends with rewritten | gone | ⟨later, planned, final, less, moved⟩
      · exact ⟨unit, reported, by simp only [leftAt?, rewritten, path]⟩
      · cases gone
      · refine leaves planned final ?_ moved
        intro same
        rw [ready.ordered.named later planned, same] at less
        exact String.lt_irrefl _ less

end Repeats

/-- After a run without faults, a second one reports no change and makes none exactly when it has
nothing to do where the first has left a file that it had written or that was in a conflict. -/
theorem second_run_idle_iff (table : Table) (tree : Memory) :
    let once := run table {} (tree.restart {})
    let twice := run table {} (once.2.restart {})
    ∃ first second, once.1 = .ok first ∧ twice.1 = .ok second ∧
      (second.summary.moved = 0 ∧ second.summary.rewritten = 0 ∧
          twice.2.files = once.2.files ↔
        ∀ unit ∈ first.units, ∀ path, leftAt? unit = some path → ¬Due table once.2 path) := by
  have goesOn : ∀ tree : Memory, ¬Stops table {} tree := by
    intro tree
    simp [Stops]
  have calm := tree.calm_restart
  generalize tree.restart {} = start at *
  intro once twice
  have onceEq := run_of_carriedOut calm.walk (goesOn start)
  have againCalm := once.2.calm_restart
  have twiceEq := run_of_carriedOut againCalm.walk (goesOn (once.2.restart {}))
  refine ⟨_, _, congrArg Prod.fst onceEq, congrArg Prod.fst twiceEq, ?_⟩
  have bystanding : ∀ unit ∈ bystanders table (once.2.restart {}).paths,
      unit.outcome.isChange = false :=
    fun unit => isChange_of_mem_bystanders
  rw [← and_assoc, idle_build_iff, List.forall_mem_append, and_iff_right bystanding,
    idle_iff table againCalm]
  constructor
  · rintro ⟨nothing, _⟩ unit _ path _
    exact nothing path
  · intro settled
    have nothing : ∀ path, ¬Due table (once.2.restart {}) path := by
      intro path due
      have left : Due table (carryOut {} start (slotsOf table start)).2.2 path := by
        have same : once.2 = (carryOut {} start (slotsOf table start)).2.2 :=
          congrArg Prod.snd onceEq
        rw [← same]
        exact due
      obtain ⟨unit, reported, leaves⟩ := left_of_due table calm left
      exact settled unit (mem_units_build.mpr (List.mem_append_right _ reported)) path leaves due
    refine ⟨nothing, ?_⟩
    have idle := (idle_iff table againCalm).mpr nothing
    have same : twice.2 = (carryOut {} (once.2.restart {})
        (slotsOf table (once.2.restart {}))).2.2 :=
      congrArg Prod.snd twiceEq
    rw [carryOut_of_calm table {} againCalm] at idle same
    rw [same, (ready_of_calm table againCalm).files_of_idle {} idle, files_createDestinations]
    rfl

def chainTable : Table where
  modulePath := "m"
  packages := Dict.ofList [("a", ⟨"a", "a", "m/a"⟩)]
  files := .empty
  symbols := [⟨"A", "a", "B"⟩, ⟨"B", "a", "C"⟩]
  excludes := []
  includeTests := true

def chainTree : Memory :=
  .ofFiles [("a/x.go", "package a\nvar x = A\n".toList)]

/-- The first run turns the reference into the name that the second one looks for, so its own result
is due again and is changed once more. -/
theorem chain_renamed_twice :
    let once := run chainTable {} (chainTree.restart {})
    let twice := run chainTable {} (once.2.restart {})
    once.2.files.find? "a/x.go" = some "package a\nvar x = B\n".toList ∧
      twice.2.files.find? "a/x.go" = some "package a\nvar x = C\n".toList ∧
      ∃ path, Due chainTable once.2 path := by
  intro once twice
  have first : once.2.files.find? "a/x.go" = some "package a\nvar x = B\n".toList := by
    decide +kernel
  have second : twice.2.files.find? "a/x.go" = some "package a\nvar x = C\n".toList := by
    decide +kernel
  refine ⟨first, second, ?_⟩
  obtain ⟨_, _, -, -, idle⟩ := second_run_idle_iff chainTable chainTree
  by_contra settled
  have same : twice.2.files = once.2.files :=
    (idle.2 fun unit _ path _ due => settled ⟨path, due⟩).2.2
  rw [same, first] at second
  exact absurd (Option.some.inj second) (by decide)

end Run

end Repackage
