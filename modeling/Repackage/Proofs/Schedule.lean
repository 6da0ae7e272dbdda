import Repackage.Proofs.Moves
import Repackage.Proofs.Reports

/-!
The order of commits. Where no file moves to the place of another file of the run, nothing that one
commit does is seen by another: each finds its file and its destination as they were planned. So a
run without faults does what its plan says, in whatever order the slots are committed.
-/

set_option autoImplicit false
set_option relaxedAutoImplicit false

namespace Repackage.Run

/-- The outcome that is reported for a plan that is carried out. -/
def Planned.outcome (plan : Planned) : Outcome :=
  if plan.file.isMoved then .moved else if plan.changed then .rewritten else .unchanged

/-- The file of a plan is there, and its destination is free or has its text. -/
structure Pending (files : Dict Text) (plan : Planned) : Prop where
  present : files.find? plan.file.path ≠ none
  reaches : plan.file.isMoved = true → files.find? plan.file.finalPath = none ∨
    files.find? plan.file.finalPath = some plan.file.text

/-- Two plans that do not get in each other's way. -/
structure Apart (a b : Planned) : Prop where
  paths : a.file.path ≠ b.file.path
  first : a.file.isMoved = true → a.file.finalPath ≠ b.file.path
  second : b.file.isMoved = true → b.file.finalPath ≠ a.file.path
  texts : a.file.isMoved = true → b.file.isMoved = true →
    a.file.finalPath = b.file.finalPath → a.file.text = b.file.text

def Unhindered (slot other : Slot) : Prop :=
  ∀ a b, slot = .planned a → other = .planned b → Apart a b

/-- The plans of slots have been carried out on files, and nothing else has. -/
structure Effected (slots : List Slot) (start final : Dict Text) : Prop where
  left : ∀ plan, .planned plan ∈ slots → plan.file.isMoved = true →
    final.find? plan.file.path = none
  arrived : ∀ plan, .planned plan ∈ slots → plan.file.isMoved = true →
    final.find? plan.file.finalPath = some plan.file.text
  rewritten : ∀ plan, .planned plan ∈ slots → plan.file.isMoved = false → plan.changed = true →
    final.find? plan.file.path = some plan.file.text
  others : ∀ path,
    (∀ plan, .planned plan ∈ slots → plan.file.isMoved = true →
      path ≠ plan.file.path ∧ path ≠ plan.file.finalPath) →
    (∀ plan, .planned plan ∈ slots → plan.file.isMoved = false → plan.changed = true →
      path ≠ plan.file.path) →
    final.find? path = start.find? path

theorem Apart.symm {a b : Planned} (apart : Apart a b) : Apart b a :=
  ⟨apart.paths.symm, apart.second, apart.first, fun away otherAway same =>
    (apart.texts otherAway away same.symm).symm⟩

theorem Unhindered.symm {slot other : Slot} (unhindered : Unhindered slot other) :
    Unhindered other slot :=
  fun a b first second => (unhindered b a second first).symm

section Turns

variable {options : RunOptions} {tree : Memory} {plan other : Planned}

theorem Pending.turn (pending : Pending tree.files plan) (options : RunOptions)
    (calm : tree.Calm) (foretold : plan.report.outcome = plan.outcome) :
    let turn := commitSlot options false tree (.planned plan)
    turn.1 = plan.report ∧ Effected [.planned plan] tree.files turn.2.2.files := by
  intro turn
  have retold : ∀ outcome, plan.outcome = outcome →
      { plan.report with outcome := outcome } = plan.report := by
    rintro outcome rfl
    rw [← foretold]
  cases turn_of_calm options calm pending.present with
  | moved away _ reported files =>
    have differs := SourceFile.isMoved_iff.mp away
    refine ⟨reported.trans (retold _ (by simp [Planned.outcome, away])), ?_, ?_, ?_, ?_⟩
    · rintro mover member -
      cases List.mem_singleton.mp member
      rw [files, if_pos rfl]
    · rintro mover member -
      cases List.mem_singleton.mp member
      rw [files, if_neg differs, if_pos rfl]
    · rintro rewriter member stays -
      cases List.mem_singleton.mp member
      simp [away] at stays
    · intro path free _
      obtain ⟨notOwn, notFinal⟩ := free plan List.mem_cons_self away
      rw [files, if_neg notOwn, if_neg notFinal]
  | conflict away current detail held different _ _ =>
    rcases pending.reaches away with absent | written
    · rw [held] at absent
      cases absent
    · rw [held, Option.some.injEq] at written
      exact absurd written different
  | rewritten stays changed reported files =>
    refine ⟨reported.trans (retold _ (by simp [Planned.outcome, stays, changed])), ?_, ?_, ?_, ?_⟩
    · rintro mover member away
      cases List.mem_singleton.mp member
      simp [stays] at away
    · rintro mover member away
      cases List.mem_singleton.mp member
      simp [stays] at away
    · rintro rewriter member - -
      cases List.mem_singleton.mp member
      rw [files, Dict.find?_insert, if_pos rfl]
    · intro path _ free
      rw [files, Dict.find?_insert, if_neg (free plan List.mem_cons_self stays changed)]
  | unchanged stays idle reported same =>
    refine ⟨reported.trans (retold _ (by simp [Planned.outcome, stays, idle])), ?_, ?_, ?_, ?_⟩
    · rintro mover member away
      cases List.mem_singleton.mp member
      simp [stays] at away
    · rintro mover member away
      cases List.mem_singleton.mp member
      simp [stays] at away
    · rintro rewriter member - changed
      cases List.mem_singleton.mp member
      simp [idle] at changed
    · intro path _ _
      rw [same]

/-- A plan that has been carried out leaves the plans apart from it pending. -/
theorem Pending.after (pending : Pending tree.files other) {final : Dict Text}
    (effected : Effected [.planned plan] tree.files final) (apart : Apart plan other) :
    Pending final other := by
  have only : ∀ {mover : Planned}, Slot.planned mover ∈ [Slot.planned plan] → mover = plan := by
    intro mover member
    cases List.mem_singleton.mp member
    rfl
  constructor
  · have kept : final.find? other.file.path = tree.files.find? other.file.path := by
      refine effected.others _ ?_ ?_
      · intro mover member away
        obtain rfl := only member
        exact ⟨apart.paths.symm, (apart.first away).symm⟩
      · intro rewriter member _ _
        obtain rfl := only member
        exact apart.paths.symm
    rw [kept]
    exact pending.present
  · intro away
    by_cases shared : plan.file.isMoved = true ∧ plan.file.finalPath = other.file.finalPath
    · obtain ⟨planAway, same⟩ := shared
      right
      rw [← same, effected.arrived plan List.mem_cons_self planAway,
        apart.texts planAway away same]
    · have kept : final.find? other.file.finalPath = tree.files.find? other.file.finalPath := by
        refine effected.others _ ?_ ?_
        · intro mover member planAway
          obtain rfl := only member
          exact ⟨apart.second away, fun same => shared ⟨planAway, same.symm⟩⟩
        · intro rewriter member _ _
          obtain rfl := only member
          exact apart.second away
      rw [kept]
      exact pending.reaches away

end Turns

section Orders

variable {options : RunOptions} {tree : Memory} {slots : List Slot}

theorem Effected.settled {start final : Dict Text} (effected : Effected slots start final)
    (report : FileReport) : Effected (.settled report :: slots) start final :=
  ⟨by simpa using effected.left, by simpa using effected.arrived,
    by simpa using effected.rewritten, by simpa using effected.others⟩

theorem Effected.cons {plan : Planned} {start between final : Dict Text}
    (first : Effected [.planned plan] start between) (rest : Effected slots between final)
    (apart : ∀ other, .planned other ∈ slots → Apart plan other) :
    Effected (.planned plan :: slots) start final := by
  have head : Slot.planned plan ∈ [Slot.planned plan] := List.mem_cons_self
  -- The slots behind the first one touch its path never, its destination only as it does.
  have own : final.find? plan.file.path = between.find? plan.file.path := by
    refine rest.others _ ?_ ?_
    · exact fun mover member away =>
        ⟨(apart mover member).paths, ((apart mover member).second away).symm⟩
    · exact fun rewriter member _ _ => (apart rewriter member).paths
  refine ⟨?_, ?_, ?_, ?_⟩
  · intro mover member away
    rcases List.mem_cons.mp member with same | later
    · cases same
      rw [own]
      exact first.left plan head away
    · exact rest.left mover later away
  · intro mover member away
    rcases List.mem_cons.mp member with same | later
    · cases same
      by_cases shared : ∃ other, Slot.planned other ∈ slots ∧ other.file.isMoved = true ∧
          other.file.finalPath = plan.file.finalPath
      · obtain ⟨other, otherMember, otherAway, final⟩ := shared
        rw [← final, rest.arrived other otherMember otherAway,
          (apart other otherMember).texts away otherAway final.symm]
      · have kept : final.find? plan.file.finalPath = between.find? plan.file.finalPath := by
          refine rest.others _ ?_ ?_
          · exact fun other otherMember otherAway => ⟨(apart other otherMember).first away,
              fun same => shared ⟨other, otherMember, otherAway, same.symm⟩⟩
          · exact fun other otherMember _ _ => (apart other otherMember).first away
        rw [kept]
        exact first.arrived plan head away
    · exact rest.arrived mover later away
  · intro rewriter member stays changed
    rcases List.mem_cons.mp member with same | later
    · cases same
      rw [own]
      exact first.rewritten plan head stays changed
    · exact rest.rewritten rewriter later stays changed
  · intro path noMover noRewriter
    have later : final.find? path = between.find? path :=
      rest.others path
        (fun mover member => noMover mover (List.mem_cons_of_mem _ member))
        (fun rewriter member => noRewriter rewriter (List.mem_cons_of_mem _ member))
    rw [later]
    refine first.others path ?_ ?_
    · intro mover member
      cases List.mem_singleton.mp member
      exact noMover plan List.mem_cons_self
    · intro rewriter member
      cases List.mem_singleton.mp member
      exact noRewriter plan List.mem_cons_self

theorem Effected.files_eq {order : List Slot} {start first second : Dict Text}
    (perm : order.Perm slots) (effected : Effected slots start first)
    (permuted : Effected order start second) : second = first := by
  apply Dict.ext_find?
  intro path
  by_cases moved : ∃ plan, Slot.planned plan ∈ slots ∧ plan.file.isMoved = true ∧
      (path = plan.file.path ∨ path = plan.file.finalPath)
  · obtain ⟨plan, member, away, rfl | rfl⟩ := moved
    · rw [effected.left plan member away, permuted.left plan (perm.symm.subset member) away]
    · rw [effected.arrived plan member away, permuted.arrived plan (perm.symm.subset member) away]
  · by_cases changed : ∃ plan, Slot.planned plan ∈ slots ∧ plan.file.isMoved = false ∧
        plan.changed = true ∧ path = plan.file.path
    · obtain ⟨plan, member, stays, differs, rfl⟩ := changed
      rw [effected.rewritten plan member stays differs,
        permuted.rewritten plan (perm.symm.subset member) stays differs]
    · simp only [not_exists, not_and, not_or] at moved changed
      rw [effected.others path moved changed, permuted.others path
        (fun plan member => moved plan (perm.subset member))
        (fun plan member => changed plan (perm.subset member))]

private theorem commitAll_effected (goesOn : options.failOnConflict = false) (calm : tree.Calm)
    (apart : slots.Pairwise Unhindered)
    (pending : ∀ plan, .planned plan ∈ slots → Pending tree.files plan)
    (foretold : ∀ plan, .planned plan ∈ slots → plan.report.outcome = plan.outcome) :
    (commitAll options false tree slots).1 = slots.map Slot.report ∧
      Effected slots tree.files (commitAll options false tree slots).2.2.files := by
  induction slots generalizing tree with
  | nil => exact ⟨rfl, by simp, by simp, by simp, fun _ _ _ => rfl⟩
  | cons slot slots ih =>
    have going : (commitSlot options false tree slot).2.1 = false :=
      commitAll_aborted goesOn tree [slot]
    obtain ⟨fromHead, rest⟩ := List.pairwise_cons.mp apart
    have restForetold := fun plan (member : Slot.planned plan ∈ slots) =>
      foretold plan (List.mem_cons_of_mem _ member)
    have restPending := fun plan (member : Slot.planned plan ∈ slots) =>
      pending plan (List.mem_cons_of_mem _ member)
    simp only [commitAll, going, List.map_cons]
    cases slot with
    | settled report =>
      obtain ⟨reports, later⟩ := ih calm rest restPending restForetold
      exact ⟨by rw [commitSlot, reports, Slot.report], later.settled report⟩
    | planned plan =>
      obtain ⟨reported, first⟩ := (pending plan List.mem_cons_self).turn options calm
        (foretold plan List.mem_cons_self)
      have stillCalm : (commitSlot options false tree (.planned plan)).2.2.Calm := by
        rcases commitSlot_tree options false tree (.planned plan) with same | ⟨other, _, committed⟩
        · rw [same]
          exact calm
        · rw [committed]
          exact (other.file.faults_commit tree other.changed).trans calm
      have clear := fun other (member : Slot.planned other ∈ slots) =>
        fromHead _ member plan other rfl rfl
      obtain ⟨reports, later⟩ := ih stillCalm rest
        (fun other member => (restPending other member).after first (clear other member))
        restForetold
      exact ⟨by rw [reported, reports, Slot.report], first.cons later clear⟩

end Orders

section Plans

variable {table : Table} {tree : Memory} {plan other : Planned}

private theorem outcome_of_planned {target : Target}
    (planned : planTarget table tree target = .planned plan) :
    plan.report.outcome = plan.outcome := by
  cases read : tree.read target.path with
  | error cause =>
    obtain ⟨report, settled, _⟩ := planTarget_of_unreadable table read
    rw [settled] at planned
    cases planned
  | ok text =>
    cases revised : revise table target text with
    | none =>
      obtain ⟨report, settled, _⟩ := planTarget_of_failed read revised
      rw [settled] at planned
      cases planned
    | some file =>
      obtain ⟨report, settled, _⟩ := planTarget_of_revised read revised
      rw [settled] at planned
      unfold settle at planned
      split at planned
      · cases planned
      · cases planned
        simp only [Planned.outcome, decide_eq_true_eq]

theorem foretold_of_mem_slotsOf (member : .planned plan ∈ slotsOf table tree) :
    plan.report.outcome = plan.outcome := by
  obtain ⟨target, _, slot⟩ := mem_slotsOf_iff.mp member
  exact outcome_of_planned (slotOf_eq_planned_iff.mp slot).1

private theorem pending_of_mem_slotsOf (calm : tree.Calm)
    (member : .planned plan ∈ slotsOf table tree) : Pending tree.files plan := by
  refine ⟨?_, (laid_slotsOf table calm.honest).landing plan member⟩
  obtain ⟨target, _, text, follows⟩ := follows_of_mem_slotsOf member
  rw [follows.path]
  exact Memory.held_of_read follows.read

/-- No file moves to the place of another file of the run. -/
def Spread (table : Table) (tree : Memory) : Prop :=
  ∀ plan, .planned plan ∈ slotsOf table tree → plan.file.isMoved = true →
    ∀ target ∈ targets table tree.paths, target.path ≠ plan.file.finalPath

theorem Spread.pairwise (spread : Spread table tree) (calm : tree.Calm) :
    (slotsOf table tree).Pairwise Unhindered := by
  have ordered := slotsOf_ordered table tree
  have elsewhere : ∀ {a b : Planned}, .planned a ∈ slotsOf table tree →
      .planned b ∈ slotsOf table tree → a.file.isMoved = true →
        a.file.finalPath ≠ b.file.path := by
    intro a b first second away same
    obtain ⟨target, targetMember, _, follows⟩ := follows_of_mem_slotsOf second
    exact spread a first away target targetMember (follows.path.symm.trans same.symm)
  refine (List.Pairwise.and_mem.mp ordered.sorted).imp ?_
  rintro slot other ⟨member, otherMember, less⟩ a b rfl rfl
  refine ⟨?_, elsewhere member otherMember, elsewhere otherMember member, ?_⟩
  · intro same
    rw [Slot.report, Slot.report, ordered.named a member, ordered.named b otherMember,
      same] at less
    exact String.lt_irrefl _ less
  · exact (laid_slotsOf table calm.honest).agree member otherMember

private theorem commitAll_of_spread (options : RunOptions) (goesOn : options.failOnConflict = false)
    (calm : tree.Calm) (spread : Spread table tree) {order : List Slot}
    (perm : order.Perm (slotsOf table tree)) :
    let ready := (createDestinations tree (slotsOf table tree)).2
    (commitAll options false ready order).1 = order.map Slot.report ∧
      Effected order tree.files (commitAll options false ready order).2.2.files := by
  intro ready
  have files : ready.files = tree.files := files_createDestinations tree _
  have unhindered : order.Pairwise Unhindered :=
    (perm.symm.pairwise_iff fun apart => apart.symm).mp (spread.pairwise calm)
  have quiet : ready.Calm := (faults_createDestinations tree _).trans calm
  have effected := commitAll_effected goesOn quiet unhindered
    (fun plan member => files ▸ pending_of_mem_slotsOf calm (perm.subset member))
    (fun plan member => foretold_of_mem_slotsOf (perm.subset member))
  rw [files] at effected
  exact effected

end Plans

/-- The files after a run are those before it, but for what the run reports: a file reported as
moved is gone and its planned text is at its destination, and one reported as rewritten has its
planned text. -/
structure Delivered (slots : List Slot) (report : Report) (start final : Dict Text) : Prop where
  moved : ∀ unit ∈ report.units, unit.outcome = .moved →
    ∃ plan, .planned plan ∈ slots ∧ plan.report = unit ∧ plan.file.path = unit.path ∧
      unit.destination = some plan.file.finalPath ∧ final.find? unit.path = none ∧
      final.find? plan.file.finalPath = some plan.file.text
  rewritten : ∀ unit ∈ report.units, unit.outcome = .rewritten →
    ∃ plan, .planned plan ∈ slots ∧ plan.report = unit ∧ plan.file.path = unit.path ∧
      final.find? unit.path = some plan.file.text
  others : ∀ path,
    (∀ unit ∈ report.units, unit.outcome = .moved →
      path ≠ unit.path ∧ unit.destination ≠ some path) →
    (∀ unit ∈ report.units, unit.outcome = .rewritten → path ≠ unit.path) →
    final.find? path = start.find? path

private theorem Effected.delivered {table : Table} {tree : Memory} {final : Dict Text}
    (effected : Effected (slotsOf table tree) tree.files final)
    (dryRun failOnConflict aborted : Bool) :
    Delivered (slotsOf table tree)
      (Report.build (bystanders table tree.paths ++ (slotsOf table tree).map Slot.report)
        dryRun failOnConflict aborted) tree.files final := by
  have ordered := slotsOf_ordered table tree
  have destination : ∀ plan, .planned plan ∈ slotsOf table tree → plan.file.isMoved = true →
      plan.report.destination = some plan.file.finalPath := by
    intro plan member away
    obtain ⟨target, _, text, follows⟩ := follows_of_mem_slotsOf member
    exact follows.destination away
  have source : ∀ unit ∈ (Report.build (bystanders table tree.paths ++
      (slotsOf table tree).map Slot.report) dryRun failOnConflict aborted).units,
      unit.outcome.isChange = true →
        ∃ plan, .planned plan ∈ slotsOf table tree ∧ plan.report = unit := by
    intro unit member changed
    rw [mem_units_build, List.mem_append] at member
    rcases member with bystander | planned
    · rw [isChange_of_mem_bystanders bystander] at changed
      cases changed
    · obtain ⟨slot, slotMember, rfl⟩ := List.mem_map.mp planned
      cases slot with
      | settled report =>
        obtain ⟨target, _, settled⟩ := mem_slotsOf_iff.mp slotMember
        rw [Slot.report, settled_of_slotOf settled] at changed
        cases changed
      | planned plan => exact ⟨plan, slotMember, rfl⟩
  have listed : ∀ plan, .planned plan ∈ slotsOf table tree →
      plan.report ∈ (Report.build (bystanders table tree.paths ++
        (slotsOf table tree).map Slot.report) dryRun failOnConflict aborted).units := by
    intro plan member
    rw [mem_units_build, List.mem_append]
    exact .inr (List.mem_map.mpr ⟨_, member, rfl⟩)
  refine ⟨?_, ?_, ?_⟩
  · intro unit member moved
    obtain ⟨plan, planned, rfl⟩ := source unit member (by rw [moved]; rfl)
    have away : plan.file.isMoved = true := by
      rw [foretold_of_mem_slotsOf planned, Planned.outcome] at moved
      split at moved
      · next away => exact away
      · split at moved <;> cases moved
    have named := ordered.named plan planned
    refine ⟨plan, planned, rfl, named.symm, destination plan planned away, ?_, ?_⟩
    · rw [named]
      exact effected.left plan planned away
    · exact effected.arrived plan planned away
  · intro unit member rewritten
    obtain ⟨plan, planned, rfl⟩ := source unit member (by rw [rewritten]; rfl)
    have named := ordered.named plan planned
    refine ⟨plan, planned, rfl, named.symm, ?_⟩
    rw [foretold_of_mem_slotsOf planned, Planned.outcome] at rewritten
    split at rewritten
    · cases rewritten
    · next stays =>
      split at rewritten
      · next changed =>
        rw [named]
        exact effected.rewritten plan planned (by simpa using stays) changed
      · cases rewritten
  · intro path noMover noRewriter
    refine effected.others path ?_ ?_
    · intro plan planned away
      have outcome : plan.report.outcome = .moved := by
        simp [foretold_of_mem_slotsOf planned, Planned.outcome, away]
      obtain ⟨notOwn, notFinal⟩ := noMover plan.report (listed plan planned) outcome
      rw [ordered.named plan planned] at notOwn
      refine ⟨notOwn, fun same => notFinal ?_⟩
      rw [destination plan planned away, same]
    · intro plan planned stays changed
      have outcome : plan.report.outcome = .rewritten := by
        simp [foretold_of_mem_slotsOf planned, Planned.outcome, stays, changed]
      rw [← ordered.named plan planned]
      exact noRewriter plan.report (listed plan planned) outcome

/-- Where no file moves to the place of another file of the run, a run without faults that does not
stop on conflicts ends in the same files and the same report in whatever order its slots are
committed. The report is that of a dry run, and the files are as it tells. -/
theorem any_order_as_planned (table : Table) (options : RunOptions)
    (wet : options.dryRun = false) (goesOn : options.failOnConflict = false) (tree : Memory)
    (calm : tree.Calm) (spread : Spread table tree) :
    ∃ report final, run table options tree = (.ok report, final) ∧
      (∀ order, order.Perm (createDestinations tree (slotsOf table tree)).1 →
        let ready := (createDestinations tree (slotsOf table tree)).2
        let committed := commitAll options false ready order
        committed.2.2.files = final.files ∧
          Report.build (bystanders table tree.paths ++ committed.1) false options.failOnConflict
            committed.2.1 = report) ∧
      run table { options with dryRun := true } tree = (.ok { report with dryRun := true }, tree) ∧
      Delivered (slotsOf table tree) report tree.files final.files := by
  have carried := run_of_carriedOut calm.walk (show ¬Stops table options tree by
    simp [Stops, wet, goesOn])
  rw [carryOut_of_calm table options calm, commitAll_aborted goesOn] at carried
  obtain ⟨reports, effected⟩ := commitAll_of_spread options goesOn calm spread (.refl _)
  rw [reports] at carried
  have listed : (((slotsOf table tree).map Slot.report).map (·.path)).Perm
      ((targets table tree.paths).map (·.path)) := by
    rw [List.map_map]
    exact .of_eq (paths_slotsOf table tree)
  refine ⟨_, _, carried, ?_, ?_, effected.delivered _ _ _⟩
  · intro order perm ready committed
    rw [createDestinations_of_calm calm] at perm
    obtain ⟨permutedReports, permuted⟩ := commitAll_of_spread options goesOn calm spread perm
    refine ⟨effected.files_eq perm permuted, ?_⟩
    have aborted : committed.2.1 = false := commitAll_aborted goesOn ready order
    rw [permutedReports, aborted]
    refine Report.build_eq_of_perm ((perm.map Slot.report).append_left _) ?_ _ _ _
    refine distinct_paths table tree (List.Perm.trans ?_ listed)
    exact (perm.map Slot.report).map _
  · simp only [run, Memory.tree_walk, calm.walk, execute, if_true]
    rfl

/-- A mapping that sends two files to one place, in a directory that is not walked, and a third to
another. -/
def courierTable : Table where
  modulePath := "m"
  packages := Dict.ofList [("d", ⟨"d", "d", "m/d"⟩), ("fixtures", ⟨"fixtures", "testdata", "m/f"⟩)]
  files := Dict.ofList [("a/x.go", "fixtures"), ("b/x.go", "fixtures"), ("a/z.go", "d")]
  symbols := []
  excludes := []
  includeTests := true

/-- The place that two files go to has their text already. -/
def courierTree : Memory :=
  .ofFiles [("a/x.go", "package a\n".toList), ("a/z.go", "package a\n".toList),
    ("b/x.go", "package b\n".toList), ("d/y.go", "package c\n".toList),
    ("testdata/x.go", "package fixtures\n".toList)]

/-- Committed from the last slot to the first, all files come where they should. -/
theorem courier_in_reverse :
    Spread courierTable courierTree ∧
      (commitAll {} false (createDestinations courierTree (slotsOf courierTable courierTree)).2
        (slotsOf courierTable courierTree).reverse).2.2.files =
          (run courierTable {} courierTree).2.files ∧
      (run courierTable {} courierTree).2.files.entries =
        [("d/y.go", "package d\n".toList), ("d/z.go", "package d\n".toList),
          ("testdata/x.go", "package fixtures\n".toList)] := by
  have clear : ∀ slot ∈ slotsOf courierTable courierTree,
      ∀ target ∈ targets courierTable courierTree.paths,
        ∀ plan ∈ (match slot with | .planned plan => [plan] | .settled _ => [] : List Planned),
          plan.file.isMoved = true → target.path ≠ plan.file.finalPath := by
    decide +kernel
  have spread : Spread courierTable courierTree := fun plan member away target targetMember =>
    clear _ member target targetMember plan List.mem_cons_self away
  have calm : courierTree.Calm := rfl
  obtain ⟨report, final, done, orders, _⟩ :=
    any_order_as_planned courierTable {} rfl rfl courierTree calm spread
  have perm : (slotsOf courierTable courierTree).reverse.Perm
      (createDestinations courierTree (slotsOf courierTable courierTree)).1 := by
    rw [createDestinations_of_calm calm]
    exact List.reverse_perm _
  refine ⟨spread, ?_, by decide +kernel⟩
  rw [done]
  exact (orders _ perm).1

end Repackage.Run
