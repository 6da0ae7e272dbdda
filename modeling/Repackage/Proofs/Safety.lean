import Repackage.Proofs.SharedTree

/-!
Every call that a run makes on a tree is safe on the tree that it is made on, whatever fails and
whichever worker is next. A run writes where there is no file, or over a file that it rewrites and
that is still as it was read. It takes a file away when the worker has read its text back from the
destination, or when what it has just written there reads as another one. The exception is a second
worker: of two files that are sent to the place of a third one that leaves it, both may find the
place empty, and then the later one writes over the earlier.
-/

set_option autoImplicit false
set_option relaxedAutoImplicit false

namespace Repackage.Run

section Guards

variable {options : RunOptions} {workers i j : Nat} {slots : List Slot} {tree : Memory}
  {history : List Event} {phase next : Phase Memory} {event : Event} {current later : Progress}
  {plan : Planned}

/-- The call that an operation makes on a tree. -/
inductive Calls (file : SourceFile) : Operation → TreeCall → Prop
  | write : Calls file .write (.write file.finalPath file.text)
  | undo : Calls file .undo (.remove file.finalPath)
  | copyPermissions : Calls file .copyPermissions (.copyPermissions file.path file.finalPath)
  | remove : Calls file .remove (.remove file.path)

theorem Steps.calls (steps : Steps options workers phase i event next current later)
    {call : TreeCall} {answer : Except TreeError Unit} (called : event.action = .call call answer) :
    ∃ operation, current = .underway event.plan operation ∧
      Calls event.plan.file operation call := by
  obtain ⟨_, _, _, acts⟩ := steps
  generalize next.aborted = aborted, next.tree = tree at acts
  cases acts with
  | skip plan _ | start plan _ | finish plan result => cases called
  | perform plan operation =>
    refine ⟨operation, rfl, ?_⟩
    cases operation with
    | look | compare | readBack => cases called
    | write =>
      cases called
      exact .write
    | undo =>
      cases called
      exact .undo
    | copyPermissions =>
      cases called
      exact .copyPermissions
    | remove =>
      cases called
      exact .remove

def LastRead (plan : Planned) (history : List Event) (text : Text) : Prop :=
  ∃ before after, actionsOf plan history =
      before ++ .read plan.file.finalPath (.ok text) :: after ∧
    ∀ path answer, Action.read path answer ∉ after

def Mismatched (plan : Planned) (history : List Event) : Prop :=
  ∃ before back, actionsOf plan history =
      before ++ [Arrival plan.file, .read plan.file.finalPath (.ok back)] ∧
    back ≠ plan.file.text

/-- Two files are sent to the place of a third one, which has their text and has left it. Each had a
worker that found the place empty, and the other one has filled it since. -/
structure Overtaken (workers : Nat) (slots : List Slot) (history : List Event) (now : Memory)
    (plan : Planned) : Prop where
  several : 2 ≤ workers
  moved : plan.file.isMoved = true
  looked : ⟨plan, .look false⟩ ∈ history
  departed : Departed slots history plan.file.finalPath
  arrived : ∃ other, other ≠ plan ∧ .planned other ∈ slots ∧ other.file.isMoved = true ∧
    other.file.finalPath = plan.file.finalPath ∧ ⟨other, Arrival other.file⟩ ∈ history
  same : now.files.find? plan.file.finalPath = some plan.file.text

/-- A call for a file that is safe on a tree, after a history, in a run that was planned on another
tree. -/
def Guarded (workers : Nat) (table : Table) (start : Memory) (history : List Event) (now : Memory)
    (plan : Planned) : TreeCall → Prop
  | .write path text =>
    path = plan.file.finalPath ∧ text = plan.file.text ∧
      (now.files.find? path = none ∨
        (∃ target planned, Follows table start target planned plan ∧
          plan.file.isMoved = false ∧ plan.file.path = path ∧
          now.files.find? path = some planned) ∨
        Overtaken workers (slotsOf table start) history now plan)
  | .remove path =>
    plan.file.isMoved = true ∧
      (path = plan.file.path ∧ LastRead plan history plan.file.text ∨
        path = plan.file.finalPath ∧ Mismatched plan history)
  | .copyPermissions _ _ => True
  | .createDirs _ => False

/-- A worker that has just found no file leaves it at that. -/
theorem Reaches.missing (reached : Reaches options workers (Phase.ofSlots tree slots)
    (history ++ [event]) phase) (looked : event.action = .look false) :
    phase.tree.files.find? event.plan.file.finalPath = none := by
  obtain ⟨before, k, current, later, _, steps⟩ := reached.last
  obtain ⟨same, missing⟩ := steps.looked looked
  rw [same]
  simpa [Dict.contains] using missing

private theorem Reaches.free_alone (single : workers ≤ 1) (ordered : Ordered slots)
    (reached : Reaches options workers (Phase.ofSlots tree slots) history phase)
    (found : phase.progress[i]? = some (.underway plan .write))
    (moved : plan.file.isMoved = true) : phase.tree.files.find? plan.file.finalPath = none := by
  obtain ⟨actions, known, story⟩ := reached.story_underway ordered found
  cases story with
  | write opens =>
    rcases opens with ⟨_, rfl⟩ | ⟨stays, _⟩
    · cases reached with
      | refl => cases known
      | @snoc front before _ k event was is early steps =>
        have whole := early.snoc steps
        by_cases own : event.plan = plan
        · subst own
          have last : event.action = .look false := by
            rw [show event = ⟨event.plan, event.action⟩ from rfl, actionsOf_snoc] at known
            have parts : _ ++ [event.action] = [Action.start] ++ [.look false] := known
            simpa using (List.append_inj' parts rfl).2
          exact whole.missing last
        · -- The action was for another file, though the slot of this one was taken.
          rw [steps.after, List.getElem?_set] at found
          split at found
          · split at found
            · cases found
              exact absurd (Slot.planned.inj steps.acts.slot.2).symm own
            · cases found
          · next apart =>
            exact absurd (steps.alone single (early.alone single) found rfl) (Ne.symm apart)
    · rw [moved] at stays
      cases stays

private theorem Reaches.write_guarded_moved {table : Table} {start : Memory}
    (laid : Laid start.files slots) (files : tree.files = start.files)
    (planned : ∀ plan, .planned plan ∈ slots → .planned plan ∈ slotsOf table start)
    (reached : Reaches options workers (Phase.ofSlots tree slots) history phase)
    (found : phase.progress[i]? = some (.underway plan .write)) (member : .planned plan ∈ slots)
    (moved : plan.file.isMoved = true) (looked : ⟨plan, .look false⟩ ∈ history)
    (unwritten : ⟨plan, Arrival plan.file⟩ ∉ history) :
    phase.tree.files.find? plan.file.finalPath = none ∨
      Overtaken workers (slotsOf table start) history phase.tree plan := by
  have accounts := reached.accounts (files ▸ laid)
  rw [files] at accounts
  have told := accounts.told plan.file.finalPath
  cases held : start.files.find? plan.file.finalPath with
  | none =>
    -- Nobody else is sent to a destination where there was no file.
    rcases told.absent held with free | ⟨other, otherMember, otherMoved, final, done, _⟩
    · exact .inl free
    · have sole := laid.sole plan other member otherMember moved otherMoved final.symm held
      subst sole
      exact absurd done unwritten
  | some text =>
    have departed := (accounts.missed plan member looked).resolve_left (by simp [held])
    rcases told.present text held with now | ⟨other, otherMember, stays, own, _⟩ | ⟨_, free⟩
    · obtain ⟨other, otherMember, otherMoved, final, done⟩ :=
        (told.refilled departed).resolve_left (by simp [now])
      have several : 2 ≤ workers := by
        by_contra few
        have free := reached.free_alone (by omega) laid.ordered found moved
        rw [now] at free
        cases free
      refine .inr ⟨several, moved, looked, departed.mono planned fun _ => id,
        ⟨other, ?_, planned other otherMember, otherMoved, final, done⟩, ?_⟩
      · rintro rfl
        exact unwritten done
      · rw [now, laid.landed member moved held]
    · rw [← own] at departed
      exact absurd departed (laid.not_departed otherMember stays)
    · exact .inl free

private theorem Reaches.write_guarded_stays {table : Table} {start : Memory}
    (honest : start.Honest) (laid : Laid start.files slots) (files : tree.files = start.files)
    (planned : ∀ plan, .planned plan ∈ slots → .planned plan ∈ slotsOf table start)
    (reached : Reaches options workers (Phase.ofSlots tree slots) history phase)
    (member : .planned plan ∈ slots) (stays : plan.file.isMoved = false)
    (unwritten : ⟨plan, Arrival plan.file⟩ ∉ history) :
    ∃ target text, Follows table start target text plan ∧
      phase.tree.files.find? plan.file.path = some text := by
  have accounts := reached.accounts (files ▸ laid)
  rw [files] at accounts
  obtain ⟨target, _, text, follows⟩ := follows_of_mem_slotsOf (planned plan member)
  have held : start.files.find? plan.file.path = some text := by
    rw [follows.path]
    exact honest follows.read
  refine ⟨target, text, follows, ?_⟩
  rcases (accounts.told plan.file.path).present text held with
    now | ⟨other, otherMember, _, own, done, _⟩ | ⟨departed, _⟩
  · exact now
  · have sole := laid.ordered.plan_unique otherMember member own
    subst sole
    exact absurd done unwritten
  · exact absurd departed (laid.not_departed member stays)

private theorem Reaches.write_guarded {table : Table} {start : Memory} (honest : start.Honest)
    (laid : Laid start.files slots) (files : tree.files = start.files)
    (planned : ∀ plan, .planned plan ∈ slots → .planned plan ∈ slotsOf table start)
    (reached : Reaches options workers (Phase.ofSlots tree slots) history phase)
    (found : phase.progress[i]? = some (.underway plan .write)) :
    Guarded workers table start history phase.tree plan
      (.write plan.file.finalPath plan.file.text) := by
  have member : .planned plan ∈ slots := by
    rw [← reached.slots_eq]
    exact List.mem_map.mpr ⟨_, List.mem_of_getElem? found, rfl⟩
  obtain ⟨actions, known, story⟩ := reached.story_underway laid.ordered found
  have unwritten : ⟨plan, Arrival plan.file⟩ ∉ history := by
    rw [← mem_actionsOf_iff, known]
    cases story with
    | write opens => rcases opens with ⟨_, rfl⟩ | ⟨_, _, rfl⟩ <;> simp [Arrival]
  refine ⟨rfl, rfl, ?_⟩
  cases story with
  | write opens =>
    rcases opens with ⟨moved, rfl⟩ | ⟨stays, _, rfl⟩
    · have looked : ⟨plan, .look false⟩ ∈ history := by
        rw [← mem_actionsOf_iff, known]
        simp
      exact (reached.write_guarded_moved laid files planned found member moved looked
        unwritten).imp_right .inr
    · obtain ⟨target, text, follows, now⟩ :=
        reached.write_guarded_stays honest laid files planned member stays unwritten
      have home := SourceFile.final_of_stays stays
      exact .inr (.inl ⟨target, text, follows, stays, home.symm, by rw [home, now]⟩)

private theorem Reaches.remove_guarded {table : Table} {start : Memory} {operation : Operation}
    {path : String} (ordered : Ordered slots)
    (reached : Reaches options workers (Phase.ofSlots tree slots) history phase)
    (found : phase.progress[i]? = some (.underway plan operation))
    (calls : Calls plan.file operation (.remove path)) :
    Guarded workers table start history phase.tree plan (.remove path) := by
  obtain ⟨actions, known, story⟩ := reached.story_underway ordered found
  cases calls with
  | undo =>
    cases story with
    | undo back moved different =>
      exact ⟨moved, .inr ⟨rfl, [.start, .look false], back, known, different⟩⟩
  | remove =>
    cases story with
    | @remove front verifies =>
      obtain ⟨moved, rfl | rfl⟩ := verifies
      · exact ⟨moved, .inl ⟨rfl, [.start, .look true], _, known, by simp⟩⟩
      · exact ⟨moved, .inl ⟨rfl, [.start, .look false, Arrival plan.file], _, known, by simp⟩⟩

end Guards

section Runs

variable {pool : Nat → Except String Nat} {schedule : List Nat} {table : Table}
  {options : PoolOptions} {workers : Nat} {start : Memory} {history : List Event}
  {phase : Phase Memory} {reports : List FileReport}

private theorem CarriedOut.guarded (honest : start.Honest)
    (carried : CarriedOut pool schedule table options start workers history phase reports)
    {before after : List Event} {event : Event} {call : TreeCall} {answer : Except TreeError Unit}
    (place : history = before ++ event :: after) (called : event.action = .call call answer) :
    .planned event.plan ∈ slotsOf table start ∧
      Guarded workers table start before
        ((createDestinations start (slotsOf table start)).2.replay (callsOf before)) event.plan
        call := by
  have reached := carried.reached
  rw [place] at reached
  obtain ⟨early, i, next, current, later, reached, steps⟩ := reached.at_event
  refine ⟨planned_of_createDestinations (reached.planned steps), ?_⟩
  have laid := (laid_slotsOf table honest).createDestinations start
  obtain ⟨operation, rfl, calls⟩ := steps.calls called
  have tree := reached.replay
  change early.tree = (createDestinations start (slotsOf table start)).2.replay _ at tree
  rw [← tree]
  cases calls with
  | write =>
    exact reached.write_guarded honest laid (files_createDestinations start _)
      (fun plan => planned_of_createDestinations) steps.before
  | undo => exact reached.remove_guarded laid.ordered steps.before .undo
  | remove => exact reached.remove_guarded laid.ordered steps.before .remove
  | copyPermissions => trivial

private theorem CarriedOut.bystander_kept (honest : start.Honest)
    (carried : CarriedOut pool schedule table options start workers history phase reports)
    {path : String}
    {text : Text} (held : start.files.find? path = some text)
    (elsewhere : ∀ target ∈ targets table start.paths, target.path ≠ path) :
    phase.tree.files.find? path = some text := by
  have laid := (laid_slotsOf table honest).createDestinations start
  have files := files_createDestinations start (slotsOf table start)
  have accounts := carried.reached.accounts (files ▸ laid)
  rw [files] at accounts
  have unowned : ∀ plan,
      .planned plan ∈ (createDestinations start (slotsOf table start)).1 →
        plan.file.path ≠ path := by
    intro plan member own
    obtain ⟨target, targetMember, _, follows⟩ :=
      follows_of_mem_slotsOf (planned_of_createDestinations member)
    exact elsewhere target targetMember (follows.path.symm.trans own)
  rcases (accounts.told path).present text held with
    kept | ⟨plan, member, _, own, _⟩ | ⟨⟨plan, member, _, own, _⟩, _⟩
  · exact kept
  · exact absurd own (unowned plan member)
  · exact absurd own (unowned plan member)

end Runs

/-- Along the calls of a run by any number of workers, in any schedule and with any faults, a file
is written where there is none, or in place over what it was planned from, or over its own text
where another worker has overtaken this one. It is taken away when its text has been read back from
its destination, or from there right after another one was. A file that is not of the run is as it
was at the end, and a run that only reports, or that is to stop on the problems of its plan, makes
no call at all. -/
theorem calls_guarded (pool : Nat → Except String Nat) (schedule : List Nat) (table : Table)
    (options : PoolOptions) (tree : Memory) (faults : Faults)
    {result : Except PoolError Report} {final : Memory}
    (ran : runBy pool schedule table options (tree.restart faults) = some (result, final)) :
    let start := tree.restart faults
    (final = start ∨ ∃ workers history phase reports,
      CarriedOut pool schedule table options start workers history phase reports ∧
      final = phase.tree ∧
      final = start.replay final.trace ∧
      final.trace =
        (destinationDirs (slotsOf table start)).map .createDirs ++ callsOf history ∧
      ∀ before event after call answer, history = before ++ event :: after →
        event.action = .call call answer →
          .planned event.plan ∈ slotsOf table start ∧
            Guarded workers table start before
              (start.replay ((destinationDirs (slotsOf table start)).map .createDirs ++
                callsOf before)) event.plan call) ∧
    (∀ path text, start.files.find? path = some text →
      (∀ target ∈ targets table start.paths, target.path ≠ path) →
        final.files.find? path = some text) ∧
    ((options.dryRun = true ∨ options.failOnConflict = true ∧
        ∃ slot ∈ slotsOf table start, slot.report.outcome.isProblem = true) →
      final.trace = []) := by
  intro start
  have honest : start.Honest := Memory.honest_of_fresh (tree.written_restart faults)
  have made : (createDestinations start (slotsOf table start)).2 =
      start.replay ((destinationDirs (slotsOf table start)).map .createDirs) :=
    createAll_replay start _
  have idle : final = start → (∀ path text, start.files.find? path = some text →
      (∀ target ∈ targets table start.paths, target.path ≠ path) →
        final.files.find? path = some text) ∧ final.trace = [] := by
    rintro rfl
    exact ⟨fun path text held _ => held, rfl⟩
  rcases runBy_cases ran with ⟨_, _, same⟩ | ⟨_, same⟩ | ⟨_, _, _, _, same⟩ |
    ⟨workers, history, phase, reports, carried, _, rfl⟩
  · exact ⟨.inl same, (idle same).1, fun _ => (idle same).2⟩
  · exact ⟨.inl same, (idle same).1, fun _ => (idle same).2⟩
  · exact ⟨.inl same, (idle same).1, fun _ => (idle same).2⟩
  · have trace := carried.trace rfl
    refine ⟨.inr ⟨workers, history, phase, reports, carried, rfl, ?_, trace, ?_⟩, ?_, ?_⟩
    · rw [trace]
      exact carried.replayed
    · intro before event after call answer place called
      have guarded := carried.guarded honest place called
      rw [made, ← Memory.replay_append] at guarded
      exact guarded
    · exact fun path text held elsewhere => carried.bystander_kept honest held elsewhere
    · exact fun stops => absurd stops carried.goesOn

def vacancyTable : Table where
  modulePath := "m"
  packages := Dict.ofList [("d", ⟨"d", "d", "m/d"⟩), ("e", ⟨"e", "e", "m/e"⟩)]
  files := Dict.ofList [("d/x.go", "e"), ("y/x.go", "d"), ("z/x.go", "d")]
  symbols := []
  excludes := []
  includeTests := true

def vacancyTree : Memory :=
  .ofFiles [("d/x.go", "package d\n".toList), ("y/x.go", "package d\n".toList),
    ("z/x.go", "package d\n".toList)]

/-- When the first file has moved, two workers look at its place one after the other, and then both
of them write there. -/
def vacancySchedule : List Nat :=
  [0, 0, 0, 0, 0, 0, 0, 1, 1, 2, 2, 1, 2, 1, 1, 1, 1, 2, 2, 2, 2]

/-- The second of the two writes over a file, though the file that was there is not rewritten in
place, but has moved. -/
theorem vacancy_filled_twice :
    let start := vacancyTree.restart {}
    ∃ result final, runBy (fun jobs => .ok jobs) vacancySchedule vacancyTable { jobs := 2 } start =
        some (result, final) ∧
      final = start.replay final.trace ∧
      (∃ before after, final.trace = before ++ .write "d/x.go" "package d\n".toList :: after ∧
        (start.replay before).files.find? "d/x.go" = some "package d\n".toList) ∧
      ∀ plan, .planned plan ∈ slotsOf vacancyTable start → plan.file.path = "d/x.go" →
        plan.file.isMoved = true := by
  intro start
  have ends : (runBy (fun jobs => .ok jobs) vacancySchedule vacancyTable { jobs := 2 } start).map
      (·.2.trace) = some (
        [.createDirs "e", .createDirs "d", .write "e/x.go" "package e\n".toList,
          .copyPermissions "d/x.go" "e/x.go", .remove "d/x.go",
          .write "d/x.go" "package d\n".toList] ++
        .write "d/x.go" "package d\n".toList ::
        [.copyPermissions "y/x.go" "d/x.go", .remove "y/x.go",
          .copyPermissions "z/x.go" "d/x.go", .remove "z/x.go"]) := by
    decide +kernel
  obtain ⟨⟨result, final⟩, ran, trace⟩ := Option.map_eq_some_iff.mp ends
  refine ⟨result, final, ran, ?_, ⟨_, _, trace, by decide +kernel⟩, ?_⟩
  · rcases (calls_guarded _ _ _ _ vacancyTree {} ran).1 with same | ⟨_, _, _, _, _, _, replayed, _⟩
    · rw [show final = start from same] at trace
      cases trace
    · exact replayed
  · have away : ∀ target ∈ targets vacancyTable start.paths, target.path = "d/x.go" →
        target.destination ≠ target.path := by
      decide +kernel
    intro plan member own
    obtain ⟨target, targetMember, _, follows⟩ := follows_of_mem_slotsOf member
    rw [SourceFile.isMoved_iff, follows.final, follows.path]
    exact away target targetMember (follows.path.symm.trans own)

end Repackage.Run
