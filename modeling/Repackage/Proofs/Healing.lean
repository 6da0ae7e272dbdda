import Repackage.Proofs.Execution

/-!
Interrupted runs heal. Where every file that moves goes to a place of its own, whatever fails leaves
each file where it was, at its destination, or at both, and each file that stays with its old text
or its new one. A last run without faults takes every file from any of these states to its end,
which is that of a single run.
-/

set_option autoImplicit false
set_option relaxedAutoImplicit false

namespace Repackage.Run

/-- Every file that moves goes to a place of its own: there is no file there, no other file goes
there, and no assignment sends a file on from there. -/
def Clear (table : Table) (tree : Memory) : Prop :=
  ∀ target ∈ targets table tree.paths, HasForm table tree target →
    target.destination ≠ target.path →
      tree.files.find? target.destination = none ∧
      (∀ other ∈ targets table tree.paths, other.destination = target.destination →
        other = target) ∧
      table.packageOfFile? target.destination = none

def Job (table : Table) (tree : Memory) (file : SourceFile) : Prop :=
  ∃ target ∈ targets table tree.paths, ∃ text, tree.files.find? target.path = some text ∧
    revise table target text = some file

def Finished (file : SourceFile) (files : Dict Text) : Prop :=
  files.find? file.finalPath = some file.text ∧
    (file.isMoved = true → files.find? file.path = none)

def Underway (tree : Memory) (file : SourceFile) (files : Dict Text) : Prop :=
  Finished file files ∨
    files.find? file.path = tree.files.find? file.path ∧
      (file.isMoved = true → files.find? file.finalPath = none ∨
        files.find? file.finalPath = some file.text)

/-- The files between the start and the end of runs over a tree. -/
structure Between (table : Table) (tree : Memory) (files : Dict Text) : Prop where
  jobs : ∀ file, Job table tree file → Underway tree file files
  others : ∀ path, (∀ file, Job table tree file → path ≠ file.path ∧ path ≠ file.finalPath) →
    files.find? path = tree.files.find? path

section Jobs

variable {table : Table} {tree : Memory} {file other : SourceFile}

theorem Job.held (job : Job table tree file) : tree.files.find? file.path ≠ none := by
  obtain ⟨target, _, text, held, revised⟩ := job
  rw [(revise_place revised).1, held]
  simp

theorem Job.free (clear : Clear table tree) (job : Job table tree file)
    (away : file.isMoved = true) : tree.files.find? file.finalPath = none := by
  obtain ⟨target, member, text, held, revised⟩ := job
  rw [(revise_place revised).2]
  exact (clear target member ⟨text, file, held, revised⟩ ((revise_isMoved_iff revised).mp away)).1

theorem Job.eq_of_path (job : Job table tree file) (otherJob : Job table tree other)
    (same : file.path = other.path) : file = other := by
  obtain ⟨target, member, text, held, revised⟩ := job
  obtain ⟨otherTarget, otherMember, otherText, otherHeld, otherRevised⟩ := otherJob
  rw [(revise_place revised).1, (revise_place otherRevised).1] at same
  obtain rfl := target_eq_of_path member otherMember same
  rw [held, Option.some.injEq] at otherHeld
  subst otherHeld
  rw [revised] at otherRevised
  exact Option.some.inj otherRevised

private theorem Job.path_ne_final (clear : Clear table tree) (job : Job table tree file)
    (otherJob : Job table tree other) (different : file ≠ other) :
    file.path ≠ other.finalPath := by
  intro same
  cases away : other.isMoved with
  | true =>
    have absent := otherJob.free clear away
    rw [← same] at absent
    exact job.held absent
  | false =>
    have home := SourceFile.final_of_stays away
    exact different (job.eq_of_path otherJob (same.trans home))

private theorem Job.final_ne_final (clear : Clear table tree) (job : Job table tree file)
    (otherJob : Job table tree other) (different : file ≠ other) :
    file.finalPath ≠ other.finalPath := by
  intro same
  cases away : file.isMoved with
  | false =>
    have home := SourceFile.final_of_stays away
    exact job.path_ne_final clear otherJob different (home.symm.trans same)
  | true =>
    obtain ⟨target, member, text, held, revised⟩ := job
    have own := otherJob
    obtain ⟨otherTarget, otherMember, otherText, otherHeld, otherRevised⟩ := own
    have alone := (clear target member ⟨text, file, held, revised⟩
      ((revise_isMoved_iff revised).mp away)).2.1
    rw [(revise_place revised).2, (revise_place otherRevised).2] at same
    obtain rfl := alone otherTarget otherMember same.symm
    refine different (Job.eq_of_path ⟨otherTarget, member, text, held, revised⟩ otherJob ?_)
    rw [(revise_place revised).1, (revise_place otherRevised).1]

private theorem between_start (clear : Clear table tree) : Between table tree tree.files where
  jobs := fun _ job => .inr ⟨rfl, fun away => .inl (job.free clear away)⟩
  others := fun _ _ => rfl

theorem Between.files_eq {first second : Dict Text} (between : Between table tree first)
    (betweenToo : Between table tree second)
    (done : ∀ file, Job table tree file → Finished file first)
    (doneToo : ∀ file, Job table tree file → Finished file second) : first = second := by
  apply Dict.ext_find?
  intro path
  by_cases concerned : ∃ file, Job table tree file ∧ (path = file.path ∨ path = file.finalPath)
  · obtain ⟨file, job, place⟩ := concerned
    obtain ⟨final, gone⟩ := done file job
    obtain ⟨finalToo, goneToo⟩ := doneToo file job
    by_cases arrives : path = file.finalPath
    · rw [arrives, final, finalToo]
    · have own := place.resolve_right arrives
      have away : file.isMoved = true := SourceFile.isMoved_iff.mpr (own ▸ Ne.symm arrives)
      rw [own, gone away, goneToo away]
  · have elsewhere : ∀ file, Job table tree file → path ≠ file.path ∧ path ≠ file.finalPath :=
      fun file job =>
        ⟨fun same => concerned ⟨file, job, .inl same⟩, fun same => concerned ⟨file, job, .inr same⟩⟩
    rw [between.others path elsewhere, betweenToo.others path elsewhere]

end Jobs

section Steps

variable {table : Table} {tree state : Memory} {file other : SourceFile}

theorem Job.untouched (clear : Clear table tree) (job : Job table tree file)
    (otherJob : Job table tree other) (different : file ≠ other) (state : Memory)
    (changed : Bool) :
    (other.commit state changed).2.files.find? file.path = state.files.find? file.path ∧
      (other.commit state changed).2.files.find? file.finalPath =
        state.files.find? file.finalPath :=
  ⟨other.commit_find?_other state changed (fun same => different (job.eq_of_path otherJob same))
      (job.path_ne_final clear otherJob different),
    other.commit_find?_other state changed
      (otherJob.path_ne_final clear job different.symm).symm
      (job.final_ne_final clear otherJob different)⟩

theorem Finished.again (finished : Finished file state.files) (changed : Bool) :
    Finished file (file.commit state changed).2.files := by
  obtain ⟨final, gone⟩ := finished
  unfold SourceFile.commit
  cases away : file.isMoved with
  | true =>
    rw [if_pos rfl]
    have apart := SourceFile.isMoved_iff.mp away
    rcases file.move_files state away with same | ⟨absent, _⟩ | ⟨_, erased⟩ | ⟨absent, _⟩
    · rw [same]
      exact ⟨final, gone⟩
    · rw [final] at absent
      cases absent
    · rw [erased]
      refine ⟨?_, fun _ => ?_⟩
      · rw [Dict.find?_erase, if_neg apart, final]
      · rw [Dict.find?_erase, if_pos rfl]
    · rw [final] at absent
      cases absent
  | false =>
    have home := SourceFile.final_of_stays away
    rw [if_neg Bool.false_ne_true]
    cases changed with
    | false => exact ⟨final, gone⟩
    | true =>
      rw [if_pos rfl]
      refine ⟨?_, fun moved => absurd moved (by simp [away])⟩
      rcases file.rewriteInPlace_files state with same | wrote
      · rw [same, final]
      · rw [wrote, home, Dict.find?_insert, if_pos rfl]

theorem Finished.commit (clear : Clear table tree) (job : Job table tree file)
    (otherJob : Job table tree other) (changed : Bool) (finished : Finished file state.files) :
    Finished file (other.commit state changed).2.files := by
  by_cases same : file = other
  · subst same
    exact finished.again changed
  · obtain ⟨own, final⟩ := job.untouched clear otherJob same state changed
    rw [Finished, own, final]
    exact finished

theorem Underway.again (underway : Underway tree file state.files) (changed : Bool) :
    Underway tree file (file.commit state changed).2.files := by
  rcases underway with finished | ⟨own, ready⟩
  · exact .inl (finished.again changed)
  · unfold SourceFile.commit
    cases away : file.isMoved with
    | true =>
      rw [if_pos rfl]
      have apart := SourceFile.isMoved_iff.mp away
      rcases file.move_files state away with same | ⟨_, wrote⟩ | ⟨present, erased⟩ | ⟨_, both⟩
      · rw [same]
        exact .inr ⟨own, ready⟩
      · refine .inr ⟨?_, fun _ => .inr ?_⟩
        · rw [wrote, Dict.find?_insert, if_neg apart.symm, own]
        · rw [wrote, Dict.find?_insert, if_pos rfl]
      · refine .inl ⟨?_, fun _ => ?_⟩
        · rw [erased, Dict.find?_erase, if_neg apart]
          exact (ready away).resolve_left present
        · rw [erased, Dict.find?_erase, if_pos rfl]
      · refine .inl ⟨?_, fun _ => ?_⟩
        · rw [both, Dict.find?_erase, if_neg apart, Dict.find?_insert, if_pos rfl]
        · rw [both, Dict.find?_erase, if_pos rfl]
    | false =>
      have home := SourceFile.final_of_stays away
      rw [if_neg Bool.false_ne_true]
      cases changed with
      | false => exact .inr ⟨own, ready⟩
      | true =>
        rw [if_pos rfl]
        rcases file.rewriteInPlace_files state with same | wrote
        · rw [same]
          exact .inr ⟨own, ready⟩
        · refine .inl ⟨?_, fun moved => absurd moved (by simp [away])⟩
          rw [wrote, home, Dict.find?_insert, if_pos rfl]

theorem Between.commit (clear : Clear table tree) (job : Job table tree file) (changed : Bool)
    (between : Between table tree state.files) :
    Between table tree (file.commit state changed).2.files where
  jobs := by
    intro other otherJob
    have underway := between.jobs other otherJob
    by_cases same : other = file
    · subst same
      exact underway.again changed
    · obtain ⟨own, final⟩ := otherJob.untouched clear job same state changed
      rw [Underway, Finished, own, final]
      exact underway
  others := by
    intro path elsewhere
    obtain ⟨notOwn, notFinal⟩ := elsewhere file job
    rw [file.commit_find?_other state changed notOwn notFinal]
    exact between.others path elsewhere

end Steps

section Runs

variable {table : Table} {tree state : Memory} {file : SourceFile} {slots : List Slot}

def Steady (table : Table) (tree state : Memory) : Prop :=
  ∀ target ∈ targets table state.paths, ∀ plan, planTarget table state target = .planned plan →
    Job table tree plan.file ∨ plan.file.isMoved = false ∧ plan.changed = false

theorem Steady.slot (steady : Steady table tree state) {plan : Planned}
    (member : .planned plan ∈ slotsOf table state) :
    Job table tree plan.file ∨ plan.file.isMoved = false ∧ plan.changed = false := by
  obtain ⟨target, targetMember, slot⟩ := mem_slotsOf_iff.mp member
  exact steady target targetMember plan (slotOf_eq_planned_iff.mp slot).1

private theorem Steady.loop_preserves (steady : Steady table tree state)
    (invariant : Dict Text → Prop)
    (step : ∀ file, Job table tree file → ∀ now : Memory, ∀ changed, invariant now.files →
      invariant (file.commit now changed).2.files)
    (part : ∀ plan, .planned plan ∈ slots → .planned plan ∈ slotsOf table state)
    (options : RunOptions) (aborted : Bool) {now : Memory} (start : invariant now.files) :
    invariant (commitAll options aborted now slots).2.2.files := by
  refine commitAll_preserves options aborted (fun now => invariant now.files) ?_ start
  intro plan member now held
  rcases steady.slot (part plan member) with job | ⟨stays, same⟩
  · exact step plan.file job now plan.changed held
  · rw [same, SourceFile.commit_unchanged stays]
    exact held

private theorem Steady.run_preserves (steady : Steady table tree state)
    (invariant : Dict Text → Prop)
    (step : ∀ file, Job table tree file → ∀ now : Memory, ∀ changed, invariant now.files →
      invariant (file.commit now changed).2.files)
    (options : RunOptions) (start : invariant state.files) :
    invariant (run table options state).2.files := by
  rcases run_tree_cases table options state with same | ⟨_, carried⟩
  · rw [same]
    exact start
  · rw [carried]
    refine steady.loop_preserves invariant step
      (fun plan member => planned_of_createDestinations member) options false ?_
    rw [files_createDestinations]
    exact start

theorem Steady.planned (clear : Clear table tree) (steady : Steady table tree state)
    (calm : state.Calm) (job : Job table tree file)
    (own : state.files.find? file.path = tree.files.find? file.path)
    (ready : file.isMoved = true → state.files.find? file.finalPath = none ∨
      state.files.find? file.finalPath = some file.text) :
    ∃ plan text, .planned plan ∈ slotsOf table state ∧ plan.file = file ∧
      state.files.find? file.path = some text ∧
      plan.changed = decide (file.text ≠ text) := by
  have ownJob := job
  obtain ⟨target, member, text, held, revised⟩ := ownJob
  obtain ⟨path, final⟩ := revise_place revised
  have moves := revise_isMoved_iff revised
  rw [path, held] at own
  have present : target ∈ targets table state.paths := by
    rw [mem_targets_iff, Memory.mem_paths_iff] at member ⊢
    exact ⟨⟨by simp [own], member.1.2⟩, member.2⟩
  have reaches : target.destination = target.path ∨
      state.files.find? target.destination = none ∨
      state.files.find? target.destination = some file.text := by
    by_cases stays : target.destination = target.path
    · exact .inl stays
    · rw [← final]
      exact .inr (ready (moves.mpr stays))
  obtain ⟨plan, planned, rfl, follows⟩ := planned_of_calm calm own revised reaches
  refine ⟨plan, text, mem_slotsOf_iff.mpr ⟨target, present, slotOf_eq_planned_iff.mpr
    ⟨planned, ?_⟩⟩, rfl, path ▸ own, follows.changed⟩
  cases away : plan.file.isMoved with
  | false =>
    exact .inr (undisputed_of_stays (targets_nodup table state) present planned away)
  | true =>
    cases written : plan.alreadyWritten with
    | true => exact .inl rfl
    | false =>
      right
      have absent := follows.free away written
      -- Whoever else would write there would have to be this file, or to be there already.
      refine claimants_le_one_of_sole (targets_nodup table state) target
        fun other otherMember draft drafted _ same => ?_
      obtain ⟨otherText, otherFollows⟩ := follows_of_planned drafted
      rcases steady other otherMember draft drafted with otherJob | ⟨stays, _⟩
      · by_cases equal : draft.file = plan.file
        · refine target_eq_of_path otherMember present ?_
          rw [← otherFollows.path, equal, path]
        · exact absurd same (otherJob.final_ne_final clear job equal)
      · have home := SourceFile.final_of_stays stays
        rw [← same, home, otherFollows.path] at absent
        exact absurd absent (Memory.held_of_read otherFollows.read)

theorem Steady.finished (clear : Clear table tree) (steady : Steady table tree state)
    (calm : state.Calm) (between : Between table tree state.files)
    (job : Job table tree file) : Finished file (run table {} state).2.files := by
  have keeps := fun other (otherJob : Job table tree other) (now : Memory) changed
    (finished : Finished file now.files) => finished.commit clear job otherJob changed
  by_cases already : Finished file state.files
  · exact steady.run_preserves (Finished file) keeps {} already
  · obtain ⟨own, ready⟩ := (between.jobs file job).resolve_left already
    obtain ⟨plan, text, planned, rfl, held, differs⟩ :=
      steady.planned clear calm job own ready
    rw [run_of_carriedOut calm.walk (by simp [Stops]), carryOut_of_calm table {} calm]
    have waiting := ready_of_calm table calm
    obtain ⟨before, after, turn, place, taken, _, final⟩ := waiting.reported {} rfl planned
    have start : Between table tree
        (createDestinations state (slotsOf table state)).2.files := by
      rw [files_createDestinations]
      exact between
    have now : Between table tree
        (commitAll {} false (createDestinations state (slotsOf table state)).2 before).2.2.files :=
      steady.loop_preserves (Between table tree)
        (fun other otherJob now changed between => between.commit clear otherJob changed)
        (fun other member => by simp [place, member]) {} false start
    rw [← files_createDestinations state (slotsOf table state)] at held
    have still := waiting.ordered.held_at_turn place {} false held
    rw [final]
    refine steady.loop_preserves (Finished plan.file) keeps
      (fun other member => by simp [place, member]) {} turn.2.1 ?_
    cases taken with
    | moved away _ _ files =>
      refine ⟨?_, fun _ => ?_⟩
      · rw [files, if_neg (SourceFile.isMoved_iff.mp away), if_pos rfl]
      · rw [files, if_pos rfl]
    | conflict away current _ occupied different _ _ =>
      rcases now.jobs plan.file job with ⟨_, gone⟩ | ⟨_, reaches⟩
      · rw [gone away] at still
        cases still
      · rw [occupied] at reaches
        rcases reaches away with absent | same
        · cases absent
        · exact absurd (Option.some.inj same) different
    | rewritten stays _ _ files =>
      have home := SourceFile.final_of_stays stays
      refine ⟨?_, fun moved => absurd moved (by simp [stays])⟩
      rw [files, home, Dict.find?_insert, if_pos rfl]
    | unchanged stays same _ _ =>
      have home := SourceFile.final_of_stays stays
      rw [differs, decide_eq_false_iff_not, not_not] at same
      rw [files_createDestinations] at held
      refine absurd ⟨?_, fun moved => absurd moved (by simp [stays])⟩ already
      rw [home, held, same]

end Runs

section Ends

variable {table : Table} {tree state : Memory}

private theorem destination_of_unassigned {path : String} {target : Target}
    (found : participant? table path = some target) (free : table.packageOfFile? path = none) :
    target.destination = path := by
  unfold participant? enlist target? at found
  rw [free] at found
  split at found
  · split at found
    · cases found
    · cases enlisted : table.packageOfDir? (Path.parent path) with
      | none =>
        rw [enlisted] at found
        cases found
      | some package =>
        rw [enlisted] at found
        cases found
        rfl
  · cases found

def Stable (table : Table) (tree : Memory) : Prop :=
  ∀ file, Job table tree file → Memory.isHidden file.finalPath = false →
    ∀ target, participant? table file.finalPath = some target →
      target.destination = target.path ∧
        ∀ next, revise table target file.text = some next → next.text = file.text

theorem Job.destination (clear : Clear table tree) {file : SourceFile}
    (job : Job table tree file) {target : Target}
    (found : participant? table file.finalPath = some target) :
    target.destination = target.path := by
  have path := participant?_path found
  obtain ⟨source, member, text, held, revised⟩ := job
  obtain ⟨own, final⟩ := revise_place revised
  by_cases stays : source.destination = source.path
  · rw [final, stays, (mem_targets_iff.mp member).2] at found
    cases found
    exact stays
  · rw [path]
    refine destination_of_unassigned found ?_
    rw [final]
    exact (clear source member ⟨text, file, held, revised⟩ stays).2.2

private theorem stable_of_unchanged (clear : Clear table tree) (calm : state.Calm)
    (done : ∀ file, Job table tree file → Finished file state.files)
    (unchanged : (run table {} state).2.files = state.files) : Stable table tree := by
  intro file job visible target found
  have stays := job.destination clear found
  refine ⟨stays, fun next revised => ?_⟩
  have path := participant?_path found
  have held := (done file job).1
  rw [← path] at held visible
  by_contra differs
  have member : target ∈ targets table state.paths :=
    mem_targets_iff.mpr ⟨Memory.mem_paths_iff.mpr ⟨by simp [held], visible⟩, path ▸ found⟩
  obtain ⟨plan, planned, rfl, follows⟩ := planned_of_calm calm held revised (.inl stays)
  have home : plan.file.isMoved = false := by
    simpa [stays] using revise_isMoved_iff revised
  have undisputed := undisputed_of_stays (targets_nodup table state) member planned home
  have slot : .planned plan ∈ slotsOf table state :=
    mem_slotsOf_iff.mpr ⟨target, member, slotOf_eq_planned_iff.mpr ⟨planned, .inr undisputed⟩⟩
  have waiting := ready_of_calm table calm
  obtain ⟨before, after, turn, place, taken, _, final⟩ := waiting.reported {} rfl slot
  rw [run_of_carriedOut calm.walk (by simp [Stops]), carryOut_of_calm table {} calm, final]
    at unchanged
  cases taken with
  | moved away _ _ _ =>
    rw [home] at away
    cases away
  | conflict away _ _ _ _ _ _ =>
    rw [home] at away
    cases away
  | unchanged _ same _ _ =>
    rw [follows.changed, decide_eq_false_iff_not] at same
    exact same differs
  | rewritten _ _ _ files =>
    have written : turn.2.2.files.find? plan.file.path = some plan.file.text := by
      rw [files, Dict.find?_insert, if_pos rfl]
    have ends := commitAll_keeps {} turn.2.1 written (waiting.ordered.not_owned place).2
    rw [unchanged, follows.path, held] at ends
    exact differs (Option.some.inj ends).symm

private theorem steady_of_between (stable : Stable table tree)
    (fresh : state.written = []) (between : Between table tree state.files) :
    Steady table tree state := by
  intro target member plan planned
  obtain ⟨text, follows⟩ := follows_of_planned planned
  have held := Memory.honest_of_fresh fresh follows.read
  rw [mem_targets_iff, Memory.mem_paths_iff] at member
  obtain ⟨⟨_, visible⟩, found⟩ := member
  have moves := revise_isMoved_iff follows.revised
  -- At the destination of a final form there is its text, and that stays as it is.
  have settled : ∀ file, Job table tree file → file.finalPath = target.path →
      text = file.text → plan.file.isMoved = false ∧ plan.changed = false := by
    rintro file job final rfl
    rw [← final] at visible found
    obtain ⟨stays, same⟩ := stable file job visible target found
    refine ⟨by simpa [stays] using moves, ?_⟩
    rw [follows.changed, same plan.file follows.revised]
    simp
  by_cases start : tree.files.find? target.path = some text
  · -- The file is as it was in the tree, and its final form is the same.
    left
    exact ⟨target, mem_targets_iff.mpr ⟨Memory.mem_paths_iff.mpr ⟨by simp [start], visible⟩, found⟩,
      text, start, follows.revised⟩
  · right
    by_cases concerned : ∃ file, Job table tree file ∧
        (target.path = file.path ∨ target.path = file.finalPath)
    · obtain ⟨file, job, place⟩ := concerned
      rcases between.jobs file job with ⟨final, gone⟩ | ⟨own, reaches⟩
      · by_cases arrives : target.path = file.finalPath
        · rw [← arrives, held] at final
          exact settled file job arrives.symm (Option.some.inj final)
        · have own := place.resolve_right arrives
          rw [own, gone (SourceFile.isMoved_iff.mpr (own ▸ Ne.symm arrives))] at held
          cases held
      · have arrives : target.path = file.finalPath := by
          refine place.resolve_left fun same => start ?_
          rw [same, ← own, ← same, held]
        have away : file.isMoved = true := by
          refine SourceFile.isMoved_iff.mpr fun same => start ?_
          rw [arrives, same, ← own, ← same, ← arrives, held]
        have reached := reaches away
        rw [← arrives, held] at reached
        simp only [reduceCtorEq, Option.some.injEq, false_or] at reached
        exact settled file job arrives.symm reached
    · exfalso
      refine start ?_
      rw [← between.others target.path, held]
      exact fun file job => ⟨fun same => concerned ⟨file, job, .inl same⟩,
        fun same => concerned ⟨file, job, .inr same⟩⟩

private theorem steady_start (table : Table) (tree : Memory) (faults : Faults) :
    Steady table tree (tree.restart faults) := by
  intro target member plan planned
  obtain ⟨text, follows⟩ := follows_of_planned planned
  exact .inl ⟨target, member, text,
    Memory.honest_of_fresh (tree.written_restart faults) follows.read, follows.revised⟩

end Ends

/-- The tree after a run with faults, which may be one that stops on conflicts. -/
def attempt (table : Table) (tree : Memory) (way : Faults × Bool) : Memory :=
  (run table { failOnConflict := way.2 } (tree.restart way.1)).2

private theorem attempts_between {table : Table} {tree : Memory} (clear : Clear table tree)
    (stable : Stable table tree) (attempts : List (Faults × Bool)) {state : Memory}
    (between : Between table tree state.files) :
    Between table tree (attempts.foldl (attempt table) state).files := by
  induction attempts generalizing state with
  | nil => exact between
  | cons way attempts ih =>
    apply ih
    have steady : Steady table tree (state.restart way.1) :=
      steady_of_between stable (state.written_restart way.1) between
    exact steady.run_preserves (Between table tree)
      (fun file job now changed held => held.commit clear job changed) _ between

/-- Where files move to places of their own and a further run would change nothing, runs with any
faults, in any number, followed by one without faults, give the files of a single run without
faults. -/
theorem healed_by_last_run (table : Table) (tree : Memory) (clear : Clear table tree)
    (unchanged : (run table {} ((run table {} (tree.restart {})).2.restart {})).2.files =
      (run table {} (tree.restart {})).2.files)
    (attempts : List (Faults × Bool)) :
    (run table {} ((attempts.foldl (attempt table) tree).restart {})).2.files =
      (run table {} (tree.restart {})).2.files := by
  have step := fun file (job : Job table tree file) (now : Memory) changed
    (between : Between table tree now.files) => between.commit clear job changed
  have first := steady_start table tree {}
  have once : Between table tree (run table {} (tree.restart {})).2.files :=
    first.run_preserves (Between table tree) step {} (between_start clear)
  have onceDone : ∀ file, Job table tree file →
      Finished file (run table {} (tree.restart {})).2.files :=
    fun file job => first.finished clear tree.calm_restart (between_start clear) job
  have stable : Stable table tree :=
    stable_of_unchanged clear (Memory.calm_restart _) onceDone unchanged
  have between : Between table tree
      ((attempts.foldl (attempt table) tree).restart {}).files :=
    attempts_between clear stable attempts (between_start clear)
  have steady := steady_of_between stable (Memory.written_restart _ {}) between
  have last : Between table tree
      (run table {} ((attempts.foldl (attempt table) tree).restart {})).2.files :=
    steady.run_preserves (Between table tree) step {} between
  refine last.files_eq once (fun file job => ?_) onceDone
  exact steady.finished clear (Memory.calm_restart _) between job

/-- A mapping that sends one file to a package with other files. -/
def transferTable : Table where
  modulePath := "m"
  packages := Dict.ofList [("d", ⟨"d", "d", "m/d"⟩)]
  files := Dict.ofList [("a/x.go", "d")]
  symbols := []
  excludes := []
  includeTests := true

def transferTree : Memory :=
  .ofFiles [("a/x.go", "package a\n".toList), ("d/y.go", "package c\n".toList)]

/-- One run cannot write the destination, the next one cannot take the old place away. -/
theorem transfer_healed :
    Clear transferTable transferTree ∧
      (run transferTable {}
        (([(({ write := Dict.ofList [("d/x.go", "no space")] } : Faults), false),
        ({ remove := Dict.ofList [("a/x.go", "busy")] }, true)].foldl
          (attempt transferTable) transferTree).restart {})).2.files =
        (run transferTable {} (transferTree.restart {})).2.files := by
  have apart : ∀ target ∈ targets transferTable transferTree.paths,
      target.destination ≠ target.path →
        transferTree.files.find? target.destination = none ∧
        (∀ other ∈ targets transferTable transferTree.paths,
          other.destination = target.destination → other = target) ∧
        transferTable.packageOfFile? target.destination = none := by
    decide +kernel
  have clear : Clear transferTable transferTree := fun target member _ => apart target member
  have entries :
      (run transferTable {} ((run transferTable {} (transferTree.restart {})).2.restart
        {})).2.files.entries =
      (run transferTable {} (transferTree.restart {})).2.files.entries := by
    decide +kernel
  exact ⟨clear, healed_by_last_run transferTable transferTree clear
    (Dict.ext_find? fun key => congrArg (Dict.lookup key) entries) _⟩

end Repackage.Run
