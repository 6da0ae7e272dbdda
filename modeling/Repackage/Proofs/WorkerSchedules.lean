import Repackage.Proofs.Workers

/-!
Schedules of workers. Nobody waits for anybody else and a slot takes seven actions at most, so every
beginning of a schedule is that of one that does all the slots. The run that commits one slot after
another is the run of workers that take turns that way, so that what is proved for every schedule
holds of it.
-/

set_option autoImplicit false
set_option relaxedAutoImplicit false

namespace Repackage

/-- How many operations of a commit there are at most from this one on. -/
def Operation.rest : Operation → Nat
  | .look => 5
  | .write => 4
  | .compare | .readBack => 3
  | .copyPermissions => 2
  | .undo | .remove => 1

section Commits

variable {σ : Type} [Tree σ] {file : SourceFile}

/-- Operations one after another until there is a result. -/
inductive SourceFile.Drives (file : SourceFile) :
    Operation ⊕ Except Failure Committed → σ → Except Failure Committed → σ → Prop
  | done (result : Except Failure Committed) (tree : σ) : Drives file (.inr result) tree result tree
  | next {operation : Operation} {tree after : σ} {result : Except Failure Committed} :
    Drives file (file.perform tree operation).2.1 (file.perform tree operation).2.2 result after →
    Drives file (.inl operation) tree result after

namespace SourceFile

private theorem drives_finishMove (file : SourceFile) (tree : σ) :
    file.Drives (.inl .copyPermissions) tree (file.finishMove tree).1
      (file.finishMove tree).2 := by
  apply Drives.next
  simp only [perform, finishMove]
  rcases Tree.copyPermissions tree file.path file.finalPath with ⟨cause | ⟨⟩, copy⟩
  · exact .done _ _
  · apply Drives.next
    simp only [perform]
    rcases Tree.remove copy file.path with ⟨cause | ⟨⟩, rest⟩ <;> exact .done _ _

private theorem drives_move (tree : σ) (moved : file.isMoved = true) :
    file.Drives (.inl .look) tree (file.move tree).1 (file.move tree).2 := by
  apply Drives.next
  simp only [perform, move, checkDestination, moved, Bool.not_true, Bool.false_eq_true, false_or]
  cases Tree.holds tree file.finalPath with
  | true =>
    simp only [if_true, Bool.not_true, Bool.false_eq_true, if_false]
    apply Drives.next
    simp only [perform]
    cases Tree.read tree file.finalPath with
    | error cause => exact .done _ _
    | ok current =>
      by_cases same : current = file.text
      · simp only [same, if_true]
        exact drives_finishMove file tree
      · simp only [same, if_false]
        exact .done _ _
  | false =>
    simp only [Bool.false_eq_true, if_false, Bool.not_false, if_true, writeVerified]
    apply Drives.next
    simp only [perform]
    rcases Tree.write tree file.finalPath file.text with ⟨cause | ⟨⟩, wrote⟩
    · exact .done _ _
    · apply Drives.next
      simp only [perform, moved, if_true]
      cases Tree.read wrote file.finalPath with
      | error cause => exact .done _ _
      | ok back =>
        by_cases same : back = file.text
        · simp only [same, if_true]
          exact drives_finishMove file wrote
        · simp only [same, if_false]
          exact .next (.done _ _)

private theorem drives_commit (file : SourceFile) (tree : σ) (changed : Bool) :
    file.Drives (file.firstOperation changed) tree (file.commit tree changed).1
      (file.commit tree changed).2 := by
  unfold firstOperation commit
  cases moved : file.isMoved with
  | true => exact drives_move tree moved
  | false =>
    have home := final_of_stays moved
    cases changed with
    | false => exact .done _ _
    | true =>
      simp only [Bool.false_eq_true, if_false, if_true]
      apply Drives.next
      simp only [perform, rewriteInPlace, writeVerified, home]
      rcases Tree.write tree file.path file.text with ⟨cause | ⟨⟩, wrote⟩
      · exact .done _ _
      · apply Drives.next
        simp only [perform, moved, home, Bool.false_eq_true, if_false]
        cases Tree.read wrote file.path with
        | error cause => exact .done _ _
        | ok back =>
          by_cases same : back = file.text
          · simp only [same, if_true]
            exact .done _ _
          · simp only [same, if_false]
            exact .done _ _

end SourceFile

end Commits

namespace Run

/-- How many actions the rest of a slot takes at most. -/
def Progress.rest : Progress → Nat
  | .settled _ | .finished _ _ => 0
  | .waiting _ => 7
  | .underway _ operation => operation.rest + 1
  | .committed _ _ => 1

def restAll : List Progress → Nat
  | [] => 0
  | current :: behind => current.rest + restAll behind

def Phase.rest {σ : Type} (phase : Phase σ) : Nat :=
  restAll phase.progress

private theorem restAll_append (ahead behind : List Progress) :
    restAll (ahead ++ behind) = restAll ahead + restAll behind := by
  induction ahead with
  | nil => simp [restAll]
  | cons current ahead ih =>
    rw [List.cons_append, restAll, restAll, ih, Nat.add_assoc]

private theorem rest_ofSlots {σ : Type} (tree : σ) (slots : List Slot) :
    (Phase.ofSlots tree slots).rest ≤ 7 * slots.length := by
  unfold Phase.ofSlots Phase.rest
  induction slots with
  | nil => exact Nat.le_refl _
  | cons slot slots ih =>
    have first : (Progress.ofSlot slot).rest ≤ 7 := by
      cases slot <;> simp [Progress.ofSlot, Progress.rest]
    simp only [List.map_cons, restAll, List.length_cons] at ih ⊢
    omega

private theorem exists_unreported {all : List Progress}
    (unfinished : all.mapM Progress.report? = none) : ∃ current ∈ all, current.report? = none := by
  induction all with
  | nil => cases unfinished
  | cons first all ih =>
    cases reported : first.report? with
    | none => exact ⟨first, List.mem_cons_self, reported⟩
    | some report =>
      cases rest : all.mapM Progress.report? with
      | none =>
        obtain ⟨current, member, unreported⟩ := ih rest
        exact ⟨current, List.mem_cons_of_mem first member, unreported⟩
      | some reports =>
        rw [List.mapM_cons, reported, rest] at unfinished
        cases unfinished

section Ends

variable {σ : Type} [Tree σ] {options : RunOptions} {workers i : Nat} {phase next last : Phase σ}
  {schedule : List Nat} {history : List Event}

@[simp]
private theorem rest_operation (plan : Planned) (operation : Operation) :
    (Progress.resume plan (.inl operation)).rest = operation.rest + 1 :=
  rfl

@[simp]
private theorem rest_result (plan : Planned) (result : Except Failure Committed) :
    (Progress.resume plan (.inr result)).rest = 1 :=
  rfl

private theorem rest_first (plan : Planned) :
    (Progress.resume plan (plan.file.firstOperation plan.changed)).rest < 7 := by
  unfold SourceFile.firstOperation
  split
  · simp [Operation.rest]
  · split <;> simp [Operation.rest]

private theorem rest_perform (plan : Planned) (tree : σ) (operation : Operation) :
    (Progress.resume plan (plan.file.perform tree operation).2.1).rest < operation.rest + 1 := by
  cases operation with
  | look =>
    simp only [SourceFile.perform]
    split <;> simp [Operation.rest]
  | compare =>
    simp only [SourceFile.perform]
    split
    · simp [Operation.rest]
    · split <;> simp [Operation.rest]
  | readBack =>
    simp only [SourceFile.perform]
    split
    · simp [Operation.rest]
    · split <;> split <;> simp [Operation.rest]
  | write | copyPermissions | remove =>
    simp only [SourceFile.perform]
    split <;> simp [Operation.rest]
  | undo =>
    simp [SourceFile.perform, Operation.rest]

/-- An action brings its slot nearer to its end. -/
private theorem Acts.rest_lt {aborted after : Bool} {tree last : σ} {current later : Progress}
    {event : Event} (acts : Acts options aborted tree current event later after last) :
    later.rest < current.rest := by
  cases acts with
  | skip plan stopped => exact Nat.zero_lt_succ _
  | start plan going => exact rest_first plan
  | perform plan operation => exact rest_perform plan tree operation
  | finish plan result => exact Nat.zero_lt_one

private theorem Steps.rest_lt {i : Nat} {event : Event} {current later : Progress}
    (steps : Steps options workers phase i event next current later) : next.rest < phase.rest := by
  obtain ⟨inside, rfl⟩ := List.getElem?_eq_some_iff.mp steps.before
  obtain ⟨ahead, behind, whole, _, replaced⟩ := @List.exists_of_set _ _ later _ inside
  have nearer := steps.acts.rest_lt
  unfold Phase.rest
  rw [steps.after, replaced]
  conv_rhs => rw [whole]
  simp only [restAll_append, restAll]
  omega

private theorem rest_of_follow
    (followed : phase.follow options workers schedule = some (history, last)) :
    schedule.length + last.rest ≤ phase.rest := by
  induction schedule generalizing phase history with
  | nil =>
    cases followed
    simp
  | cons i schedule ih =>
    simp only [Phase.follow] at followed
    split at followed
    · cases followed
    · next event next acted =>
      obtain ⟨⟨later, final⟩, tail, same⟩ := Option.map_eq_some_iff.mp followed
      cases same
      obtain ⟨current, after, steps⟩ := steps_of_act acted
      have nearer := steps.rest_lt
      have bound := ih tail
      rw [List.length_cons]
      omega

private theorem act_of_found {current later : Progress} {event : Event} {aborted : Bool} {tree : σ}
    (found : phase.progress[i]? = some current)
    (room : current.isWaiting = true → phase.progress.countP Progress.isTaken < workers)
    (acts : current.act options phase.aborted phase.tree = some (event, later, aborted, tree)) :
    phase.act options workers i = some (event, ⟨phase.progress.set i later, aborted, tree⟩) := by
  simp only [Phase.act, found]
  rw [if_neg (by rw [not_and, Nat.not_le]; exact room), acts]
  rfl

private theorem Progress.exists_act (options : RunOptions) {current : Progress}
    (unreported : current.report? = none) (aborted : Bool) (tree : σ) :
    ∃ event later after rest,
      current.act options aborted tree = some (event, later, after, rest) := by
  cases current with
  | settled _ | finished _ _ => cases unreported
  | waiting plan => cases aborted <;> exact ⟨_, _, _, _, rfl⟩
  | underway _ _ | committed _ _ => exact ⟨_, _, _, _, rfl⟩

/-- A file under way can go on, and if there is none a worker is free. -/
private theorem exists_act (options : RunOptions) (some : 0 < workers)
    (unfinished : phase.reports? = none) :
    ∃ i event next, phase.act options workers i = .some (event, next) := by
  have ready : ∃ current ∈ phase.progress, current.report? = none ∧
      (current.isWaiting = true → phase.progress.countP Progress.isTaken < workers) := by
    by_cases busy : ∃ current ∈ phase.progress, current.isTaken = true
    · obtain ⟨current, member, taken⟩ := busy
      refine ⟨current, member, ?_⟩
      cases current with
      | settled _ | waiting _ | finished _ _ => cases taken
      | underway _ _ | committed _ _ => exact ⟨rfl, fun waiting => by cases waiting⟩
    · have free : phase.progress.countP Progress.isTaken = 0 := by
        rw [List.countP_eq_zero]
        exact fun current member taken => busy ⟨current, member, taken⟩
      obtain ⟨current, member, unreported⟩ := exists_unreported unfinished
      exact ⟨current, member, unreported, fun _ => free ▸ some⟩
  obtain ⟨current, member, unreported, room⟩ := ready
  obtain ⟨i, found⟩ := List.getElem?_of_mem member
  obtain ⟨event, later, aborted, tree, acts⟩ :=
    Progress.exists_act options unreported phase.aborted phase.tree
  exact ⟨i, event, _, act_of_found found room acts⟩

theorem follow_append {rest : List Nat} {later : List Event}
    (first : phase.follow options workers schedule = some (history, next))
    (second : next.follow options workers rest = some (later, last)) :
    phase.follow options workers (schedule ++ rest) = some (history ++ later, last) := by
  induction schedule generalizing phase history with
  | nil =>
    cases first
    exact second
  | cons i schedule ih =>
    simp only [Phase.follow] at first
    split at first
    · cases first
    · next event between acted =>
      obtain ⟨⟨behind, final⟩, tail, same⟩ := Option.map_eq_some_iff.mp first
      cases same
      simp only [List.cons_append, Phase.follow, acted, ih tail, Option.map_some]

private theorem exists_end (options : RunOptions) (some : 0 < workers) (phase : Phase σ) :
    ∃ schedule history last reports,
      phase.follow options workers schedule = .some (history, last) ∧
        last.reports? = .some reports := by
  induction left : phase.rest using Nat.strongRecOn generalizing phase with
  | _ count ih =>
    cases reported : phase.reports? with
    | some reports => exact ⟨[], [], phase, reports, rfl, reported⟩
    | none =>
      obtain ⟨i, event, next, acted⟩ := exists_act options some reported
      obtain ⟨_, _, steps⟩ := steps_of_act acted
      obtain ⟨schedule, history, last, reports, followed, ended⟩ :=
        ih next.rest (left ▸ steps.rest_lt) next rfl
      refine ⟨i :: schedule, event :: history, last, reports, ?_, ended⟩
      simp only [Phase.follow, acted, followed, Option.map_some]

/-- Workers have never done more than seven actions a slot, and whatever they have done they can go
on until all the slots are done. -/
theorem workers_finish (options : RunOptions) (some : 0 < workers) (tree : σ) (slots : List Slot)
    (followed : (Phase.ofSlots tree slots).follow options workers schedule =
      .some (history, phase)) :
    schedule.length ≤ 7 * slots.length ∧
      ∃ rest later last reports,
        (Phase.ofSlots tree slots).follow options workers (schedule ++ rest) =
          .some (history ++ later, last) ∧
        last.reports? = .some reports := by
  constructor
  · have bound := rest_of_follow followed
    have start := rest_ofSlots tree slots
    omega
  · obtain ⟨rest, later, last, reports, behind, ended⟩ := exists_end options some phase
    exact ⟨rest, later, last, reports, follow_append followed behind, ended⟩

end Ends

section Turns

variable {σ : Type} [Tree σ] {options : RunOptions} {workers i : Nat} {phase next last : Phase σ}
  {plan : Planned}

def Leads (options : RunOptions) (workers : Nat) (phase last : Phase σ) : Prop :=
  ∃ schedule history, phase.follow options workers schedule = some (history, last)

theorem Leads.refl (phase : Phase σ) : Leads options workers phase phase :=
  ⟨[], [], rfl⟩

theorem Leads.cons {event : Event} (acted : phase.act options workers i = some (event, next))
    (leads : Leads options workers next last) : Leads options workers phase last := by
  obtain ⟨schedule, history, followed⟩ := leads
  refine ⟨i :: schedule, event :: history, ?_⟩
  simp only [Phase.follow, acted, followed, Option.map_some]

theorem Leads.trans (first : Leads options workers phase next)
    (second : Leads options workers next last) : Leads options workers phase last := by
  obtain ⟨schedule, history, followed⟩ := first
  obtain ⟨rest, later, behind⟩ := second
  exact ⟨schedule ++ rest, history ++ later, follow_append followed behind⟩

private theorem act_at {before behind : List Progress} {current later : Progress} {event : Event}
    {aborted after : Bool} {tree rest : σ}
    (room : current.isWaiting = true →
      (before ++ current :: behind).countP Progress.isTaken < workers)
    (acts : current.act options aborted tree = some (event, later, after, rest)) :
    Phase.act options workers ⟨before ++ current :: behind, aborted, tree⟩ before.length =
      some (event, ⟨before ++ later :: behind, after, rest⟩) := by
  have found : (before ++ current :: behind)[before.length]? = some current := by simp
  rw [act_of_found found room acts]
  simp

private theorem leads_of_drives {ahead : Operation ⊕ Except Failure Committed}
    {result : Except Failure Committed} {tree after : σ}
    (drives : plan.file.Drives ahead tree result after) {before behind : List Progress}
    {aborted : Bool} :
    Leads options workers ⟨before ++ .resume plan ahead :: behind, aborted, tree⟩
      ⟨before ++ .committed plan result :: behind, aborted, after⟩ := by
  induction drives with
  | done result tree => exact .refl _
  | @next operation tree after result _ ih =>
    have acts : (Progress.underway plan operation).act options aborted tree =
        some (⟨plan, (plan.file.perform tree operation).1⟩,
          .resume plan (plan.file.perform tree operation).2.1, aborted,
          (plan.file.perform tree operation).2.2) := rfl
    exact .cons (act_at (fun waiting => by cases waiting) acts) ih

private theorem leads_of_waiting (some : 0 < workers) {before behind : List Progress}
    (free : (before ++ .waiting plan :: behind).countP Progress.isTaken = 0) (aborted : Bool)
    (tree : σ) :
    let turn := commitSlot options aborted tree (.planned plan)
    ∃ outcome, turn.1 = { plan.report with outcome := outcome } ∧
      Leads options workers ⟨before ++ .waiting plan :: behind, aborted, tree⟩
        ⟨before ++ .finished plan outcome :: behind, turn.2.1, turn.2.2⟩ := by
  have room : (before ++ .waiting plan :: behind).countP Progress.isTaken < workers := by omega
  cases aborted with
  | true => exact ⟨_, rfl, .cons (act_at (fun _ => room) rfl) (.refl _)⟩
  | false =>
    have drives := SourceFile.drives_commit plan.file tree plan.changed
    have turn : (commitSlot options false tree (.planned plan)).2 =
        (false || (!(plan.file.commit tree plan.changed).1.isOk && options.failOnConflict),
          (plan.file.commit tree plan.changed).2) := by
      simp only [commitSlot, Bool.false_eq_true, if_false]
      rcases plan.file.commit tree plan.changed with ⟨_ | _, _⟩ <;>
        simp [Except.isOk, Except.toBool]
    refine ⟨resultOutcome (plan.file.commit tree plan.changed).1, ?_,
      .cons (act_at (fun _ => room) rfl) (.trans (leads_of_drives drives) ?_)⟩
    · simp only [commitSlot, Bool.false_eq_true, if_false]
      rcases plan.file.commit tree plan.changed with ⟨_ | _, _⟩ <;> rfl
    · rw [turn]
      exact .cons (act_at (fun waiting => by cases waiting) rfl) (.refl _)

private theorem free_ofSlot (slots : List Slot) :
    (slots.map Progress.ofSlot).countP Progress.isTaken = 0 := by
  rw [List.countP_eq_zero]
  intro current member
  obtain ⟨slot, _, rfl⟩ := List.mem_map.mp member
  cases slot <;> simp [Progress.ofSlot, Progress.isTaken]

private theorem leads_of_commitAll (some : 0 < workers) (slots : List Slot) (aborted : Bool)
    (tree : σ) (before : List Progress) (free : before.countP Progress.isTaken = 0) :
    let loop := commitAll options aborted tree slots
    ∃ ended, ended.mapM Progress.report? = .some loop.1 ∧
      Leads options workers ⟨before ++ slots.map Progress.ofSlot, aborted, tree⟩
        ⟨before ++ ended, loop.2.1, loop.2.2⟩ := by
  induction slots generalizing before aborted tree with
  | nil => exact ⟨[], rfl, .refl _⟩
  | cons slot slots ih =>
    have rest := free_ofSlot slots
    have turn : ∃ current, current.isTaken = false ∧
        current.report? = .some (commitSlot options aborted tree slot).1 ∧
        Leads options workers
          ⟨before ++ Progress.ofSlot slot :: slots.map Progress.ofSlot, aborted, tree⟩
          ⟨before ++ current :: slots.map Progress.ofSlot,
            (commitSlot options aborted tree slot).2.1,
            (commitSlot options aborted tree slot).2.2⟩ := by
      cases slot with
      | settled report => exact ⟨.settled report, rfl, rfl, .refl _⟩
      | planned plan =>
        have idle : (before ++ .waiting plan :: slots.map Progress.ofSlot).countP
            Progress.isTaken = 0 := by
          simp [free, rest, Progress.isTaken]
        obtain ⟨outcome, reported, leads⟩ := leads_of_waiting some idle aborted tree
        refine ⟨.finished plan outcome, rfl, ?_, leads⟩
        rw [reported]
        rfl
    obtain ⟨current, done, reported, leads⟩ := turn
    obtain ⟨ended, reports, behind⟩ := ih (commitSlot options aborted tree slot).2.1
      (commitSlot options aborted tree slot).2.2 (before ++ [current]) (by simp [free, done])
    rw [List.append_assoc, List.append_assoc] at behind
    refine ⟨current :: ended, ?_, leads.trans behind⟩
    rw [List.mapM_cons, reported, reports]
    rfl

end Turns

/-- A run that takes the slots one after another is a run by workers in some schedule, however many
there are. -/
theorem run_scheduled {σ : Type} [Tree σ] {pool : Nat → Except String Nat} (table : Table)
    (options : PoolOptions) (tree : σ) {workers : Nat} (pooled : pool options.jobs = .ok workers)
    (some : 0 < workers) :
    ∃ schedule, runBy pool schedule table options tree =
      .some ((run table options.toRunOptions tree).1.mapError .run,
        (run table options.toRunOptions tree).2) := by
  unfold runBy run
  simp only [pooled]
  cases walked : Tree.walk tree with
  | error cause => exact ⟨[], rfl⟩
  | ok paths =>
    simp only [executeBy, execute]
    split
    · exact ⟨[], rfl⟩
    · split
      · exact ⟨[], rfl⟩
      · generalize createDestinations tree (planAll table tree (targets table paths)) = ready
        obtain ⟨ended, reports, schedule, history, followed⟩ :=
          @leads_of_commitAll σ _ options.toRunOptions workers some ready.1 false ready.2 [] rfl
        refine ⟨schedule, ?_⟩
        rw [List.nil_append, List.nil_append] at followed
        simp only [Phase.ofSlots, followed, Option.bind_some, Phase.reports?, reports,
          Option.map_some]
        rfl

end Run

end Repackage
