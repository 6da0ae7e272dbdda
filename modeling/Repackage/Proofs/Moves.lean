import Repackage.Proofs.SharedTree

/-!
What is left of a move at the end of a run without faults, whichever worker is next. A file whose
destination holds its text already only gives up its old place. When the file at that destination is
itself one of the run, its worker may come later and take the text away; the text is then there at
the end only if some worker has written it again.
-/

set_option autoImplicit false
set_option relaxedAutoImplicit false

namespace Repackage.Run

section Movers

variable {table : Table} {tree : Memory} {plan other : Planned}

private theorem rewriter_disagrees (calm : tree.Calm) (member : .planned plan ∈ slotsOf table tree)
    (otherMember : .planned other ∈ slotsOf table tree) (away : plan.file.isMoved = true)
    (changed : other.changed = true) (same : plan.file.finalPath = other.file.path) :
    plan.file.text ≠ other.file.text := by
  obtain ⟨target, _, text, follows⟩ := follows_of_mem_slotsOf otherMember
  have held : tree.files.find? plan.file.finalPath = some text := by
    rw [same, follows.path]
    exact calm.read_eq_ok_iff.mp follows.read
  have different := follows.changed
  rw [changed, eq_comm, decide_eq_true_eq] at different
  rw [← (laid_slotsOf table calm.honest).landed member away held]
  exact different.symm

end Movers

section WithoutFaults

variable {options : RunOptions} {workers i : Nat} {slots : List Slot} {tree : Memory}
  {files now : Dict Text} {history : List Event} {phase next : Phase Memory} {event : Event}
  {current later : Progress} {plan : Planned} {path : String}

theorem Reaches.calm (calm : tree.Calm)
    (reached : Reaches options workers (Phase.ofSlots tree slots) history phase) :
    phase.tree.Calm := by
  rw [Memory.Calm, reached.replay, Memory.faults_replay]
  exact calm

/-- A worker that has found a file at the destination of its own. -/
theorem Reaches.found (laid : Laid tree.files slots)
    (reached : Reaches options workers (Phase.ofSlots tree slots) history phase)
    (looked : ⟨plan, .look true⟩ ∈ history) :
    tree.files.find? plan.file.finalPath ≠ none ∨ Arrived slots history plan.file.finalPath := by
  obtain ⟨before, after, rfl⟩ := List.append_of_mem looked
  obtain ⟨early, i, next, current, later, reached, steps⟩ := reached.at_event
  have present := Dict.contains_iff.mp (steps.looked rfl).2
  cases held : tree.files.find? plan.file.finalPath with
  | some text => exact .inl (by simp)
  | none =>
    right
    obtain ⟨other, member, moved, final, done, _⟩ :=
      (((reached.accounts laid).told _).absent held).resolve_left present
    exact ⟨other, member, moved, final, List.mem_append_left _ done⟩

/-- What holds of what has been written, if nothing fails. -/
structure Stands (slots : List Slot) (history : List Event) (now : Dict Text) : Prop where
  /-- Where a file has moved in, there is one. -/
  filled : ∀ path, Arrived slots history path → now.find? path ≠ none
  /-- What has been written reads back as such. -/
  verified : ∀ plan path answer, .planned plan ∈ slots → ⟨plan, Arrival plan.file⟩ ∈ history →
    ⟨plan, .read path answer⟩ ∈ history → answer = .ok plan.file.text

/-- A text that has been written is there. -/
theorem Stands.holds (stands : Stands slots history now) (laid : Laid files slots)
    (accounts : Accounts files slots history now) (member : .planned plan ∈ slots)
    (looked : plan.file.isMoved = true → ⟨plan, .look false⟩ ∈ history)
    (arrived : ⟨plan, Arrival plan.file⟩ ∈ history) :
    now.find? plan.file.finalPath = some plan.file.text := by
  have told := accounts.told plan.file.finalPath
  cases moved : plan.file.isMoved with
  | false =>
    exact told.rewritten plan member moved (SourceFile.final_of_stays moved).symm arrived
  | true =>
    have present := stands.filled _ ⟨plan, member, moved, rfl, arrived⟩
    cases held : files.find? plan.file.finalPath with
    | none =>
      obtain ⟨other, otherMember, otherMoved, final, _, holds⟩ :=
        (told.absent held).resolve_left present
      rw [holds, laid.agree otherMember member otherMoved moved final]
    | some text =>
      rcases told.present text held with kept | ⟨other, otherMember, stays, own, _⟩ | ⟨_, gone⟩
      · rw [kept, laid.landed member moved held]
      · exact absurd (looked moved) (accounts.not_missed laid otherMember stays member own.symm)
      · exact absurd gone present

private theorem arrived_snoc (arrived : Arrived slots (history ++ [event]) path) :
    Arrived slots history path ∨
      event.action = Arrival event.plan.file ∧ event.plan.file.finalPath = path := by
  obtain ⟨plan, member, moved, final, done⟩ := arrived
  rcases List.mem_append.mp done with before | last
  · exact .inl ⟨plan, member, moved, final, before⟩
  · rw [List.mem_singleton] at last
    subst last
    exact .inr ⟨rfl, final⟩

theorem Reaches.looked_of_arrival (ordered : Ordered slots)
    (reached : Reaches options workers (Phase.ofSlots tree slots) history phase)
    (arrived : ⟨plan, Arrival plan.file⟩ ∈ history) (moved : plan.file.isMoved = true) :
    ⟨plan, .look false⟩ ∈ history := by
  obtain ⟨actions, next, story, done, inside⟩ :=
    reached.story ordered arrived (by simp [Arrival])
  exact done _ (story.looked_of_arrival moved (inside.resolve_right (by simp [Arrival])))

private theorem Stands.filled_next (stands : Stands slots history phase.tree.files)
    (laid : Laid tree.files slots)
    (reached : Reaches options workers (Phase.ofSlots tree slots) history phase)
    (steps : Steps options workers phase i event next current later)
    (arrived : Arrived slots history path) : next.tree.files.find? path ≠ none := by
  have filled := stands.filled path arrived
  rcases steps.effect with ⟨same, _⟩ | ⟨operation, rfl, effect⟩
  · rw [same]
    exact filled
  · obtain ⟨actions, known, story⟩ := reached.story_underway laid.ordered steps.before
    generalize event.action = action at effect
    cases effect with
    | look same | compare same | readBack same =>
      rw [same]
      exact filled
    | refused _ _ _ same | copied same =>
      rw [same]
      exact filled
    | arrival files =>
      rw [files, Dict.find?_insert]
      split
      · simp
      · exact filled
    | departure files =>
      rw [files, Dict.find?_erase]
      split
      · next here =>
        -- Whoever moved in found no file there, so this one had left before.
        obtain ⟨other, member, moved, final, done⟩ := arrived
        have looked := reached.looked_of_arrival laid.ordered done moved
        have planned := reached.planned steps
        have away : Departed slots history event.plan.file.path := by
          rw [← here, ← final]
          refine ((reached.accounts laid).missed other member looked).resolve_left ?_
          rw [final, here]
          exact laid.held _ planned
        obtain ⟨owner, ownerMember, _, own, gone⟩ := away
        rw [laid.ordered.plan_unique ownerMember planned own, ← mem_actionsOf_iff, known] at gone
        cases story with
        | remove verifies =>
          obtain ⟨_, rfl | rfl⟩ := verifies <;> simp [Arrival, Departure] at gone
      · exact filled
    | undone files =>
      cases story with
      | undo back _ different =>
        have read : ⟨event.plan, .read event.plan.file.finalPath (.ok back)⟩ ∈ history := by
          rw [← mem_actionsOf_iff, known]
          simp
        have wrote : ⟨event.plan, Arrival event.plan.file⟩ ∈ history := by
          rw [← mem_actionsOf_iff, known]
          simp
        have same := stands.verified _ _ _ (reached.planned steps) wrote read
        exact absurd (Except.ok.inj same) different

private theorem Stands.verified_next (stands : Stands slots history phase.tree.files)
    (calm : tree.Calm) (laid : Laid tree.files slots)
    (reached : Reaches options workers (Phase.ofSlots tree slots) history phase)
    (steps : Steps options workers phase i event next current later)
    {answer : Except TreeError Text} (member : .planned plan ∈ slots)
    (arrived : ⟨plan, Arrival plan.file⟩ ∈ history ++ [event])
    (read : ⟨plan, .read path answer⟩ ∈ history ++ [event]) : answer = .ok plan.file.text := by
  rcases List.mem_append.mp arrived with wrote | last
  · rcases List.mem_append.mp read with before | last
    · exact stands.verified plan path answer member wrote before
    · rw [List.mem_singleton] at last
      subst last
      have now := (steps.hasRead rfl).2
      have holds := stands.holds laid (reached.accounts laid) member
        (reached.looked_of_arrival laid.ordered wrote) wrote
      rw [now]
      exact (reached.calm calm).read_of_held holds
  · -- Nothing has been read for a file that is written just now, but where it was looked for.
    rw [List.mem_singleton] at last
    subst last
    have before : Action.read path answer ∈ actionsOf plan history := by
      rw [mem_actionsOf_iff]
      simpa [Arrival] using read
    obtain ⟨rfl, _⟩ := steps.arrives rfl
    obtain ⟨actions, known, story⟩ := reached.story_underway laid.ordered steps.before
    rw [known] at before
    cases story with
    | write opens => rcases opens with ⟨_, rfl⟩ | ⟨_, _, rfl⟩ <;> simp at before

theorem Reaches.stands (calm : tree.Calm) (laid : Laid tree.files slots)
    (reached : Reaches options workers (Phase.ofSlots tree slots) history phase) :
    Stands slots history phase.tree.files := by
  induction reached with
  | refl =>
    exact ⟨fun path ⟨_, _, _, _, done⟩ => (by cases done), fun _ _ _ _ done => (by cases done)⟩
  | @snoc history phase next i event current later reached steps ih =>
    constructor
    · intro path arrived
      rcases arrived_snoc arrived with before | ⟨action, final⟩
      · exact ih.filled_next laid reached steps before
      · rw [(steps.arrives action).2, Dict.find?_insert, if_pos final.symm]
        simp
    · intro plan path answer member arrived read
      exact ih.verified_next calm laid reached steps member arrived read

private theorem Reaches.arrival_of_write (calm : tree.Calm) {text : Text}
    (reached : Reaches options workers (Phase.ofSlots tree slots) history phase)
    (wrote : .write path text ∈ callsOf history) :
    ∃ plan, .planned plan ∈ slots ∧ plan.file.finalPath = path ∧
      ⟨plan, Arrival plan.file⟩ ∈ history := by
  obtain ⟨event, member, called⟩ := List.mem_filterMap.mp wrote
  have planned := reached.planned_of_mem member
  obtain ⟨before, after, place⟩ := List.append_of_mem member
  rw [place] at reached
  obtain ⟨early, i, next, current, later, sooner, _, _, _, acts⟩ := reached.at_event
  have quiet := sooner.calm calm
  generalize next.aborted = aborted, next.tree = after at acts
  cases acts with
  | skip _ _ | start _ _ | finish _ _ => cases called
  | perform plan operation =>
    cases operation with
    | look | compare | readBack | undo | copyPermissions | remove => cases called
    | write =>
      cases called
      refine ⟨plan, planned, rfl, ?_⟩
      rw [Arrival, ← (quiet.write plan.file.finalPath plan.file.text).1]
      exact member

private theorem Reaches.arrived_iff (calm : tree.Calm) (laid : Laid files slots)
    (reached : Reaches options workers (Phase.ofSlots tree slots) history phase)
    (departed : Departed slots history path) :
    Arrived slots history path ↔ ∃ text, .write path text ∈ callsOf history := by
  constructor
  · rintro ⟨plan, _, _, rfl, done⟩
    exact ⟨plan.file.text, List.mem_filterMap.mpr ⟨_, done, rfl⟩⟩
  · rintro ⟨text, wrote⟩
    obtain ⟨plan, member, final, done⟩ := reached.arrival_of_write calm wrote
    refine ⟨plan, member, ?_, final, done⟩
    by_contra stays
    rw [Bool.not_eq_true] at stays
    rw [← final, SourceFile.final_of_stays stays] at departed
    exact laid.not_departed member stays departed

end WithoutFaults

section Ends

variable {options : RunOptions} {workers : Nat} {slots : List Slot} {tree : Memory}
  {history : List Event} {phase : Phase Memory} {reports : List FileReport} {plan : Planned}
  {unit : FileReport}

theorem Ends.changed (ends : Ends slots history unit)
    (idle : ∀ report, .settled report ∈ slots → report.outcome.isChange = false)
    (changed : unit.outcome.isChange = true) :
    ∃ plan actions committed, .planned plan ∈ slots ∧
      unit = { plan.report with outcome := committedOutcome committed } ∧
      Story plan.file plan.changed actions (.inr (.ok committed)) ∧
      ∀ action ∈ actions, ⟨plan, action⟩ ∈ history := by
  cases ends with
  | settled member =>
    rw [idle _ member] at changed
    cases changed
  | skipped _ _ => cases changed
  | @committed plan actions result member completes =>
    cases result with
    | error failure => simp [resultOutcome, isChange_outcomeOf] at changed
    | ok committed =>
      exact ⟨plan, actions, committed, member, rfl, completes.story,
        fun action => completes.mem_history⟩

theorem Ends.departed (ends : Ends slots history unit) (ordered : Ordered slots)
    (idle : ∀ report, .settled report ∈ slots → report.outcome.isChange = false)
    (moved : unit.outcome = .moved) : Departed slots history unit.path := by
  obtain ⟨plan, actions, committed, member, rfl, story, done⟩ :=
    ends.changed idle (by rw [moved]; rfl)
  cases story with
  | unchanged _ _ | rewritten _ _ => cases moved
  | moved verifies =>
    exact ⟨plan, member, verifies.1, (ordered.named plan member).symm, done _ (by simp)⟩

private theorem Reaches.undisturbed_of_kept (laid : Laid tree.files slots)
    (idle : ∀ report, .settled report ∈ slots → report.outcome.isChange = false)
    (reached : Reaches options workers (Phase.ofSlots tree slots) history phase)
    (reported : phase.reports? = some reports)
    (differs : ∀ other, .planned other ∈ slots → other.changed = true →
      plan.file.finalPath = other.file.path → plan.file.text ≠ other.file.text)
    (kept : phase.tree.files.find? plan.file.finalPath = some plan.file.text) :
    ∀ other ∈ reports, other.path = plan.file.finalPath → other.outcome ≠ .rewritten ∧
      (other.outcome = .moved → Arrived slots history plan.file.finalPath) := by
  intro other inside place
  have ordered := laid.ordered
  have told := (reached.accounts laid).told plan.file.finalPath
  have ends := (reached.mem_reports_iff ordered reported).mp inside
  constructor
  · intro rewritten
    obtain ⟨owner, actions, committed, ownerMember, rfl, story, done⟩ :=
      ends.changed idle (by rw [rewritten]; rfl)
    have own : owner.file.path = plan.file.finalPath :=
      (ordered.named owner ownerMember).symm.trans place
    cases story with
    | unchanged _ _ | moved _ => cases rewritten
    | rewritten stays changed =>
      have now := told.rewritten owner ownerMember stays own (done _ (by simp))
      rw [kept, Option.some.injEq] at now
      exact differs owner ownerMember changed own.symm now
  · intro moved
    have departed := ends.departed ordered idle moved
    rw [place] at departed
    exact (told.refilled departed).resolve_left (by simp [kept])

private theorem Reaches.kept_of_undisturbed (calm : tree.Calm) (laid : Laid tree.files slots)
    (reached : Reaches options workers (Phase.ofSlots tree slots) history phase)
    (reported : phase.reports? = some reports) (member : .planned plan ∈ slots)
    (away : plan.file.isMoved = true)
    (came : ⟨plan, .look true⟩ ∈ history ∨ ⟨plan, Arrival plan.file⟩ ∈ history)
    (undisturbed : ∀ other ∈ reports, other.path = plan.file.finalPath →
      other.outcome ≠ .rewritten ∧
        (other.outcome = .moved → Arrived slots history plan.file.finalPath)) :
    phase.tree.files.find? plan.file.finalPath = some plan.file.text := by
  have ordered := laid.ordered
  have told := (reached.accounts laid).told plan.file.finalPath
  have stands := reached.stands calm laid
  cases held : tree.files.find? plan.file.finalPath with
  | none =>
    have arrived : Arrived slots history plan.file.finalPath := by
      rcases came with looked | arrived
      · exact (reached.found laid looked).resolve_left (by simp [held])
      · exact ⟨plan, member, away, rfl, arrived⟩
    obtain ⟨other, otherMember, otherAway, final, _, now⟩ :=
      (told.absent held).resolve_left (stands.filled _ arrived)
    rw [now, laid.agree otherMember member otherAway away final]
  | some text =>
    rcases told.present text held with
      now | ⟨owner, ownerMember, stays, own, wrote, _⟩ | ⟨departed, gone⟩
    · rw [now, laid.landed member away held]
    · obtain ⟨actions, result, completes⟩ :=
        reached.result_of_mem ordered reported wrote (by simp [Arrival])
      obtain rfl := completes.story.rewritten_of_arrival stays
        (completes.mem_actions wrote (by simp [Arrival])) fun path answer read =>
          stands.verified owner path answer ownerMember wrote (completes.mem_history read)
      have disturbed := undisturbed _ ((reached.mem_reports_iff ordered reported).mpr
        (.committed ownerMember completes)) ((ordered.named owner ownerMember).trans own)
      exact absurd rfl disturbed.1
    · obtain ⟨owner, ownerMember, moved, own, left⟩ := departed
      obtain ⟨actions, result, completes⟩ :=
        reached.result_of_mem ordered reported left (by simp [Departure])
      obtain rfl := completes.story.moved_of_departure moved
        (completes.mem_actions left (by simp [Departure]))
      have arrived := (undisturbed _ ((reached.mem_reports_iff ordered reported).mpr
        (.committed ownerMember completes)) ((ordered.named owner ownerMember).trans own)).2 rfl
      exact absurd gone (stands.filled _ arrived)

private theorem Reaches.text_kept_iff (calm : tree.Calm) (laid : Laid tree.files slots)
    (idle : ∀ report, .settled report ∈ slots → report.outcome.isChange = false)
    (reached : Reaches options workers (Phase.ofSlots tree slots) history phase)
    (reported : phase.reports? = some reports) (member : .planned plan ∈ slots)
    (away : plan.file.isMoved = true)
    (came : ⟨plan, .look true⟩ ∈ history ∨ ⟨plan, Arrival plan.file⟩ ∈ history)
    (differs : ∀ other, .planned other ∈ slots → other.changed = true →
      plan.file.finalPath = other.file.path → plan.file.text ≠ other.file.text) :
    phase.tree.files.find? plan.file.finalPath = some plan.file.text ↔
      ∀ other ∈ reports, other.path = plan.file.finalPath → other.outcome ≠ .rewritten ∧
        (other.outcome = .moved → Arrived slots history plan.file.finalPath) :=
  ⟨reached.undisturbed_of_kept laid idle reported differs,
    reached.kept_of_undisturbed calm laid reported member away came⟩

end Ends

section Pools

variable {pool : Nat → Except String Nat} {schedule : List Nat} {table : Table}
  {options : PoolOptions} {tree final : Memory} {workers : Nat} {history : List Event}
  {phase : Phase Memory} {reports : List FileReport} {report : Report} {unit : FileReport}

private theorem CarriedOut.of_changed (wet : options.dryRun = false)
    (ran : runBy pool schedule table options tree = some (.ok report, final))
    (member : unit ∈ report.units) (changed : unit.outcome.isChange = true) :
    ∃ workers history phase reports,
      CarriedOut pool schedule table options tree workers history phase reports ∧
      final = phase.tree ∧ ∀ other, other.outcome.isChange = true →
        (other ∈ report.units ↔ other ∈ reports) := by
  have bystanding : ∀ {other : FileReport}, other.outcome.isChange = true →
      other ∉ bystanders table tree.paths := by
    intro other changed bystander
    rw [isChange_of_mem_bystanders bystander] at changed
    cases changed
  rcases runBy_cases ran with ⟨_, failed, _⟩ | ⟨dry, _⟩ | ⟨_, _, _, stopped, _⟩ |
    ⟨workers, history, phase, reports, carried, done, same⟩
  · cases failed
  · rw [wet] at dry
    cases dry
  · cases stopped
    rw [mem_units_build, List.mem_append, or_iff_right (bystanding changed)] at member
    obtain ⟨slot, slotMember, rfl⟩ := List.mem_map.mp member
    cases slot with
    | planned plan => cases changed
    | settled report =>
      rw [abandon, isChange_of_settled slotMember] at changed
      cases changed
  · cases done
    refine ⟨workers, history, phase, reports, carried, same, fun other changed => ?_⟩
    rw [mem_units_build, List.mem_append, or_iff_right (bystanding changed)]

private theorem CarriedOut.moved_kept_iff (calm : tree.Calm) (fresh : tree.trace = [])
    (carried : CarriedOut pool schedule table options tree workers history phase reports)
    (member : unit ∈ reports) (moved : unit.outcome = .moved) :
    ∃ plan, .planned plan ∈ slotsOf table tree ∧ plan.file.path = unit.path ∧
      unit.destination = some plan.file.finalPath ∧
      (phase.tree.files.find? plan.file.finalPath = some plan.file.text ↔
        ∀ other ∈ reports, other.path = plan.file.finalPath →
          other.outcome ≠ .rewritten ∧ (other.outcome = .moved →
            ∃ text, .write plan.file.finalPath text ∈ phase.tree.trace)) := by
  have reached := carried.reached
  simp only [createDestinations_of_calm calm] at reached
  have quiet : (createDestinations tree (slotsOf table tree)).2.Calm :=
    (faults_createDestinations tree _).trans calm
  have laid : Laid (createDestinations tree (slotsOf table tree)).2.files
      (slotsOf table tree) := by
    rw [files_createDestinations]
    exact laid_slotsOf table calm.honest
  have idle : ∀ report, .settled report ∈ slotsOf table tree →
      report.outcome.isChange = false := fun _ => isChange_of_settled
  have ends : ∀ {other : FileReport}, other ∈ reports → Ends (slotsOf table tree) history other :=
    (reached.mem_reports_iff laid.ordered carried.reported).mp
  obtain ⟨plan, actions, committed, planned, rfl, story, inside⟩ :=
    (ends member).changed idle (by rw [moved]; rfl)
  cases story with
  | unchanged _ _ | rewritten _ _ => cases moved
  | moved verifies =>
    obtain ⟨target, _, text, follows⟩ := follows_of_mem_slotsOf planned
    have came : ⟨plan, .look true⟩ ∈ history ∨ ⟨plan, Arrival plan.file⟩ ∈ history := by
      rcases verifies.2 with rfl | rfl
      · exact .inl (inside _ (by simp))
      · exact .inr (inside _ (by simp))
    refine ⟨plan, planned, (laid.ordered.named plan planned).symm,
      follows.destination verifies.1, ?_⟩
    rw [reached.text_kept_iff quiet laid idle carried.reported planned verifies.1 came
      fun other otherPlanned => rewriter_disagrees calm planned otherPlanned verifies.1]
    refine forall_congr' fun other => forall_congr' fun otherMember => forall_congr' fun place => ?_
    refine and_congr_right fun _ => forall_congr' fun away => ?_
    have departed := (ends otherMember).departed laid.ordered idle away
    rw [place] at departed
    rw [reached.arrived_iff quiet laid departed, carried.trace fresh]
    simp

end Pools

/-- A file that a run without faults reports as moved is at its destination, with the text that was
planned, exactly when the file at that destination was not rewritten, and did not move away either
unless a worker has written that destination again. This holds of any number of workers and of any
schedule. -/
theorem moved_text_kept_iff (pool : Nat → Except String Nat) (schedule : List Nat) (table : Table)
    (options : PoolOptions) (wet : options.dryRun = false) (tree : Memory) {report : Report}
    {final : Memory} {unit : FileReport}
    (ran : runBy pool schedule table options (tree.restart {}) = some (.ok report, final))
    (member : unit ∈ report.units) (moved : unit.outcome = .moved) :
    ∃ plan, .planned plan ∈ slotsOf table (tree.restart {}) ∧ plan.file.path = unit.path ∧
      unit.destination = some plan.file.finalPath ∧
      (final.files.find? plan.file.finalPath = some plan.file.text ↔
        ∀ other ∈ report.units, other.path = plan.file.finalPath →
          other.outcome ≠ .rewritten ∧ (other.outcome = .moved →
            ∃ text, .write plan.file.finalPath text ∈ final.trace)) := by
  have changed : unit.outcome.isChange = true := by
    rw [moved]
    rfl
  obtain ⟨workers, history, phase, reports, carried, rfl, same⟩ :=
    CarriedOut.of_changed wet ran member changed
  obtain ⟨plan, planned, path, destination, kept⟩ :=
    carried.moved_kept_iff tree.calm_restart rfl ((same unit changed).mp member) moved
  refine ⟨plan, planned, path, destination, kept.trans ?_⟩
  -- A report that is not one of a change disturbs nothing, wherever it comes from.
  have listed : ∀ (all : List FileReport) (disturbed : Prop),
      (∀ other ∈ all, other.path = plan.file.finalPath → other.outcome ≠ .rewritten ∧
        (other.outcome = .moved → disturbed)) ↔
      ∀ other, other.outcome.isChange = true → other ∈ all → other.path = plan.file.finalPath →
        other.outcome ≠ .rewritten ∧ (other.outcome = .moved → disturbed) := by
    intro all disturbed
    constructor
    · exact fun undisturbed other _ => undisturbed other
    · intro undisturbed other otherMember place
      cases changed : other.outcome.isChange with
      | true => exact undisturbed other changed otherMember place
      | false =>
        constructor
        · intro rewritten
          rw [rewritten] at changed
          cases changed
        · intro away
          rw [away] at changed
          cases changed
  rw [listed reports, listed report.units]
  refine forall_congr' fun other => forall_congr' fun changed => ?_
  rw [same other changed]

def relayTable : Table where
  modulePath := "m"
  packages := Dict.ofList [("d", ⟨"d", "d", "m/d"⟩), ("e", ⟨"e", "e", "m/e"⟩)]
  files := Dict.ofList [("a/x.go", "d"), ("d/x.go", "e")]
  symbols := []
  excludes := []
  includeTests := true

def relayTree : Memory :=
  .ofFiles [("a/x.go", "package d\n".toList), ("d/x.go", "package d\n".toList)]

def relaySchedule : List Nat :=
  [0, 0, 0, 0, 0, 0, 1, 1, 1, 1, 1, 1, 1]

def relayReversed : List Nat :=
  [1, 1, 1, 1, 1, 1, 1, 0, 0, 0, 0, 0, 0, 0]

private theorem relay_reported {schedule : List Nat} {report : Report} {final : Memory}
    (commits : ((phaseOf relayTable (relayTree.restart {})).follow {} 1 schedule).bind
      (·.2.reports?) = some [
        { path := "a/x.go", destination := some "d/x.go", outcome := .moved },
        { path := "d/x.go", destination := some "e/x.go", outcome := .moved,
          packageChange := some ⟨"d", "e"⟩ }])
    (ran : runBy (fun _ => .ok 1) schedule relayTable {} (relayTree.restart {}) =
      some (.ok report, final)) :
    { path := "a/x.go", destination := some "d/x.go", outcome := .moved } ∈ report.units := by
  rcases runBy_cases ran with ⟨_, failed, _⟩ | ⟨dry, _⟩ | ⟨_, strict, _⟩ |
    ⟨workers, history, phase, reports, carried, done, _⟩
  · cases failed
  · cases dry
  · cases strict
  · obtain rfl : 1 = workers := Except.ok.inj carried.pooled
    rw [carried.followed, Option.bind_some, carried.reported] at commits
    cases commits
    cases done
    exact mem_units_build.mpr (List.mem_append_right _ List.mem_cons_self)

/-- The first file is reported as moved, but its text is gone, since the second has moved on. It is
kept if the second is the first to move. -/
theorem relay_loses_text :
    let start := relayTree.restart {}
    (∃ report final, runBy (fun _ => .ok 1) relaySchedule relayTable {} start =
        some (.ok report, final) ∧
      ∃ unit ∈ report.units, unit.outcome = .moved ∧
        ∃ plan, .planned plan ∈ slotsOf relayTable start ∧
          plan.file.path = unit.path ∧ unit.destination = some plan.file.finalPath ∧
          final.files.find? plan.file.finalPath = none ∧
          ¬∀ other ∈ report.units, other.path = plan.file.finalPath →
            other.outcome ≠ .rewritten ∧ (other.outcome = .moved →
              ∃ text, .write plan.file.finalPath text ∈ final.trace)) ∧
    ∃ report final, runBy (fun _ => .ok 1) relayReversed relayTable {} start =
        some (.ok report, final) ∧
      final.files.find? "d/x.go" = some "package d\n".toList := by
  intro start
  have ends : ∀ schedule held, ((runBy (fun _ => .ok 1) schedule relayTable {} start).map
      fun (result, final) => (result.isOk, final.files.find? "d/x.go")) = some (true, held) →
      ∃ report final, runBy (fun _ => .ok 1) schedule relayTable {} start =
        some (.ok report, final) ∧ final.files.find? "d/x.go" = held := by
    intro schedule held run
    obtain ⟨⟨result, final⟩, ran, same⟩ := Option.map_eq_some_iff.mp run
    cases result with
    | error cause => cases same
    | ok report =>
      cases same
      exact ⟨report, final, ran, rfl⟩
  constructor
  · obtain ⟨report, final, ran, lost⟩ := ends relaySchedule none (by decide +kernel)
    have member := relay_reported (by decide +kernel) ran
    refine ⟨report, final, ran, _, member, rfl, ?_⟩
    obtain ⟨plan, planned, path, destination, kept⟩ :=
      moved_text_kept_iff _ _ relayTable {} rfl relayTree ran member rfl
    have gone : final.files.find? plan.file.finalPath = none := by
      rw [← Option.some.inj destination]
      exact lost
    refine ⟨plan, planned, path, destination, gone, fun undisturbed => ?_⟩
    rw [kept.mpr undisturbed] at gone
    cases gone
  · exact ends relayReversed _ (by decide +kernel)

end Repackage.Run
