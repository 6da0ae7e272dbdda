import Repackage.Proofs.Execution
import Repackage.Workers

/-!
What workers that share a tree come to, whatever their schedule. What has been done for a file is
known from the point that its commit has reached, since nobody else acts for it; what the tree holds
is not, and is told by the history of all the workers.
-/

set_option autoImplicit false
set_option relaxedAutoImplicit false

namespace Repackage.Run

section Runs

variable {σ : Type} [Tree σ] {options : RunOptions} {workers : Nat}

/-- What an action for a slot can be, with what becomes of the slot, the flag and the tree. -/
inductive Acts (options : RunOptions) (aborted : Bool) (tree : σ) :
    Progress → Event → Progress → Bool → σ → Prop
  | skip (plan : Planned) : aborted = true →
    Acts options aborted tree (.waiting plan) ⟨plan, .skip⟩
      (.finished plan (.skipped "aborted")) aborted tree
  | start (plan : Planned) : aborted = false →
    Acts options aborted tree (.waiting plan) ⟨plan, .start⟩
      (.resume plan (plan.file.firstOperation plan.changed)) aborted tree
  | perform (plan : Planned) (operation : Operation) :
    Acts options aborted tree (.underway plan operation)
      ⟨plan, (plan.file.perform tree operation).1⟩
      (.resume plan (plan.file.perform tree operation).2.1) aborted
      (plan.file.perform tree operation).2.2
  | finish (plan : Planned) (result : Except Failure Committed) :
    Acts options aborted tree (.committed plan result) ⟨plan, .finish result⟩
      (.finished plan (resultOutcome result)) (aborted || (!result.isOk && options.failOnConflict))
      tree

private theorem acts_of_act {aborted after : Bool} {tree next : σ} {current later : Progress}
    {event : Event} (acted : current.act options aborted tree = some (event, later, after, next)) :
    Acts options aborted tree current event later after next := by
  cases current with
  | settled report => cases acted
  | finished plan outcome => cases acted
  | waiting plan =>
    simp only [Progress.act] at acted
    split at acted
    · next stopped =>
      cases acted
      exact .skip plan stopped
    · next going =>
      cases acted
      exact .start plan (by simpa using going)
  | underway plan operation =>
    cases acted
    exact .perform plan operation
  | committed plan result =>
    cases acted
    exact .finish plan result

/-- An action of the worker of a slot. -/
structure Steps (options : RunOptions) (workers : Nat) (phase : Phase σ) (i : Nat) (event : Event)
    (next : Phase σ) (current later : Progress) : Prop where
  before : phase.progress[i]? = some current
  after : next.progress = phase.progress.set i later
  room : current.isWaiting = true → phase.progress.countP Progress.isTaken < workers
  acts : Acts options phase.aborted phase.tree current event later next.aborted next.tree

theorem steps_of_act {phase next : Phase σ} {i : Nat} {event : Event}
    (acted : phase.act options workers i = some (event, next)) :
    ∃ current later, Steps options workers phase i event next current later := by
  unfold Phase.act at acted
  split at acted
  · cases acted
  · next current before =>
    split at acted
    · cases acted
    · next free =>
      obtain ⟨⟨event', later, aborted, tree⟩, step, same⟩ := Option.map_eq_some_iff.mp acted
      cases same
      refine ⟨current, later, before, rfl, fun waiting => ?_, acts_of_act step⟩
      rw [not_and, Nat.not_le] at free
      exact free waiting

/-- What actions lead to, one after another. -/
inductive Reaches (options : RunOptions) (workers : Nat) (start : Phase σ) :
    List Event → Phase σ → Prop
  | refl : Reaches options workers start [] start
  | snoc {history : List Event} {phase next : Phase σ} {i : Nat} {event : Event}
      {current later : Progress} :
    Reaches options workers start history phase →
    Steps options workers phase i event next current later →
    Reaches options workers start (history ++ [event]) next

private theorem Reaches.follow {start phase last : Phase σ} {before after : List Event}
    {schedule : List Nat} (reached : Reaches options workers start before phase)
    (followed : phase.follow options workers schedule = some (after, last)) :
    Reaches options workers start (before ++ after) last := by
  induction schedule generalizing before after phase with
  | nil =>
    cases followed
    rw [List.append_nil]
    exact reached
  | cons i schedule ih =>
    simp only [Phase.follow] at followed
    split at followed
    · cases followed
    · next event next acted =>
      obtain ⟨⟨rest, final⟩, tail, same⟩ := Option.map_eq_some_iff.mp followed
      cases same
      obtain ⟨current, later, steps⟩ := steps_of_act acted
      have whole := ih (reached.snoc steps) tail
      rw [List.append_assoc] at whole
      exact whole

private theorem reaches_of_follow {start last : Phase σ} {history : List Event}
    {schedule : List Nat}
    (followed : start.follow options workers schedule = some (history, last)) :
    Reaches options workers start history last :=
  Reaches.refl.follow followed

theorem Reaches.last {start phase : Phase σ} {event : Event} {history : List Event}
    (reached : Reaches options workers start (history ++ [event]) phase) :
    ∃ before i current later, Reaches options workers start history before ∧
      Steps options workers before i event phase current later := by
  generalize whole : history ++ [event] = longer at reached
  cases reached with
  | refl => simp at whole
  | snoc reached steps =>
    obtain ⟨rfl, same⟩ := List.append_inj' whole rfl
    cases same
    exact ⟨_, _, _, _, reached, steps⟩

/-- A history falls into what leads to a state and what leads on from there. -/
theorem Reaches.split {start last : Phase σ} {before after : List Event}
    (reached : Reaches options workers start (before ++ after) last) :
    ∃ phase, Reaches options workers start before phase ∧
      Reaches options workers phase after last := by
  generalize whole : before ++ after = history at reached
  induction reached generalizing after with
  | refl =>
    obtain ⟨rfl, rfl⟩ := List.append_eq_nil_iff.mp whole
    exact ⟨start, .refl, .refl⟩
  | @snoc history phase next i latest current later reached steps ih =>
    rcases List.eq_nil_or_concat after with rfl | ⟨front, final, rfl⟩
    · rw [List.append_nil] at whole
      subst whole
      exact ⟨next, reached.snoc steps, .refl⟩
    · rw [List.concat_eq_append, ← List.append_assoc] at whole
      obtain ⟨same, last⟩ := List.append_inj' whole rfl
      cases last
      obtain ⟨between, first, rest⟩ := ih same
      refine ⟨between, first, ?_⟩
      rw [List.concat_eq_append]
      exact rest.snoc steps

theorem Reaches.at_event {start last : Phase σ} {before after : List Event} {event : Event}
    (reached : Reaches options workers start (before ++ event :: after) last) :
    ∃ phase i next current later, Reaches options workers start before phase ∧
      Steps options workers phase i event next current later := by
  rw [show before ++ event :: after = (before ++ [event]) ++ after by simp] at reached
  obtain ⟨next, reached, _⟩ := reached.split
  obtain ⟨phase, i, current, later, reached, steps⟩ := reached.last
  exact ⟨phase, i, next, current, later, reached, steps⟩

end Runs

section Slots

def Progress.slot : Progress → Slot
  | .settled report => .settled report
  | .waiting plan | .underway plan _ | .committed plan _ | .finished plan _ => .planned plan

private theorem slots_ofSlots {σ : Type} (tree : σ) (slots : List Slot) :
    (Phase.ofSlots tree slots).progress.map Progress.slot = slots := by
  simp only [Phase.ofSlots, List.map_map]
  conv_rhs => rw [← List.map_id slots]
  apply List.map_congr_left
  intro slot _
  cases slot <;> rfl

variable {σ : Type} [Tree σ] {options : RunOptions} {workers i j : Nat} {slots : List Slot}
  {history : List Event} {phase next : Phase σ} {event : Event} {current later : Progress}

private theorem slot_resume (plan : Planned) (next : Operation ⊕ Except Failure Committed) :
    (Progress.resume plan next).slot = .planned plan := by
  cases next <;> rfl

theorem Acts.slot {aborted after : Bool} {tree next : σ}
    (acts : Acts options aborted tree current event later after next) :
    current.slot = .planned event.plan ∧ later.slot = .planned event.plan := by
  cases acts with
  | skip plan _ => exact ⟨rfl, rfl⟩
  | start plan _ => exact ⟨rfl, slot_resume plan _⟩
  | perform plan operation => exact ⟨rfl, slot_resume plan _⟩
  | finish plan result => exact ⟨rfl, rfl⟩

private theorem Steps.slots_eq (steps : Steps options workers phase i event next current later) :
    next.progress.map Progress.slot = phase.progress.map Progress.slot := by
  obtain ⟨was, is⟩ := steps.acts.slot
  rw [steps.after]
  apply List.ext_getElem?
  intro j
  rw [List.getElem?_map, List.getElem?_map, List.getElem?_set]
  split
  · next same =>
    subst same
    obtain ⟨inside, _⟩ := List.getElem?_eq_some_iff.mp steps.before
    rw [if_pos inside, steps.before]
    simp only [Option.map_some, is, was]
  · rfl

theorem Reaches.slots_eq {tree : σ}
    (reached : Reaches options workers (Phase.ofSlots tree slots) history phase) :
    phase.progress.map Progress.slot = slots := by
  induction reached with
  | refl => exact slots_ofSlots tree slots
  | snoc _ steps ih => exact steps.slots_eq.trans ih

theorem Reaches.planned {tree : σ}
    (reached : Reaches options workers (Phase.ofSlots tree slots) history phase)
    (steps : Steps options workers phase i event next current later) :
    .planned event.plan ∈ slots := by
  rw [← reached.slots_eq, ← steps.acts.slot.1]
  exact List.mem_map_of_mem (List.mem_of_getElem? steps.before)

theorem Reaches.planned_of_mem {tree : σ}
    (reached : Reaches options workers (Phase.ofSlots tree slots) history phase)
    (member : event ∈ history) : .planned event.plan ∈ slots := by
  obtain ⟨before, after, rfl⟩ := List.append_of_mem member
  obtain ⟨phase, i, next, current, later, reached, steps⟩ := reached.at_event
  exact reached.planned steps

private theorem Reaches.progress_of_planned {tree : σ} {plan : Planned}
    (reached : Reaches options workers (Phase.ofSlots tree slots) history phase)
    (member : .planned plan ∈ slots) :
    ∃ (j : Nat) (current : Progress), phase.progress[j]? = some current ∧
      current.slot = .planned plan := by
  rw [← reached.slots_eq] at member
  obtain ⟨current, inside, same⟩ := List.mem_map.mp member
  obtain ⟨j, found⟩ := List.getElem?_of_mem inside
  exact ⟨j, current, found, same⟩

private theorem Ordered.index_unique (ordered : Ordered slots) {a b : Slot}
    (first : slots[i]? = some a)
    (second : slots[j]? = some b) (same : a.report.path = b.report.path) : i = j := by
  obtain ⟨firstInside, rfl⟩ := List.getElem?_eq_some_iff.mp first
  obtain ⟨secondInside, rfl⟩ := List.getElem?_eq_some_iff.mp second
  have sorted := List.pairwise_iff_getElem.mp ordered.sorted
  rcases Nat.lt_trichotomy i j with less | equal | more
  · have apart := sorted i j firstInside secondInside less
    rw [same] at apart
    exact absurd apart (String.lt_irrefl _)
  · exact equal
  · have apart := sorted j i secondInside firstInside more
    rw [same] at apart
    exact absurd apart (String.lt_irrefl _)

theorem Ordered.plan_unique (ordered : Ordered slots) {a b : Planned}
    (first : .planned a ∈ slots) (second : .planned b ∈ slots)
    (same : a.file.path = b.file.path) : a = b := by
  obtain ⟨i, foundFirst⟩ := List.getElem?_of_mem first
  obtain ⟨j, foundSecond⟩ := List.getElem?_of_mem second
  have index := ordered.index_unique foundFirst foundSecond
    ((ordered.named a first).trans (same.trans (ordered.named b second).symm))
  rw [index, foundSecond] at foundFirst
  cases foundFirst
  rfl

private theorem Reaches.index_unique {tree : σ} {other : Progress} (ordered : Ordered slots)
    (reached : Reaches options workers (Phase.ofSlots tree slots) history phase)
    (first : phase.progress[i]? = some current) (second : phase.progress[j]? = some other)
    (same : current.slot = other.slot) : i = j := by
  have slotOf : ∀ {k : Nat} {any : Progress}, phase.progress[k]? = some any →
      slots[k]? = some any.slot := by
    intro k any found
    rw [← reached.slots_eq, List.getElem?_map, found]
    rfl
  apply ordered.index_unique (slotOf first) (slotOf second)
  rw [same]

def OneTaken {σ : Type} (phase : Phase σ) : Prop :=
  ∀ {i j : Nat} {current other : Progress}, phase.progress[i]? = some current →
    phase.progress[j]? = some other → current.isTaken = true → other.isTaken = true → i = j

theorem Steps.alone (single : workers ≤ 1) (alone : OneTaken phase)
    (steps : Steps options workers phase i event next current later) {other : Progress}
    (found : phase.progress[j]? = some other) (taken : other.isTaken = true) : j = i := by
  cases fresh : current.isWaiting with
  | true =>
    have room := steps.room fresh
    have free : phase.progress.countP Progress.isTaken = 0 := by omega
    rw [List.countP_eq_zero] at free
    exact absurd taken (free other (List.mem_of_getElem? found))
  | false =>
    apply alone found steps.before taken
    obtain ⟨_, _, _, acts⟩ := steps
    generalize next.aborted = aborted, next.tree = rest at acts
    cases acts with
    | skip _ _ | start _ _ => cases fresh
    | perform _ _ | finish _ _ => rfl

theorem Reaches.alone {tree : σ} (single : workers ≤ 1)
    (reached : Reaches options workers (Phase.ofSlots tree slots) history phase) :
    OneTaken phase := by
  induction reached with
  | refl =>
    intro i j current other found _ taken _
    obtain ⟨slot, _, rfl⟩ := List.mem_map.mp (List.mem_of_getElem? found)
    cases slot <;> cases taken
  | @snoc history phase next k event was is reached steps ih =>
    have here : ∀ {i : Nat} {any : Progress}, next.progress[i]? = some any →
        any.isTaken = true → i = k := by
      intro i any found taken
      rw [steps.after, List.getElem?_set] at found
      split at found
      · next same => exact same.symm
      · exact steps.alone single ih found taken
    intro i j current other first second taken otherTaken
    exact (here first taken).trans (here second otherTaken).symm

theorem Reaches.free_of_finish {tree : σ} {result : Except Failure Committed}
    (single : workers ≤ 1)
    (reached : Reaches options workers (Phase.ofSlots tree slots) (history ++ [event]) phase)
    (finishes : event.action = .finish result) :
    ∀ current ∈ phase.progress, current.isTaken = false := by
  obtain ⟨before, i, current, later, reached, steps⟩ := reached.last
  have done : later.isTaken = false := by
    obtain ⟨_, _, _, acts⟩ := steps
    generalize phase.aborted = aborted, phase.tree = rest at acts
    cases acts with
    | skip _ _ | finish _ _ => rfl
    | start _ _ => cases finishes
    | perform plan operation => cases operation <;> cases finishes
  intro other member
  obtain ⟨j, found⟩ := List.getElem?_of_mem member
  rw [steps.after, List.getElem?_set] at found
  split at found
  · split at found
    · cases found
      exact done
    · cases found
  · next apart =>
    by_contra taken
    rw [Bool.not_eq_false] at taken
    exact apart (steps.alone single (reached.alone single) found taken).symm

end Slots

section Stories

variable {file : SourceFile} {changed : Bool} {actions : List Action}

def Arrival (file : SourceFile) : Action :=
  .call (.write file.finalPath file.text) (.ok ())

def Departure (file : SourceFile) : Action :=
  .call (.remove file.path) (.ok ())

def Opens (file : SourceFile) (changed : Bool) (actions : List Action) : Prop :=
  file.isMoved = true ∧ actions = [.start, .look false] ∨
    file.isMoved = false ∧ changed = true ∧ actions = [.start]

def Verifies (file : SourceFile) (actions : List Action) : Prop :=
  file.isMoved = true ∧
    (actions = [.start, .look true, .read file.finalPath (.ok file.text)] ∨
      actions = [.start, .look false, Arrival file, .read file.finalPath (.ok file.text)])

/-- What has been done for a file when its commit has come to an operation or a result. -/
inductive Story (file : SourceFile) (changed : Bool) :
    List Action → Operation ⊕ Except Failure Committed → Prop
  | unchanged : file.isMoved = false → changed = false →
    Story file changed [.start] (.inr (.ok .unchanged))
  | look : file.isMoved = true → Story file changed [.start] (.inl .look)
  | compare : file.isMoved = true → Story file changed [.start, .look true] (.inl .compare)
  | differs (answer : Except TreeError Text) (failure : Failure) : file.isMoved = true →
    answer ≠ .ok file.text →
    Story file changed [.start, .look true, .read file.finalPath answer] (.inr (.error failure))
  | write {actions : List Action} : Opens file changed actions →
    Story file changed actions (.inl .write)
  | unwritten {actions : List Action} (cause : TreeError) (failure : Failure) :
    Opens file changed actions →
    Story file changed (actions ++ [.call (.write file.finalPath file.text) (.error cause)])
      (.inr (.error failure))
  | readBack {actions : List Action} : Opens file changed actions →
    Story file changed (actions ++ [Arrival file]) (.inl .readBack)
  | unread {actions : List Action} (answer : Except TreeError Text) (failure : Failure) :
    Opens file changed actions → answer ≠ .ok file.text →
    Story file changed (actions ++ [Arrival file, .read file.finalPath answer])
      (.inr (.error failure))
  | undo (back : Text) : file.isMoved = true → back ≠ file.text →
    Story file changed [.start, .look false, Arrival file, .read file.finalPath (.ok back)]
      (.inl .undo)
  | undone (back : Text) (answer : Except TreeError Unit) (failure : Failure) :
    file.isMoved = true → back ≠ file.text →
    Story file changed [.start, .look false, Arrival file, .read file.finalPath (.ok back),
      .call (.remove file.finalPath) answer] (.inr (.error failure))
  | rewritten : file.isMoved = false → changed = true →
    Story file changed [.start, Arrival file, .read file.finalPath (.ok file.text)]
      (.inr (.ok .rewritten))
  | copyPermissions {actions : List Action} : Verifies file actions →
    Story file changed actions (.inl .copyPermissions)
  | uncopied {actions : List Action} (cause : TreeError) (failure : Failure) :
    Verifies file actions →
    Story file changed
      (actions ++ [.call (.copyPermissions file.path file.finalPath) (.error cause)])
      (.inr (.error failure))
  | remove {actions : List Action} : Verifies file actions →
    Story file changed
      (actions ++ [.call (.copyPermissions file.path file.finalPath) (.ok ())]) (.inl .remove)
  | unremoved {actions : List Action} (cause : TreeError) (failure : Failure) :
    Verifies file actions →
    Story file changed (actions ++ [.call (.copyPermissions file.path file.finalPath) (.ok ()),
      .call (.remove file.path) (.error cause)]) (.inr (.error failure))
  | moved {actions : List Action} : Verifies file actions →
    Story file changed (actions ++ [.call (.copyPermissions file.path file.finalPath) (.ok ()),
      Departure file]) (.inr (.ok .moved))

private theorem story_first (file : SourceFile) (changed : Bool) :
    Story file changed [.start] (file.firstOperation changed) := by
  unfold SourceFile.firstOperation
  split
  · next moved => exact .look moved
  · next stays =>
    rw [Bool.not_eq_true] at stays
    split
    · next differs => exact .write (.inr ⟨stays, differs, rfl⟩)
    · next same => exact .unchanged stays (by simpa using same)

theorem Story.perform {σ : Type} [Tree σ] {operation : Operation}
    (story : Story file changed actions (.inl operation)) (tree : σ) :
    Story file changed (actions ++ [(file.perform tree operation).1])
      (file.perform tree operation).2.1 := by
  cases story with
  | look moved =>
    simp only [SourceFile.perform]
    cases Tree.holds tree file.finalPath with
    | true => exact .compare moved
    | false => exact .write (.inl ⟨moved, rfl⟩)
  | compare moved =>
    simp only [SourceFile.perform]
    cases read : Tree.read tree file.finalPath with
    | error cause => exact .differs _ _ moved (by simp)
    | ok current =>
      by_cases same : current = file.text
      · simp only [same, if_true]
        exact .copyPermissions ⟨moved, .inl rfl⟩
      · simp only [same, if_false]
        exact .differs _ _ moved (by simpa using same)
  | write opens =>
    simp only [SourceFile.perform]
    rcases Tree.write tree file.finalPath file.text with ⟨cause | ⟨⟩, next⟩
    · exact .unwritten cause _ opens
    · exact .readBack opens
  | @readBack front opens =>
    simp only [SourceFile.perform, List.append_assoc, List.cons_append, List.nil_append]
    cases read : Tree.read tree file.finalPath with
    | error cause => exact .unread _ _ opens (by simp)
    | ok back =>
      by_cases same : back = file.text
      · subst same
        simp only [if_true]
        rcases opens with ⟨moved, rfl⟩ | ⟨stays, differs, rfl⟩
        · rw [if_pos moved]
          exact .copyPermissions ⟨moved, .inr rfl⟩
        · rw [if_neg (by simp [stays])]
          exact .rewritten stays differs
      · simp only [same, if_false]
        rcases opens with ⟨moved, rfl⟩ | opens
        · rw [if_pos moved]
          exact .undo back moved same
        · rw [if_neg (by simp [opens.1])]
          exact .unread _ _ (.inr opens) (by simpa using same)
  | undo back moved different =>
    exact .undone back _ _ moved different
  | copyPermissions verifies =>
    simp only [SourceFile.perform]
    rcases Tree.copyPermissions tree file.path file.finalPath with ⟨cause | ⟨⟩, next⟩
    · exact .uncopied cause _ verifies
    · exact .remove verifies
  | remove verifies =>
    simp only [SourceFile.perform, List.append_assoc, List.cons_append, List.nil_append]
    rcases Tree.remove tree file.path with ⟨cause | ⟨⟩, next⟩
    · exact .unremoved cause _ verifies
    · exact .moved verifies

theorem Story.started {next : Operation ⊕ Except Failure Committed}
    (story : Story file changed actions next) : .start ∈ actions := by
  have opened : ∀ {front : List Action}, Opens file changed front → .start ∈ front := by
    rintro front (⟨_, rfl⟩ | ⟨_, _, rfl⟩) <;> simp
  have verified : ∀ {front : List Action}, Verifies file front → .start ∈ front := by
    rintro front ⟨_, rfl | rfl⟩ <;> simp
  cases story with
  | unchanged _ _ | look _ | compare _ | differs _ _ _ _ | undo _ _ _ | undone _ _ _ _ _
  | rewritten _ _ => simp
  | write opens => exact opened opens
  | unwritten _ _ opens | readBack opens | unread _ _ opens _ =>
    exact List.mem_append_left _ (opened opens)
  | copyPermissions verifies => exact verified verifies
  | uncopied _ _ verifies | remove verifies | unremoved _ _ verifies | moved verifies =>
    exact List.mem_append_left _ (verified verifies)

private theorem Story.unfinished {next : Operation ⊕ Except Failure Committed}
    (story : Story file changed actions next) (result : Except Failure Committed) :
    .finish result ∉ actions := by
  cases story with
  | unchanged _ _ | look _ | compare _ | differs _ _ _ _ | undo _ _ _ | undone _ _ _ _ _
  | rewritten _ _ => simp [Arrival]
  | write opens | unwritten _ _ opens | readBack opens | unread _ _ opens _ =>
    rcases opens with ⟨_, rfl⟩ | ⟨_, _, rfl⟩ <;> simp [Arrival]
  | copyPermissions verifies | uncopied _ _ verifies | remove verifies | unremoved _ _ verifies
  | moved verifies => rcases verifies with ⟨_, rfl | rfl⟩ <;> simp [Arrival, Departure]

theorem Story.looked_of_arrival {next : Operation ⊕ Except Failure Committed}
    (story : Story file changed actions next) (moved : file.isMoved = true)
    (arrived : Arrival file ∈ actions) : .look false ∈ actions := by
  have opened : ∀ {front : List Action}, Opens file changed front → .look false ∈ front := by
    rintro front (⟨_, rfl⟩ | ⟨stays, _⟩)
    · simp
    · rw [moved] at stays
      cases stays
  cases story with
  | unchanged stays _ | rewritten stays _ =>
    rw [moved] at stays
    cases stays
  | look _ | compare _ | differs _ _ _ _ => simp [Arrival] at arrived
  | undo _ _ _ | undone _ _ _ _ _ => simp
  | write opens => exact opened opens
  | unwritten _ _ opens | readBack opens | unread _ _ opens _ =>
    exact List.mem_append_left _ (opened opens)
  | copyPermissions verifies | uncopied _ _ verifies | remove verifies | unremoved _ _ verifies
  | moved verifies =>
    obtain ⟨_, rfl | rfl⟩ := verifies
    · simp [Arrival, Departure] at arrived
    · simp

theorem Story.moved_of_departure {result : Except Failure Committed}
    (story : Story file changed actions (.inr result)) (moved : file.isMoved = true)
    (departed : Departure file ∈ actions) : result = .ok .moved := by
  have elsewhere := SourceFile.isMoved_iff.mp moved
  cases story with
  | moved _ => rfl
  | unchanged stays _ | rewritten stays _ =>
    rw [moved] at stays
    cases stays
  | differs _ _ _ _ => simp [Departure] at departed
  | undone _ _ _ _ _ => simp [Departure, Arrival, elsewhere.symm] at departed
  | unwritten _ _ opens | unread _ _ opens _ =>
    rcases opens with ⟨_, rfl⟩ | ⟨stays, _⟩
    · simp [Departure, Arrival] at departed
    · rw [moved] at stays
      cases stays
  | uncopied _ _ verifies | unremoved _ _ verifies =>
    obtain ⟨_, rfl | rfl⟩ := verifies <;> simp [Departure, Arrival] at departed

theorem Story.rewritten_of_arrival {result : Except Failure Committed}
    (story : Story file changed actions (.inr result)) (stays : file.isMoved = false)
    (arrived : Arrival file ∈ actions)
    (verified : ∀ path answer, .read path answer ∈ actions → answer = .ok file.text) :
    result = .ok .rewritten := by
  cases story with
  | rewritten _ _ => rfl
  | unchanged _ _ => simp [Arrival] at arrived
  | differs _ _ moved _ | undone _ _ _ moved _ =>
    rw [moved] at stays
    cases stays
  | unwritten _ _ opens =>
    rcases opens with ⟨_, rfl⟩ | ⟨_, _, rfl⟩ <;> simp [Arrival] at arrived
  | unread answer _ _ different => exact absurd (verified file.finalPath answer (by simp)) different
  | uncopied _ _ verifies | unremoved _ _ verifies | moved verifies =>
    rw [verifies.1] at stays
    cases stays

end Stories

section Accounts

variable {σ : Type} [Tree σ] {options : RunOptions} {workers i : Nat} {slots : List Slot}
  {history : List Event} {phase next : Phase σ} {event : Event} {current later : Progress}
  {plan : Planned} {action : Action} {actions : List Action} {tree : σ}

def actionsOf (plan : Planned) (history : List Event) : List Action :=
  history.filterMap fun event => if event.plan = plan then some event.action else none

theorem mem_actionsOf_iff : action ∈ actionsOf plan history ↔ ⟨plan, action⟩ ∈ history := by
  simp only [actionsOf, List.mem_filterMap]
  constructor
  · rintro ⟨event, member, same⟩
    split at same
    · next own =>
      cases same
      rw [← own]
      exact member
    · cases same
  · intro member
    exact ⟨_, member, if_pos rfl⟩

theorem actionsOf_snoc (plan : Planned) (history : List Event) (action : Action) :
    actionsOf plan (history ++ [⟨plan, action⟩]) = actionsOf plan history ++ [action] := by
  simp [actionsOf, List.filterMap_append]

private theorem actionsOf_snoc_other (other : event.plan ≠ plan) :
    actionsOf plan (history ++ [event]) = actionsOf plan history := by
  simp [actionsOf, List.filterMap_append, other]

/-- The commit of a file from its start to its result. -/
structure Completes (plan : Planned) (history : List Event) (actions : List Action)
    (result : Except Failure Committed) : Prop where
  story : Story plan.file plan.changed actions (.inr result)
  whole : actionsOf plan history = actions ++ [.finish result]

theorem Completes.mem_history {result : Except Failure Committed}
    (completes : Completes plan history actions result) (inside : action ∈ actions) :
    ⟨plan, action⟩ ∈ history := by
  rw [← mem_actionsOf_iff, completes.whole]
  exact List.mem_append_left _ inside

theorem Completes.mem_actions {result : Except Failure Committed}
    (completes : Completes plan history actions result) (member : ⟨plan, action⟩ ∈ history)
    (unfinished : action ≠ .finish result) : action ∈ actions := by
  rw [← mem_actionsOf_iff, completes.whole, List.mem_append, List.mem_singleton] at member
  exact member.resolve_right unfinished

theorem Completes.finished {result : Except Failure Committed}
    (completes : Completes plan history actions result) : ⟨plan, .finish result⟩ ∈ history := by
  rw [← mem_actionsOf_iff, completes.whole]
  simp

theorem Completes.result_of_finish {result other : Except Failure Committed}
    (completes : Completes plan history actions result)
    (member : ⟨plan, .finish other⟩ ∈ history) : other = result := by
  rw [← mem_actionsOf_iff, completes.whole, List.mem_append, List.mem_singleton] at member
  exact Action.finish.inj (member.resolve_left (completes.story.unfinished other))

private theorem Completes.not_skipped {result : Except Failure Committed}
    (completes : Completes plan history actions result) :
    actionsOf plan history ≠ [.skip] := by
  intro skipped
  rw [completes.whole] at skipped
  cases (List.append_inj' (show actions ++ [_] = [] ++ [_] from skipped) rfl).2

def Progress.Accounted (history : List Event) : Progress → Prop
  | .settled _ => True
  | .waiting plan => actionsOf plan history = []
  | .underway plan operation =>
    Story plan.file plan.changed (actionsOf plan history) (.inl operation)
  | .committed plan result => Story plan.file plan.changed (actionsOf plan history) (.inr result)
  | .finished plan outcome =>
    actionsOf plan history = [.skip] ∧ outcome = .skipped "aborted" ∨
      ∃ actions result, Completes plan history actions result ∧ outcome = resultOutcome result

private theorem accounted_resume (next : Operation ⊕ Except Failure Committed) :
    (Progress.resume plan next).Accounted history ↔
      Story plan.file plan.changed (actionsOf plan history) next := by
  cases next <;> exact Iff.rfl

private theorem Acts.accounted {aborted after : Bool} {next : σ}
    (acts : Acts options aborted tree current event later after next)
    (accounted : current.Accounted history) : later.Accounted (history ++ [event]) := by
  cases acts with
  | skip plan _ =>
    left
    rw [actionsOf_snoc, show actionsOf plan history = [] from accounted]
    exact ⟨rfl, rfl⟩
  | start plan _ =>
    rw [accounted_resume, actionsOf_snoc, show actionsOf plan history = [] from accounted]
    exact story_first plan.file plan.changed
  | perform plan operation =>
    rw [accounted_resume, actionsOf_snoc]
    exact Story.perform accounted tree
  | finish plan result =>
    right
    exact ⟨_, result, ⟨accounted, actionsOf_snoc plan history _⟩, rfl⟩

private theorem Progress.Accounted.other (accounted : current.Accounted history)
    (other : current.slot ≠ .planned event.plan) : current.Accounted (history ++ [event]) := by
  have same : ∀ plan, current.slot = .planned plan →
      actionsOf plan (history ++ [event]) = actionsOf plan history := by
    intro plan own
    apply actionsOf_snoc_other
    rintro rfl
    exact other own
  cases current with
  | settled report => trivial
  | waiting plan | underway plan _ | committed plan _ =>
    simp only [Accounted, same plan rfl]
    exact accounted
  | finished plan _ =>
    rcases accounted with ⟨skipped, outcome⟩ | ⟨actions, result, ⟨story, whole⟩, outcome⟩
    · exact .inl ⟨(same plan rfl).trans skipped, outcome⟩
    · exact .inr ⟨actions, result, ⟨story, (same plan rfl).trans whole⟩, outcome⟩

private theorem Reaches.accounted (ordered : Ordered slots)
    (reached : Reaches options workers (Phase.ofSlots tree slots) history phase)
    (found : phase.progress[i]? = some current) : current.Accounted history := by
  induction reached generalizing i current with
  | refl =>
    obtain ⟨slot, _, rfl⟩ := List.mem_map.mp (List.mem_of_getElem? found)
    cases slot with
    | settled report => trivial
    | planned plan => rfl
  | @snoc history phase next k event was is reached steps ih =>
    have accounted := ih steps.before
    rw [steps.after, List.getElem?_set] at found
    split at found
    · next same =>
      split at found
      · cases found
        exact steps.acts.accounted accounted
      · cases found
    · next apart =>
      apply (ih found).other
      rw [← steps.acts.slot.1]
      intro same
      exact apart (reached.index_unique ordered steps.before found same.symm)

theorem Reaches.story_underway {operation : Operation} (ordered : Ordered slots)
    (reached : Reaches options workers (Phase.ofSlots tree slots) history phase)
    (found : phase.progress[i]? = some (.underway plan operation)) :
    ∃ actions, actionsOf plan history = actions ∧
      Story plan.file plan.changed actions (.inl operation) :=
  ⟨_, rfl, reached.accounted ordered found⟩

theorem Reaches.story (ordered : Ordered slots)
    (reached : Reaches options workers (Phase.ofSlots tree slots) history phase)
    (member : ⟨plan, action⟩ ∈ history) (taken : action ≠ .skip) :
    ∃ actions next, Story plan.file plan.changed actions next ∧
      (∀ other ∈ actions, ⟨plan, other⟩ ∈ history) ∧
      (action ∈ actions ∨ ∃ result, action = .finish result) := by
  obtain ⟨j, current, found, own⟩ :=
    reached.progress_of_planned (reached.planned_of_mem member)
  have accounted := reached.accounted ordered found
  have done := mem_actionsOf_iff.mpr member
  cases current with
  | settled report => cases own
  | waiting _ =>
    cases own
    rw [show actionsOf plan history = [] from accounted] at done
    cases done
  | underway _ operation =>
    cases own
    exact ⟨_, _, accounted, fun other inside => mem_actionsOf_iff.mp inside, .inl done⟩
  | committed _ result =>
    cases own
    exact ⟨_, _, accounted, fun other inside => mem_actionsOf_iff.mp inside, .inl done⟩
  | finished _ outcome =>
    cases own
    rcases accounted with ⟨skipped, _⟩ | ⟨actions, result, completes, _⟩
    · rw [skipped, List.mem_singleton] at done
      exact absurd done taken
    · refine ⟨actions, _, completes.story, fun other => completes.mem_history, ?_⟩
      by_cases last : action = .finish result
      · exact .inr ⟨result, last⟩
      · exact .inl (completes.mem_actions member last)

theorem Reaches.started (ordered : Ordered slots)
    (reached : Reaches options workers (Phase.ofSlots tree slots) history phase)
    (member : ⟨plan, action⟩ ∈ history) (taken : action ≠ .skip) : ⟨plan, .start⟩ ∈ history := by
  obtain ⟨actions, next, story, done, _⟩ := reached.story ordered member taken
  exact done _ story.started

end Accounts

section Ends

variable {σ : Type} {options : RunOptions} {workers : Nat} {slots : List Slot}
  {history : List Event} {phase : Phase σ} {reports : List FileReport} {tree : σ}
  {unit : FileReport}

/-- What is reported of a file when all is done, out of what has been done for it. -/
inductive Ends (slots : List Slot) (history : List Event) : FileReport → Prop
  | settled {report : FileReport} : .settled report ∈ slots → Ends slots history report
  | skipped {plan : Planned} : .planned plan ∈ slots → actionsOf plan history = [.skip] →
    Ends slots history { plan.report with outcome := .skipped "aborted" }
  | committed {plan : Planned} {actions : List Action} {result : Except Failure Committed} :
    .planned plan ∈ slots → Completes plan history actions result →
    Ends slots history { plan.report with outcome := resultOutcome result }

private theorem map_of_mapM {α β : Type} {f : α → Option β} {all : List α} {results : List β}
    (mapped : all.mapM f = some results) : all.map f = results.map some := by
  induction all generalizing results with
  | nil =>
    cases mapped
    rfl
  | cons first all ih =>
    rw [List.mapM_cons] at mapped
    obtain ⟨result, one, rest⟩ := Option.bind_eq_some_iff.mp mapped
    obtain ⟨others, tail, same⟩ := Option.bind_eq_some_iff.mp rest
    cases same
    rw [List.map_cons, List.map_cons, one, ih tail]

private theorem mem_reports_iff_mem_progress (reported : phase.reports? = some reports) :
    unit ∈ reports ↔ ∃ current ∈ phase.progress, current.report? = some unit := by
  rw [← List.mem_map, map_of_mapM reported]
  simp

private theorem done_of_mem_progress {current : Progress} (reported : phase.reports? = some reports)
    (member : current ∈ phase.progress) : ∃ unit, current.report? = some unit := by
  have done : current.report? ∈ reports.map some := by
    rw [← map_of_mapM reported]
    exact List.mem_map_of_mem member
  obtain ⟨unit, _, same⟩ := List.mem_map.mp done
  exact ⟨unit, same.symm⟩

variable [Tree σ]

private theorem Reaches.finished (ordered : Ordered slots)
    (reached : Reaches options workers (Phase.ofSlots tree slots) history phase)
    (reported : phase.reports? = some reports) {plan : Planned}
    (member : .planned plan ∈ slots) :
    ∃ outcome, { plan.report with outcome := outcome } ∈ reports ∧
      (Progress.finished plan outcome).Accounted history := by
  obtain ⟨i, current, found, own⟩ := reached.progress_of_planned member
  have inside := List.mem_of_getElem? found
  have accounted := reached.accounted ordered found
  obtain ⟨report, done⟩ := done_of_mem_progress reported inside
  cases current with
  | settled report => cases own
  | waiting _ | underway _ _ | committed _ _ => cases done
  | finished other outcome =>
    cases own
    exact ⟨outcome, (mem_reports_iff_mem_progress reported).mpr ⟨_, inside, rfl⟩, accounted⟩

theorem Reaches.result_of_mem (ordered : Ordered slots)
    (reached : Reaches options workers (Phase.ofSlots tree slots) history phase)
    (reported : phase.reports? = some reports) {plan : Planned} {action : Action}
    (member : ⟨plan, action⟩ ∈ history) (taken : action ≠ .skip) :
    ∃ actions result, Completes plan history actions result := by
  obtain ⟨_, _, ⟨skipped, _⟩ | ⟨actions, result, completes, _⟩⟩ :=
    reached.finished ordered reported (reached.planned_of_mem member)
  · rw [← mem_actionsOf_iff, skipped, List.mem_singleton] at member
    exact absurd member taken
  · exact ⟨actions, result, completes⟩

theorem Reaches.skipped_of_unstarted (ordered : Ordered slots)
    (reached : Reaches options workers (Phase.ofSlots tree slots) history phase)
    (reported : phase.reports? = some reports) {plan : Planned} (member : .planned plan ∈ slots)
    (unstarted : ⟨plan, .start⟩ ∉ history) :
    { plan.report with outcome := .skipped "aborted" } ∈ reports := by
  obtain ⟨outcome, inside, ⟨_, rfl⟩ | ⟨_, _, completes, _⟩⟩ :=
    reached.finished ordered reported member
  · exact inside
  · exact absurd (completes.mem_history completes.story.started) unstarted

theorem Reaches.mem_reports_iff (ordered : Ordered slots)
    (reached : Reaches options workers (Phase.ofSlots tree slots) history phase)
    (reported : phase.reports? = some reports) : unit ∈ reports ↔ Ends slots history unit := by
  constructor
  · intro member
    obtain ⟨current, inside, done⟩ := (mem_reports_iff_mem_progress reported).mp member
    have slot : current.slot ∈ slots := by
      rw [← reached.slots_eq]
      exact List.mem_map_of_mem inside
    cases current with
    | waiting _ | underway _ _ | committed _ _ => cases done
    | settled report =>
      cases done
      exact .settled slot
    | finished plan outcome =>
      cases done
      obtain ⟨i, found⟩ := List.getElem?_of_mem inside
      rcases reached.accounted ordered found with ⟨skipped, rfl⟩ | ⟨_, _, completes, rfl⟩
      · exact .skipped slot skipped
      · exact .committed slot completes
  · intro ends
    cases ends with
    | settled member =>
      rw [← reached.slots_eq] at member
      obtain ⟨current, inside, same⟩ := List.mem_map.mp member
      cases current with
      | waiting _ | underway _ _ | committed _ _ | finished _ _ => cases same
      | settled report =>
        cases same
        exact (mem_reports_iff_mem_progress reported).mpr ⟨_, inside, rfl⟩
    | skipped member skipped =>
      obtain ⟨outcome, inside, ⟨_, rfl⟩ | ⟨_, _, completes, _⟩⟩ :=
        reached.finished ordered reported member
      · exact inside
      · cases completes.not_skipped skipped
    | committed member completes =>
      obtain ⟨outcome, inside, ⟨skipped, _⟩ | ⟨_, _, others, rfl⟩⟩ :=
        reached.finished ordered reported member
      · cases completes.not_skipped skipped
      · rw [others.result_of_finish completes.finished]
        exact inside

end Ends

section Pools

variable {pool : Nat → Except String Nat} {schedule : List Nat} {table : Table}
  {options : PoolOptions} {tree final : Memory} {result : Except PoolError Report}

def phaseOf (table : Table) (tree : Memory) : Phase Memory :=
  Phase.ofSlots (createDestinations tree (slotsOf table tree)).2
    (createDestinations tree (slotsOf table tree)).1

/-- A run by workers that has gone through its commit phase. -/
structure CarriedOut (pool : Nat → Except String Nat) (schedule : List Nat) (table : Table)
    (options : PoolOptions) (tree : Memory) (workers : Nat) (history : List Event)
    (phase : Phase Memory) (reports : List FileReport) : Prop where
  pooled : pool options.jobs = .ok workers
  walked : tree.walk = .ok tree.paths
  goesOn : ¬Stops table options.toRunOptions tree
  followed : (phaseOf table tree).follow options.toRunOptions workers schedule =
    some (history, phase)
  reported : phase.reports? = some reports

theorem CarriedOut.reached {workers : Nat} {history : List Event} {phase : Phase Memory}
    {reports : List FileReport}
    (carried : CarriedOut pool schedule table options tree workers history phase reports) :
    Reaches options.toRunOptions workers
      (Phase.ofSlots (createDestinations tree (slotsOf table tree)).2
        (createDestinations tree (slotsOf table tree)).1) history phase :=
  reaches_of_follow carried.followed

theorem runBy_cases (ran : runBy pool schedule table options tree = some (result, final)) :
    (∃ error, result = .error error ∧ final = tree) ∨
    (options.dryRun = true ∧ final = tree) ∨
    (options.dryRun = false ∧ options.failOnConflict = true ∧
      (∃ slot ∈ slotsOf table tree, slot.report.outcome.isProblem = true) ∧
      result = .ok (Report.build
        (bystanders table tree.paths ++ (slotsOf table tree).map abandon) false true true) ∧
      final = tree) ∨
    ∃ workers history phase reports,
      CarriedOut pool schedule table options tree workers history phase reports ∧
      result = .ok (Report.build (bystanders table tree.paths ++ reports) false
        options.failOnConflict phase.aborted) ∧ final = phase.tree := by
  unfold runBy at ran
  cases pooled : pool options.jobs with
  | error cause =>
    rw [pooled] at ran
    cases ran
    exact .inl ⟨_, rfl, rfl⟩
  | ok workers =>
    rw [pooled] at ran
    simp only [Memory.tree_walk] at ran
    cases walked : tree.walk with
    | error cause =>
      rw [walked] at ran
      cases ran
      exact .inl ⟨_, rfl, rfl⟩
    | ok paths =>
      obtain rfl := Memory.walk_eq_ok walked
      rw [walked] at ran
      obtain ⟨⟨report, after⟩, executed, same⟩ := Option.map_eq_some_iff.mp ran
      cases same
      right
      unfold executeBy at executed
      split at executed
      · next dry =>
        cases executed
        exact .inl ⟨dry, rfl⟩
      · next wet =>
        right
        split at executed
        · next stops =>
          cases executed
          exact .inl ⟨by simpa using wet, stops.1, List.any_eq_true.mp stops.2, rfl, rfl⟩
        · next goesOn =>
          right
          obtain ⟨⟨history, phase⟩, followed, rest⟩ := Option.bind_eq_some_iff.mp executed
          obtain ⟨reports, reported, same⟩ := Option.map_eq_some_iff.mp rest
          cases same
          refine ⟨workers, history, phase, reports, ⟨pooled, walked, ?_, followed, reported⟩, rfl,
            rfl⟩
          rintro (dry | ⟨strict, problem⟩)
          · exact wet dry
          · exact goesOn ⟨strict, List.any_eq_true.mpr problem⟩

end Pools

end Repackage.Run
