import Repackage.Proofs.Workers

/-!
The tree that workers share, at any time of any schedule. A path where there was no file at first
has none or the text of the one file that is sent there. A path where there was one has that text,
or that of the file that is rewritten there, or nothing once its file has moved away. Workers that
find the place of such a file empty fill it again, and all of them with what was there at first.
-/

set_option autoImplicit false
set_option relaxedAutoImplicit false

namespace Repackage.Run

section Operations

variable {file : SourceFile} {tree after : Memory} {operation : Operation}

/-- What an operation does to the files of a tree. -/
inductive Effect (file : SourceFile) (tree after : Memory) : Operation → Action → Prop
  | look : after = tree →
    Effect file tree after .look (.look (tree.files.contains file.finalPath))
  | compare : after = tree →
    Effect file tree after .compare (.read file.finalPath (tree.read file.finalPath))
  | readBack : after = tree →
    Effect file tree after .readBack (.read file.finalPath (tree.read file.finalPath))
  | arrival : after.files = tree.files.insert file.finalPath file.text →
    Effect file tree after .write (Arrival file)
  | departure : after.files = tree.files.erase file.path →
    Effect file tree after .remove (Departure file)
  | undone : after.files = tree.files.erase file.finalPath →
    Effect file tree after .undo (.call (.remove file.finalPath) (.ok ()))
  | copied : after.files = tree.files →
    Effect file tree after .copyPermissions
      (.call (.copyPermissions file.path file.finalPath) (.ok ()))
  | refused (operation : Operation) (call : TreeCall) (cause : TreeError) :
    after.files = tree.files → Effect file tree after operation (.call call (.error cause))

private theorem effect_perform (file : SourceFile) (tree : Memory) (operation : Operation) :
    Effect file tree (file.perform tree operation).2.2 operation
      (file.perform tree operation).1 := by
  cases operation with
  | look => exact .look rfl
  | compare => exact .compare rfl
  | readBack => exact .readBack rfl
  | write =>
    have writing := tree.write_cases file.finalPath file.text
    simp only [SourceFile.perform, Memory.tree_write]
    rcases wrote : tree.write file.finalPath file.text with ⟨cause | ⟨⟩, next⟩
    · rw [wrote] at writing
      simp only [Except.error.injEq, reduceCtorEq, false_and, or_false] at writing
      obtain ⟨_, _, same⟩ := writing
      exact .refused _ _ cause same
    · rw [wrote] at writing
      simp only [reduceCtorEq, false_and, exists_false, true_and, false_or] at writing
      exact .arrival writing
  | undo =>
    have removal := tree.remove_cases file.finalPath
    simp only [SourceFile.perform, Memory.tree_remove]
    rcases removed : tree.remove file.finalPath with ⟨cause | ⟨⟩, next⟩
    · rw [removed] at removal
      simp only [Except.error.injEq, reduceCtorEq, false_and, or_false] at removal
      obtain ⟨_, _, same⟩ := removal
      exact .refused _ _ cause same
    · rw [removed] at removal
      simp only [reduceCtorEq, false_and, exists_false, true_and, false_or] at removal
      exact .undone removal.2
  | copyPermissions =>
    have same := tree.files_copyPermissions file.path file.finalPath
    simp only [SourceFile.perform, Memory.tree_copyPermissions]
    rcases copied : tree.copyPermissions file.path file.finalPath with ⟨cause | ⟨⟩, next⟩
    · rw [copied] at same
      exact .refused _ _ cause same
    · rw [copied] at same
      exact .copied same
  | remove =>
    have removal := tree.remove_cases file.path
    simp only [SourceFile.perform, Memory.tree_remove]
    rcases removed : tree.remove file.path with ⟨cause | ⟨⟩, next⟩
    · rw [removed] at removal
      simp only [Except.error.injEq, reduceCtorEq, false_and, or_false] at removal
      obtain ⟨_, _, same⟩ := removal
      exact .refused _ _ cause same
    · rw [removed] at removal
      simp only [reduceCtorEq, false_and, exists_false, true_and, false_or] at removal
      exact .departure removal.2

def Event.call? (event : Event) : Option TreeCall :=
  match event.action with
  | .call call _ => some call
  | _ => none

def callsOf (history : List Event) : List TreeCall :=
  history.filterMap Event.call?

private theorem tree_perform (plan : Planned) (tree : Memory) (operation : Operation) :
    (plan.file.perform tree operation).2.2 =
      tree.replay (callsOf [⟨plan, (plan.file.perform tree operation).1⟩]) := by
  cases operation <;> rfl

theorem Reaches.replay {options : RunOptions} {workers : Nat} {start phase : Phase Memory}
    {history : List Event} (reached : Reaches options workers start history phase) :
    phase.tree = start.tree.replay (callsOf history) := by
  induction reached with
  | refl => rfl
  | @snoc history phase next i event current later reached steps ih =>
    have last : next.tree = phase.tree.replay (callsOf [event]) := by
      obtain ⟨_, _, _, acts⟩ := steps
      generalize next.aborted = aborted, next.tree = tree at acts
      cases acts with
      | skip _ _ | start _ _ | finish _ _ => rfl
      | perform plan operation => exact tree_perform plan phase.tree operation
    rw [last, ih, ← Memory.replay_append, callsOf, callsOf, callsOf, List.filterMap_append]

end Operations

section Accounts

variable {files now : Dict Text} {slots : List Slot} {history : List Event} {plan other : Planned}
  {path : String}

def Arrived (slots : List Slot) (history : List Event) (path : String) : Prop :=
  ∃ plan, .planned plan ∈ slots ∧ plan.file.isMoved = true ∧ plan.file.finalPath = path ∧
    ⟨plan, Arrival plan.file⟩ ∈ history

def Departed (slots : List Slot) (history : List Event) (path : String) : Prop :=
  ∃ plan, .planned plan ∈ slots ∧ plan.file.isMoved = true ∧ plan.file.path = path ∧
    ⟨plan, Departure plan.file⟩ ∈ history

theorem Arrived.mono {more : List Slot} {longer : List Event}
    (arrived : Arrived slots history path)
    (planned : ∀ plan, .planned plan ∈ slots → .planned plan ∈ more) (grows : history ⊆ longer) :
    Arrived more longer path := by
  obtain ⟨plan, member, moved, final, done⟩ := arrived
  exact ⟨plan, planned plan member, moved, final, grows done⟩

theorem Departed.mono {more : List Slot} {longer : List Event}
    (departed : Departed slots history path)
    (planned : ∀ plan, .planned plan ∈ slots → .planned plan ∈ more) (grows : history ⊆ longer) :
    Departed more longer path := by
  obtain ⟨plan, member, moved, own, done⟩ := departed
  exact ⟨plan, planned plan member, moved, own, grows done⟩

private theorem Departed.snoc (departed : Departed slots history path) (event : Event) :
    Departed slots (history ++ [event]) path :=
  departed.mono (fun _ => id) (List.subset_append_left _ _)

private theorem Arrived.snoc (arrived : Arrived slots history path) (event : Event) :
    Arrived slots (history ++ [event]) path :=
  arrived.mono (fun _ => id) (List.subset_append_left _ _)

/-- What a history tells of a path. -/
structure Told (files : Dict Text) (slots : List Slot) (history : List Event) (path : String)
    (now : Option Text) : Prop where
  /-- Where there was no file. -/
  absent : files.find? path = none → now = none ∨
    ∃ plan, .planned plan ∈ slots ∧ plan.file.isMoved = true ∧ plan.file.finalPath = path ∧
      ⟨plan, Arrival plan.file⟩ ∈ history ∧ now = some plan.file.text
  /-- Where there was one. -/
  present : ∀ text, files.find? path = some text → now = some text ∨
    (∃ plan, .planned plan ∈ slots ∧ plan.file.isMoved = false ∧ plan.file.path = path ∧
      ⟨plan, Arrival plan.file⟩ ∈ history ∧ now = some plan.file.text) ∨
    Departed slots history path ∧ now = none
  /-- Where one has moved away. -/
  refilled : Departed slots history path → now = none ∨ Arrived slots history path
  /-- Where one has been rewritten. -/
  rewritten : ∀ plan, .planned plan ∈ slots → plan.file.isMoved = false →
    plan.file.path = path → ⟨plan, Arrival plan.file⟩ ∈ history → now = some plan.file.text

/-- What a history tells of the files of a tree. -/
structure Accounts (files : Dict Text) (slots : List Slot) (history : List Event)
    (now : Dict Text) : Prop where
  told : ∀ path, Told files slots history path (now.find? path)
  /-- Where a worker has found no file. -/
  missed : ∀ plan, .planned plan ∈ slots → ⟨plan, .look false⟩ ∈ history →
    files.find? plan.file.finalPath = none ∨ Departed slots history plan.file.finalPath

theorem Laid.not_departed (laid : Laid files slots) (member : .planned plan ∈ slots)
    (stays : plan.file.isMoved = false) : ¬Departed slots history plan.file.path := by
  rintro ⟨other, otherMember, moved, own, _⟩
  rw [laid.ordered.plan_unique otherMember member own, stays] at moved
  cases moved

theorem Accounts.not_missed (laid : Laid files slots)
    (accounts : Accounts files slots history now) (member : .planned plan ∈ slots)
    (stays : plan.file.isMoved = false) (otherMember : .planned other ∈ slots)
    (final : other.file.finalPath = plan.file.path) : ⟨other, .look false⟩ ∉ history := by
  intro looked
  have missed := accounts.missed other otherMember looked
  rw [final] at missed
  exact missed.elim (laid.held plan member) (laid.not_departed member stays)

private theorem departed_snoc_iff {event : Event}
    (stayed : ∀ plan : Planned, event = ⟨plan, Departure plan.file⟩ → plan.file.path ≠ path) :
    Departed slots (history ++ [event]) path ↔ Departed slots history path := by
  constructor
  · rintro ⟨plan, member, moved, own, done⟩
    rcases List.mem_append.mp done with before | last
    · exact ⟨plan, member, moved, own, before⟩
    · rw [List.mem_singleton] at last
      exact absurd own (stayed plan last.symm)
  · exact fun departed => departed.snoc _

private theorem Told.aside {now : Option Text} (told : Told files slots history path now)
    {event : Event}
    (stayed : ∀ plan : Planned, event = ⟨plan, Departure plan.file⟩ → plan.file.path ≠ path)
    (apart : ∀ plan : Planned, event = ⟨plan, Arrival plan.file⟩ → plan.file.finalPath ≠ path) :
    Told files slots (history ++ [event]) path now where
  absent := by
    intro free
    refine (told.absent free).imp id ?_
    rintro ⟨plan, member, moved, final, done, text⟩
    exact ⟨plan, member, moved, final, List.mem_append_left _ done, text⟩
  present := by
    intro text held
    refine (told.present text held).imp id (Or.imp ?_ ?_)
    · rintro ⟨plan, member, stays, own, done, text⟩
      exact ⟨plan, member, stays, own, List.mem_append_left _ done, text⟩
    · rintro ⟨departed, gone⟩
      exact ⟨departed.snoc _, gone⟩
  refilled := by
    rw [departed_snoc_iff stayed]
    intro departed
    exact (told.refilled departed).imp id (·.snoc _)
  rewritten := by
    intro plan member stays own done
    rcases List.mem_append.mp done with before | last
    · exact told.rewritten plan member stays own before
    · rw [List.mem_singleton] at last
      exact absurd ((SourceFile.final_of_stays stays).trans own) (apart plan last.symm)

private theorem Accounts.missed_snoc (accounts : Accounts files slots history now) {event : Event}
    (looked : event.action = .look false → now.find? event.plan.file.finalPath = none)
    (member : .planned plan ∈ slots) (seen : ⟨plan, .look false⟩ ∈ history ++ [event]) :
    files.find? plan.file.finalPath = none ∨
      Departed slots (history ++ [event]) plan.file.finalPath := by
  rcases List.mem_append.mp seen with before | last
  · exact (accounts.missed plan member before).imp id (·.snoc _)
  · rw [List.mem_singleton] at last
    subst last
    have gone := looked rfl
    cases found : files.find? plan.file.finalPath with
    | none => exact .inl rfl
    | some text =>
      right
      rcases (accounts.told _).present text found with same | ⟨_, _, _, _, _, same⟩ | ⟨departed, _⟩
      · rw [gone] at same
        cases same
      · rw [gone] at same
        cases same
      · exact departed.snoc _

private theorem accounts_refl (files : Dict Text) (slots : List Slot) :
    Accounts files slots [] files where
  told := fun path =>
    { absent := fun free => .inl free
      present := fun _ held => .inl held
      refilled := fun ⟨_, _, _, _, gone⟩ => by cases gone
      rewritten := fun _ _ _ _ done => by cases done }
  missed := fun _ _ seen => by cases seen

/-- An action that changes no file. -/
private theorem Accounts.quiet (accounts : Accounts files slots history now) {event : Event}
    (looked : event.action = .look false → now.find? event.plan.file.finalPath = none)
    (stayed : ∀ plan : Planned, event ≠ ⟨plan, Departure plan.file⟩)
    (apart : ∀ plan : Planned, event ≠ ⟨plan, Arrival plan.file⟩) :
    Accounts files slots (history ++ [event]) now where
  told := fun path => (accounts.told path).aside (fun plan same => absurd same (stayed plan))
    fun plan same => absurd same (apart plan)
  missed := fun _ member seen => accounts.missed_snoc looked member seen

private theorem Accounts.arrival (laid : Laid files slots)
    (accounts : Accounts files slots history now) (member : .planned plan ∈ slots)
    (looked : plan.file.isMoved = true → ⟨plan, .look false⟩ ∈ history) :
    Accounts files slots (history ++ [⟨plan, Arrival plan.file⟩])
      (now.insert plan.file.finalPath plan.file.text) where
  told := by
    intro path
    have stayed : ∀ other : Planned, (⟨plan, Arrival plan.file⟩ : Event) =
        ⟨other, Departure other.file⟩ → other.file.path ≠ path := by
      intro other same
      simp [Arrival, Departure] at same
    rw [Dict.find?_insert]
    split
    · next here =>
      subst here
      cases moved : plan.file.isMoved with
      | true =>
        refine ⟨fun _ => .inr ⟨plan, member, moved, rfl, by simp, rfl⟩, fun text held => ?_,
          fun _ => .inr ⟨plan, member, moved, rfl, by simp⟩, ?_⟩
        · rw [laid.landed member moved held]
          exact .inl rfl
        · intro other otherMember stays own _
          exact absurd (looked moved) (accounts.not_missed laid otherMember stays member own.symm)
      | false =>
        have home := SourceFile.final_of_stays moved
        refine ⟨fun free => ?_,
          fun _ _ => .inr (.inl ⟨plan, member, moved, home.symm, by simp, rfl⟩),
          fun departed => ?_, ?_⟩
        · rw [home] at free
          exact absurd free (laid.held plan member)
        · rw [departed_snoc_iff stayed, home] at departed
          exact absurd departed (laid.not_departed member moved)
        · intro other otherMember _ own _
          rw [laid.ordered.plan_unique otherMember member (own.trans home)]
    · next elsewhere =>
      refine (accounts.told path).aside stayed fun other same => ?_
      rw [← (Event.mk.inj same).1]
      exact Ne.symm elsewhere
  missed := fun _ member seen => accounts.missed_snoc (by simp [Arrival]) member seen

private theorem Accounts.departure (laid : Laid files slots)
    (accounts : Accounts files slots history now) (member : .planned plan ∈ slots)
    (moved : plan.file.isMoved = true) :
    Accounts files slots (history ++ [⟨plan, Departure plan.file⟩])
      (now.erase plan.file.path) where
  told := by
    intro path
    rw [Dict.find?_erase]
    split
    · next here =>
      refine ⟨fun _ => .inl rfl,
        fun _ _ => .inr (.inr ⟨⟨plan, member, moved, here.symm, by simp⟩, rfl⟩),
        fun _ => .inl rfl, ?_⟩
      intro other otherMember stays own _
      rw [laid.ordered.plan_unique otherMember member (own.trans here), moved] at stays
      cases stays
    · next elsewhere =>
      refine (accounts.told path).aside (fun other same => ?_) fun other same => ?_
      · rw [← (Event.mk.inj same).1]
        exact Ne.symm elsewhere
      · simp [Arrival, Departure] at same
  missed := fun _ member seen => accounts.missed_snoc (by simp [Departure]) member seen

private theorem Accounts.undone (laid : Laid files slots)
    (accounts : Accounts files slots history now) (member : .planned plan ∈ slots)
    (moved : plan.file.isMoved = true)
    (looked : ⟨plan, .look false⟩ ∈ history) :
    Accounts files slots (history ++ [⟨plan, .call (.remove plan.file.finalPath) (.ok ())⟩])
      (now.erase plan.file.finalPath) where
  told := by
    intro path
    have stayed : ∀ other : Planned,
        (⟨plan, .call (.remove plan.file.finalPath) (.ok ())⟩ : Event) =
          ⟨other, Departure other.file⟩ → other.file.path ≠ path := by
      intro other same
      simp only [Event.mk.injEq, Departure, Action.call.injEq, TreeCall.remove.injEq] at same
      obtain ⟨rfl, same, _⟩ := same
      exact absurd same (SourceFile.isMoved_iff.mp moved)
    rw [Dict.find?_erase]
    split
    · next here =>
      refine ⟨fun _ => .inl rfl, fun text held => ?_, fun _ => .inl rfl, ?_⟩
      · rcases accounts.missed plan member looked with free | departed
        · rw [← here, held] at free
          cases free
        · rw [here]
          exact .inr (.inr ⟨departed.snoc _, rfl⟩)
      · intro other otherMember stays own _
        exact absurd looked
          (accounts.not_missed laid otherMember stays member (here.symm.trans own.symm))
    · exact (accounts.told path).aside stayed (by simp [Arrival])
  missed := fun _ member seen => accounts.missed_snoc (by simp) member seen

end Accounts

section Runs

variable {options : RunOptions} {workers i : Nat} {slots : List Slot} {tree : Memory}
  {history : List Event} {phase next : Phase Memory} {event : Event} {current later : Progress}
  {path : String}

theorem Steps.effect (steps : Steps options workers phase i event next current later) :
    next.tree = phase.tree ∧
        (event.action = .skip ∨ event.action = .start ∨ ∃ result, event.action = .finish result) ∨
      ∃ operation, current = .underway event.plan operation ∧
        Effect event.plan.file phase.tree next.tree operation event.action := by
  obtain ⟨_, _, _, acts⟩ := steps
  generalize next.aborted = aborted, next.tree = tree at acts
  cases acts with
  | skip plan _ => exact .inl ⟨rfl, .inl rfl⟩
  | start plan _ => exact .inl ⟨rfl, .inr (.inl rfl)⟩
  | finish plan result => exact .inl ⟨rfl, .inr (.inr ⟨result, rfl⟩)⟩
  | perform plan operation => exact .inr ⟨operation, rfl, effect_perform _ _ _⟩

theorem Steps.looked {present : Bool}
    (steps : Steps options workers phase i event next current later)
    (looked : event.action = .look present) :
    next.tree = phase.tree ∧
      phase.tree.files.contains event.plan.file.finalPath = present := by
  rcases steps.effect with ⟨_, idle⟩ | ⟨operation, _, effect⟩
  · simp [looked] at idle
  · generalize event.action = action at looked effect
    cases effect with
    | look same => exact ⟨same, Action.look.inj looked⟩
    | compare _ | readBack _ | arrival _ | departure _ | undone _ | copied _
    | refused _ _ _ _ => cases looked

theorem Steps.hasRead {answer : Except TreeError Text}
    (steps : Steps options workers phase i event next current later)
    (read : event.action = .read path answer) :
    (current = .underway event.plan .compare ∨ current = .underway event.plan .readBack) ∧
      answer = phase.tree.read event.plan.file.finalPath := by
  rcases steps.effect with ⟨_, idle⟩ | ⟨operation, same, effect⟩
  · simp [read] at idle
  · generalize event.action = action at read effect
    cases effect with
    | compare _ =>
      cases read
      exact ⟨.inl same, rfl⟩
    | readBack _ =>
      cases read
      exact ⟨.inr same, rfl⟩
    | look _ | arrival _ | departure _ | undone _ | copied _ | refused _ _ _ _ => cases read

theorem Steps.arrives (steps : Steps options workers phase i event next current later)
    (wrote : event.action = Arrival event.plan.file) :
    current = .underway event.plan .write ∧
      next.tree.files = phase.tree.files.insert event.plan.file.finalPath event.plan.file.text := by
  rcases steps.effect with ⟨_, idle⟩ | ⟨operation, same, effect⟩
  · simp [wrote, Arrival] at idle
  · generalize event.action = action at wrote effect
    cases effect with
    | arrival files => exact ⟨same, files⟩
    | look _ | compare _ | readBack _ | departure _ | undone _ | copied _
    | refused _ _ _ _ => cases wrote

theorem Reaches.accounts (laid : Laid tree.files slots)
    (reached : Reaches options workers (Phase.ofSlots tree slots) history phase) :
    Accounts tree.files slots history phase.tree.files := by
  induction reached with
  | refl => exact accounts_refl tree.files slots
  | @snoc history phase next i event current later reached steps ih =>
    have member := reached.planned steps
    rcases steps.effect with ⟨same, idle⟩ | ⟨operation, rfl, effect⟩
    · rw [same]
      rcases idle with action | action | ⟨result, action⟩ <;>
        refine ih.quiet (by simp [action]) ?_ ?_ <;> rintro plan rfl <;> cases action
    · obtain ⟨actions, known, story⟩ := reached.story_underway laid.ordered steps.before
      obtain ⟨plan, action⟩ := event
      dsimp only at member known story effect
      cases effect with
      | look same =>
        rw [same]
        refine ih.quiet ?_ (by simp [Departure]) (by simp [Arrival])
        intro missing
        simpa [Dict.contains] using missing
      | compare same | readBack same =>
        rw [same]
        exact ih.quiet (by simp) (by simp [Departure]) (by simp [Arrival])
      | refused _ call cause same =>
        rw [same]
        exact ih.quiet (by simp) (by simp [Departure]) (by simp [Arrival])
      | copied same =>
        rw [same]
        exact ih.quiet (by simp) (by simp [Departure]) (by simp [Arrival])
      | arrival files =>
        rw [files]
        refine ih.arrival laid member fun moved => ?_
        rw [← mem_actionsOf_iff, known]
        cases story with
        | write opens =>
          obtain ⟨_, rfl⟩ := opens.resolve_right (by simp [moved])
          simp
      | departure files =>
        rw [files]
        cases story with
        | remove verifies => exact ih.departure laid member verifies.1
      | undone files =>
        rw [files]
        cases story with
        | undo back moved _ =>
          refine ih.undone laid member moved ?_
          rw [← mem_actionsOf_iff, known]
          simp

end Runs

section Pools

variable {pool : Nat → Except String Nat} {schedule : List Nat} {table : Table}
  {options : PoolOptions} {tree : Memory} {workers : Nat} {history : List Event}
  {phase : Phase Memory} {reports : List FileReport}

theorem CarriedOut.replayed
    (carried : CarriedOut pool schedule table options tree workers history phase reports) :
    phase.tree = tree.replay
      ((destinationDirs (slotsOf table tree)).map .createDirs ++ callsOf history) := by
  have made : (createDestinations tree (slotsOf table tree)).2 =
      tree.replay ((destinationDirs (slotsOf table tree)).map .createDirs) :=
    createAll_replay tree _
  rw [Memory.replay_append, ← made]
  exact carried.reached.replay

theorem CarriedOut.trace
    (carried : CarriedOut pool schedule table options tree workers history phase reports)
    (fresh : tree.trace = []) :
    phase.tree.trace =
      (destinationDirs (slotsOf table tree)).map .createDirs ++ callsOf history := by
  rw [carried.replayed, Memory.trace_replay, fresh, List.nil_append]

end Pools

end Repackage.Run
