import Repackage.Proofs.Dict
import Repackage.Tree.Memory

/-!
What the operations of a tree in memory do to its files. Every operation either leaves the files
alone or makes the one change it is named for, whatever faults are set; without faults each of them
has the result that the files call for. The calls that a tree has recorded can be replayed from the
tree at their start, so the tree at each call is known from the trace alone.
-/

set_option autoImplicit false
set_option relaxedAutoImplicit false

namespace Repackage.Memory

/-- Nothing is made to fail. -/
def Calm (tree : Memory) : Prop :=
  tree.faults = {}

/-- The paths of the files outside pruned directories, in order. -/
def paths (tree : Memory) : List String :=
  tree.files.keys.filter fun path => !isHidden path

/-- The tree after a call. -/
def perform (tree : Memory) : TreeCall → Memory
  | .write path text => (tree.write path text).2
  | .remove path => (tree.remove path).2
  | .createDirs dir => (tree.createDirs dir).2
  | .copyPermissions source target => (tree.copyPermissions source target).2

def replay (tree : Memory) (calls : List TreeCall) : Memory :=
  calls.foldl perform tree

theorem replay_append (tree : Memory) (before after : List TreeCall) :
    tree.replay (before ++ after) = (tree.replay before).replay after :=
  List.foldl_append

@[simp] theorem tree_walk (tree : Memory) : Tree.walk tree = tree.walk := rfl

@[simp] theorem tree_read (tree : Memory) (path : String) :
    Tree.read tree path = tree.read path := rfl

@[simp] theorem tree_holds (tree : Memory) (path : String) :
    Tree.holds tree path = tree.files.contains path := rfl

@[simp] theorem tree_write (tree : Memory) (path : String) (text : Text) :
    Tree.write tree path text = tree.write path text := rfl

@[simp] theorem tree_remove (tree : Memory) (path : String) :
    Tree.remove tree path = tree.remove path := rfl

@[simp] theorem tree_createDirs (tree : Memory) (dir : String) :
    Tree.createDirs tree dir = tree.createDirs dir := rfl

@[simp] theorem tree_copyPermissions (tree : Memory) (source target : String) :
    Tree.copyPermissions tree source target = tree.copyPermissions source target := rfl

@[simp] theorem written_restart (tree : Memory) (faults : Faults) :
    (tree.restart faults).written = [] := rfl

@[simp] theorem faults_record (tree : Memory) (call : TreeCall) :
    (tree.record call).faults = tree.faults := rfl

@[simp] theorem files_record (tree : Memory) (call : TreeCall) :
    (tree.record call).files = tree.files := rfl

theorem calm_restart (tree : Memory) : (tree.restart {}).Calm := rfl

theorem paths_sorted (tree : Memory) : tree.paths.Pairwise (· < ·) :=
  (Dict.keys_sorted tree.files).filter _

theorem mem_paths_iff {tree : Memory} {path : String} :
    path ∈ tree.paths ↔ tree.files.find? path ≠ none ∧ isHidden path = false := by
  rw [paths, List.mem_filter, Dict.mem_keys_iff, Option.isSome_iff_ne_none, Bool.not_eq_true']

theorem walk_eq_ok {tree : Memory} {paths : List String} (walked : tree.walk = .ok paths) :
    paths = tree.paths := by
  unfold walk at walked
  split at walked
  · cases walked
  · exact (Except.ok.inj walked).symm

theorem held_of_read {tree : Memory} {path : String} {text : Text}
    (read : tree.read path = .ok text) : tree.files.find? path ≠ none := by
  intro absent
  unfold Memory.read at read
  rw [absent] at read
  split at read <;> cases read

def Honest (tree : Memory) : Prop :=
  ∀ {path : String} {text : Text}, tree.read path = .ok text → tree.files.find? path = some text

theorem honest_of_fresh {tree : Memory} (fresh : tree.written = []) : tree.Honest := by
  intro path text read
  unfold Memory.read at read
  rw [fresh] at read
  split at read
  · cases read
  · split at read
    · cases read
    · next current found =>
      simp only [List.not_mem_nil, if_false, Except.ok.injEq] at read
      rw [found, read]

section Effects

variable (tree : Memory) (path : String) (text : Text)

theorem write_cases :
    (∃ cause, (tree.write path text).1 = .error cause ∧
      (tree.write path text).2.files = tree.files) ∨
    ((tree.write path text).1 = .ok () ∧
      (tree.write path text).2.files = tree.files.insert path text) := by
  simp only [write]
  split
  · next message _ => exact .inl ⟨.fault message, rfl, rfl⟩
  · exact .inr ⟨rfl, rfl⟩

theorem remove_cases :
    (∃ cause, (tree.remove path).1 = .error cause ∧ (tree.remove path).2.files = tree.files) ∨
    ((tree.remove path).1 = .ok () ∧ tree.files.find? path ≠ none ∧
      (tree.remove path).2.files = tree.files.erase path) := by
  simp only [remove]
  split
  · next message _ => exact .inl ⟨.fault message, rfl, rfl⟩
  · split
    · next held => exact .inr ⟨rfl, Dict.contains_iff.mp held, rfl⟩
    · exact .inl ⟨.missing path, rfl, rfl⟩

theorem files_copyPermissions (target : String) :
    (tree.copyPermissions path target).2.files = tree.files := by
  simp only [copyPermissions]
  split <;> rfl

theorem files_createDirs : (tree.createDirs path).2.files = tree.files := by
  simp only [createDirs]
  split <;> rfl

end Effects

theorem faults_perform (tree : Memory) (call : TreeCall) :
    (tree.perform call).faults = tree.faults := by
  cases call with
  | write path text =>
    simp only [perform, write]
    split <;> rfl
  | remove path =>
    simp only [perform, remove]
    split
    · rfl
    · split <;> rfl
  | createDirs dir =>
    simp only [perform, createDirs]
    split <;> rfl
  | copyPermissions source target =>
    simp only [perform, copyPermissions]
    split <;> rfl

private theorem trace_perform (tree : Memory) (call : TreeCall) :
    (tree.perform call).trace = tree.trace ++ [call] := by
  cases call with
  | write path text =>
    simp only [perform, write]
    split <;> rfl
  | remove path =>
    simp only [perform, remove]
    split
    · rfl
    · split <;> rfl
  | createDirs dir =>
    simp only [perform, createDirs]
    split <;> rfl
  | copyPermissions source target =>
    simp only [perform, copyPermissions]
    split <;> rfl

theorem trace_replay (tree : Memory) (calls : List TreeCall) :
    (tree.replay calls).trace = tree.trace ++ calls := by
  induction calls generalizing tree with
  | nil => simp [replay]
  | cons call calls ih =>
    have rest := ih (tree.perform call)
    rw [trace_perform, List.append_assoc] at rest
    exact rest

theorem faults_replay (tree : Memory) (calls : List TreeCall) :
    (tree.replay calls).faults = tree.faults := by
  induction calls generalizing tree with
  | nil => rfl
  | cons call calls ih => exact (ih (tree.perform call)).trans (faults_perform tree call)

theorem Calm.perform {tree : Memory} (calm : tree.Calm) (call : TreeCall) :
    (tree.perform call).Calm :=
  (faults_perform tree call).trans calm

section WithoutFaults

variable {tree : Memory}

theorem Calm.walk (calm : tree.Calm) : tree.walk = .ok tree.paths := by
  unfold Memory.walk
  rw [calm]
  rfl

theorem Calm.read_of_held (calm : tree.Calm) {path : String} {text : Text}
    (held : tree.files.find? path = some text) : tree.read path = .ok text := by
  unfold Memory.read
  rw [calm, held]
  simp only [Dict.find?_empty, ite_self]

private theorem Calm.read_of_absent (calm : tree.Calm) {path : String}
    (absent : tree.files.find? path = none) : tree.read path = .error (.missing path) := by
  unfold Memory.read
  rw [calm, absent]
  simp only [Dict.find?_empty]

theorem Calm.read_eq_ok_iff (calm : tree.Calm) {path : String} {text : Text} :
    tree.read path = .ok text ↔ tree.files.find? path = some text := by
  cases found : tree.files.find? path with
  | none => simp [calm.read_of_absent found]
  | some current => simp [calm.read_of_held found]

theorem Calm.honest (calm : tree.Calm) : tree.Honest :=
  calm.read_eq_ok_iff.mp

theorem Calm.write (calm : tree.Calm) (path : String) (text : Text) :
    (tree.write path text).1 = .ok () ∧
      (tree.write path text).2.files = tree.files.insert path text := by
  have quiet : tree.faults = {} := calm
  simp only [Memory.write, faults_record, files_record, quiet, Dict.find?_empty, and_self]

theorem Calm.remove (calm : tree.Calm) {path : String} (held : tree.files.find? path ≠ none) :
    (tree.remove path).1 = .ok () ∧ (tree.remove path).2.files = tree.files.erase path := by
  have quiet : tree.faults = {} := calm
  have present : tree.files.contains path = true := Dict.contains_iff.mpr held
  simp only [Memory.remove, faults_record, files_record, quiet, Dict.find?_empty, present,
    if_true, and_self]

theorem Calm.copyPermissions (calm : tree.Calm) (source target : String) :
    (tree.copyPermissions source target).1 = .ok () := by
  have quiet : tree.faults = {} := calm
  simp only [Memory.copyPermissions, faults_record, quiet, Dict.find?_empty]

theorem Calm.createDirs (calm : tree.Calm) (dir : String) :
    (tree.createDirs dir).1 = .ok () := by
  have quiet : tree.faults = {} := calm
  simp only [Memory.createDirs, faults_record, quiet, Dict.find?_empty]

end WithoutFaults

end Repackage.Memory
