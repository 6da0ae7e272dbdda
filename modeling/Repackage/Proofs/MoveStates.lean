import Mathlib.Tactic.SplitIfs
import Repackage.Proofs.Commit

/-!
The states in which a move can be left. Whatever fails on the way, the file's old place and its
destination are as before, or the destination has got the file's text as well, or the text is at the
destination only; and the last exactly when the move is reported as done.
-/

set_option autoImplicit false
set_option relaxedAutoImplicit false

namespace Repackage

private theorem Memory.find?_of_read {tree : Memory} {path : String} {text : Text}
    (honest : tree.faults.corrupt.find? path = none) (read : tree.read path = .ok text) :
    tree.files.find? path = some text := by
  unfold Memory.read at read
  rw [honest] at read
  split at read
  · cases read
  · split at read
    · cases read
    next current found =>
      rw [found]
      split_ifs at read
      · split at read
        · cases read
        · exact congrArg some (Except.ok.inj read)
      · exact congrArg some (Except.ok.inj read)

/-- How far the move of a file has come. -/
inductive MoveState where
  /-- The old place and the destination are as they were. -/
  | notBegun
  /-- The old place is as it was, and the destination holds the file's text. -/
  | copied
  /-- The old place is gone, and the destination holds the file's text. -/
  | finished
  deriving DecidableEq

/-- Whether the files before and after show that a move has come so far. -/
def MoveState.Shows (file : SourceFile) (before after : Dict Text) : MoveState → Prop
  | .notBegun =>
    after.find? file.path = before.find? file.path ∧
      after.find? file.finalPath = before.find? file.finalPath
  | .copied =>
    after.find? file.path = before.find? file.path ∧ after.find? file.finalPath = some file.text
  | .finished => after.find? file.path = none ∧ after.find? file.finalPath = some file.text

namespace SourceFile

section States

variable {file : SourceFile} {tree : Memory}

private theorem shows_of_failed {after : Dict Text} (moved : file.isMoved = true)
    (left : after = tree.files ∨ tree.files.find? file.finalPath = none ∧
      after = tree.files.insert file.finalPath file.text) :
    MoveState.Shows file tree.files after .notBegun ∨
      tree.files.find? file.finalPath = none ∧
        MoveState.Shows file tree.files after .copied := by
  obtain rfl | ⟨free, rfl⟩ := left
  · exact .inl ⟨rfl, rfl⟩
  · have away : file.path ≠ file.finalPath := (isMoved_iff.mp moved).symm
    refine .inr ⟨free, ?_, ?_⟩
    · rw [Dict.find?_insert, if_neg away]
    · rw [Dict.find?_insert, if_pos rfl]

private theorem shows_of_moved {after : Dict Text} (moved : file.isMoved = true)
    (honest : tree.files.find? file.finalPath ≠ none →
      tree.faults.corrupt.find? file.finalPath = none)
    (left : tree.read file.finalPath = .ok file.text ∧ after = tree.files.erase file.path ∨
      tree.files.find? file.finalPath = none ∧
        after = (tree.files.insert file.finalPath file.text).erase file.path) :
    (∀ text, tree.files.find? file.finalPath = some text → text = file.text) ∧
      MoveState.Shows file tree.files after .finished := by
  have away : file.finalPath ≠ file.path := isMoved_iff.mp moved
  obtain ⟨read, rfl⟩ | ⟨free, rfl⟩ := left
  · have held : tree.files.find? file.finalPath = some file.text :=
      Memory.find?_of_read (honest (Memory.held_of_read read)) read
    refine ⟨fun text found => Option.some.inj (found.symm.trans held), ?_, ?_⟩
    · rw [Dict.find?_erase, if_pos rfl]
    · rw [Dict.find?_erase, if_neg away, held]
  · refine ⟨fun text found => ?_, ?_, ?_⟩
    · rw [free] at found
      cases found
    · rw [Dict.find?_erase, if_pos rfl]
    · rw [Dict.find?_erase, if_neg away, Dict.find?_insert, if_pos rfl]

end States

/-- The commit of a moved file on a tree with any faults, except that a destination that is there is
not read corrupted. No other path changes, and the move is left in one of three states, the last of
them exactly when it is reported as moved; before another text at the destination it fails and
changes nothing. -/
theorem move_left_in_three_states (file : SourceFile) (tree : Memory) (changed : Bool)
    (moved : file.isMoved = true) (own : tree.files.find? file.path ≠ none)
    (honest : tree.files.find? file.finalPath ≠ none →
      tree.faults.corrupt.find? file.finalPath = none) :
    let result := (file.commit tree changed).1
    let after := (file.commit tree changed).2.files
    (∀ path, path ≠ file.path → path ≠ file.finalPath →
        after.find? path = tree.files.find? path) ∧
      (∃ state : MoveState, state.Shows file tree.files after) ∧
      (MoveState.finished.Shows file tree.files after ↔ result = .ok .moved) ∧
      ∀ text, tree.files.find? file.finalPath = some text → text ≠ file.text →
        (∃ failure, result = .error failure) ∧
          MoveState.notBegun.Shows file tree.files after := by
  intro result after
  refine ⟨fun path notOwn notFinal => file.commit_find?_other tree changed notOwn notFinal, ?_⟩
  have made : file.commit tree changed = file.move tree := by rw [commit, if_pos moved]
  have cases := file.move_cases tree moved
  rw [← made] at cases
  obtain ⟨failure, failed, left⟩ | ⟨done, left⟩ := cases
  · have shows := shows_of_failed moved left
    have stays : after.find? file.path = tree.files.find? file.path :=
      shows.elim (·.1) (·.2.1)
    refine ⟨?_, ⟨fun finished => ?_, fun success => ?_⟩, fun text held _ => ⟨⟨failure, failed⟩, ?_⟩⟩
    · exact shows.elim (fun shown => ⟨_, shown⟩) (fun shown => ⟨_, shown.2⟩)
    · exact absurd (stays.symm.trans finished.1) own
    · cases failed.symm.trans success
    · refine shows.resolve_right fun written => ?_
      rw [held] at written
      cases written.1
  · obtain ⟨fitting, shown⟩ := shows_of_moved moved honest left
    refine ⟨⟨_, shown⟩, ⟨fun _ => done, fun _ => shown⟩, fun text held other => ?_⟩
    exact absurd (fitting text held) other

/-- A file on its way from one directory to another. -/
def coveFile : SourceFile :=
  ⟨"a/x.go", some "b/x.go", "b", "package b\n".toList, []⟩

/-- A tree that corrupts the copy of the file, and does not let it be taken away again. -/
def coveTree : Memory where
  files := Dict.ofList [("a/x.go", "package a\n".toList)]
  faults := { corrupt := Dict.ofList [("b/x.go", "!")], remove := Dict.ofList [("b/x.go", "busy")] }

/-- The copy that did not read back stays beside the file. -/
theorem cove_left_copied :
    (coveFile.commit coveTree true).1 = .error (.readBackMismatch "b/x.go") ∧
      MoveState.copied.Shows coveFile coveTree.files (coveFile.commit coveTree true).2.files := by
  have failed : (coveFile.commit coveTree true).1 = .error (.readBackMismatch "b/x.go") := rfl
  obtain ⟨-, ⟨state, shown⟩, moved_iff, -⟩ :=
    move_left_in_three_states coveFile coveTree true (by decide) (by decide) (by decide)
  refine ⟨failed, ?_⟩
  cases state with
  | notBegun =>
    have written : (coveFile.commit coveTree true).2.files.find? "b/x.go" ≠ none := by decide
    exact absurd shown.2 written
  | copied => exact shown
  | finished => cases failed.symm.trans (moved_iff.1 shown)

end SourceFile

end Repackage
