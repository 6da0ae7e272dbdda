import Repackage.Proofs.Memory
import Repackage.Relocate

/-!
What committing one file does to a tree in memory. Whatever faults are set, a commit touches no path
but the file's own and its destination, writes a destination only where there was no file, and takes
the file itself away only when the destination has its text. Without faults the outcome is decided
by what the destination holds.
-/

set_option autoImplicit false
set_option relaxedAutoImplicit false

namespace Repackage.SourceFile

theorem isMoved_iff {file : SourceFile} : file.isMoved = true ↔ file.finalPath ≠ file.path := by
  simp [isMoved]

theorem final_of_stays {file : SourceFile} (stays : file.isMoved = false) :
    file.finalPath = file.path := by
  simpa [isMoved] using stays

private theorem finishMove_cases (file : SourceFile) (tree : Memory) :
    (∃ failure, (file.finishMove tree).1 = .error failure ∧
      (file.finishMove tree).2.files = tree.files) ∨
    ((file.finishMove tree).1 = .ok .moved ∧ tree.files.find? file.path ≠ none ∧
      (file.finishMove tree).2.files = tree.files.erase file.path) := by
  have copyFiles := tree.files_copyPermissions file.path file.finalPath
  unfold finishMove
  simp only [Memory.tree_copyPermissions, Memory.tree_remove]
  rcases copied : tree.copyPermissions file.path file.finalPath with ⟨cause | ⟨⟩, copy⟩
  · rw [copied] at copyFiles
    exact .inl ⟨_, rfl, copyFiles⟩
  · rw [copied] at copyFiles
    dsimp only
    have removal := copy.remove_cases file.path
    rcases removed : copy.remove file.path with ⟨cause | ⟨⟩, rest⟩
    · rw [removed] at removal
      simp only [reduceCtorEq, false_and, or_false] at removal
      obtain ⟨_, _, same⟩ := removal
      exact .inl ⟨_, rfl, same.trans copyFiles⟩
    · rw [removed] at removal
      simp only [reduceCtorEq, false_and, exists_false, true_and, false_or] at removal
      rw [copyFiles] at removal
      exact .inr ⟨rfl, removal⟩

private theorem writeVerified_cases (tree : Memory) (path : String) (text : Text) :
    (∃ failure, (writeVerified tree path text).1 = .error failure ∧
      (writeVerified tree path text).2.files = tree.files) ∨
    (writeVerified tree path text).2.files = tree.files.insert path text := by
  have writing := tree.write_cases path text
  unfold writeVerified
  simp only [Memory.tree_write, Memory.tree_read]
  rcases wrote : tree.write path text with ⟨cause | ⟨⟩, next⟩
  · rw [wrote] at writing
    simp only [Except.error.injEq, reduceCtorEq, false_and, or_false] at writing
    obtain ⟨_, _, same⟩ := writing
    exact .inl ⟨_, rfl, same⟩
  · rw [wrote] at writing
    simp only [reduceCtorEq, false_and, exists_false, true_and, false_or] at writing
    right
    dsimp only
    cases next.read path <;> exact writing

theorem move_cases (file : SourceFile) (tree : Memory) (moved : file.isMoved = true) :
    (∃ failure, (file.move tree).1 = .error failure ∧
      ((file.move tree).2.files = tree.files ∨
        tree.files.find? file.finalPath = none ∧
          (file.move tree).2.files = tree.files.insert file.finalPath file.text)) ∨
    ((file.move tree).1 = .ok .moved ∧
      (tree.read file.finalPath = .ok file.text ∧
          (file.move tree).2.files = tree.files.erase file.path ∨
        tree.files.find? file.finalPath = none ∧
          (file.move tree).2.files =
            (tree.files.insert file.finalPath file.text).erase file.path)) := by
  unfold move checkDestination
  simp only [moved, Memory.tree_holds, Memory.tree_read, Memory.tree_remove, Bool.not_true,
    Bool.false_eq_true, false_or]
  cases held : tree.files.find? file.finalPath with
  | some current =>
    -- The destination is there: nothing is written, and only the old place can go.
    have present : tree.files.contains file.finalPath = true :=
      Dict.contains_iff.mpr (by simp [held])
    simp only [present, Bool.not_true, Bool.false_eq_true, if_false]
    cases read : tree.read file.finalPath with
    | error cause => exact .inl ⟨_, rfl, .inl rfl⟩
    | ok current =>
      by_cases same : current = file.text
      · simp only [same, if_true]
        rcases file.finishMove_cases tree with ⟨failure, failed, kept⟩ | ⟨done, _, gone⟩
        · exact .inl ⟨failure, failed, .inl kept⟩
        · exact .inr ⟨done, .inl ⟨trivial, gone⟩⟩
      · simp only [same, if_false]
        exact .inl ⟨_, rfl, .inl trivial⟩
  | none =>
    have absent : tree.files.contains file.finalPath = false := by
      simp [Dict.contains, held]
    simp only [absent, Bool.not_false, if_true]
    have writing := writeVerified_cases tree file.finalPath file.text
    rcases wrote : writeVerified tree file.finalPath file.text with ⟨failure | ⟨⟩, next⟩
    · rw [wrote] at writing
      have kept : next.files = tree.files ∨
          next.files = tree.files.insert file.finalPath file.text :=
        writing.imp (fun failed => failed.choose_spec.2) id
      cases failure with
      | readBackMismatch path =>
        -- The copy that did not read back is taken away, unless that fails.
        refine .inl ⟨_, rfl, ?_⟩
        rcases next.remove_cases file.finalPath with ⟨_, _, same⟩ | ⟨_, present, gone⟩
        · simp only [same]
          exact kept.imp id fun written => ⟨trivial, written⟩
        · simp only [gone]
          rcases kept with unwritten | written
          · rw [unwritten] at present
            exact absurd held present
          · rw [written, Dict.erase_insert_of_absent _ held]
            exact .inl rfl
      | ambiguous _ | conflict _ | tree _ _ _ | misplacedEdit =>
        exact .inl ⟨_, rfl, kept.imp id fun written => ⟨trivial, written⟩⟩
    · rw [wrote] at writing
      simp only [reduceCtorEq, false_and, exists_false, false_or] at writing
      rcases file.finishMove_cases next with ⟨failure, failed, kept⟩ | ⟨done, _, gone⟩
      · exact .inl ⟨failure, failed, .inr ⟨trivial, kept.trans writing⟩⟩
      · exact .inr ⟨done, .inr ⟨trivial, gone.trans (congrArg (·.erase file.path) writing)⟩⟩

theorem move_files (file : SourceFile) (tree : Memory) (moved : file.isMoved = true) :
    (file.move tree).2.files = tree.files ∨
    (tree.files.find? file.finalPath = none ∧
      (file.move tree).2.files = tree.files.insert file.finalPath file.text) ∨
    (tree.files.find? file.finalPath ≠ none ∧
      (file.move tree).2.files = tree.files.erase file.path) ∨
    (tree.files.find? file.finalPath = none ∧
      (file.move tree).2.files =
        (tree.files.insert file.finalPath file.text).erase file.path) := by
  rcases file.move_cases tree moved with ⟨_, _, same | written⟩ | ⟨_, ⟨read, gone⟩ | both⟩
  · exact .inl same
  · exact .inr (.inl written)
  · exact .inr (.inr (.inl ⟨Memory.held_of_read read, gone⟩))
  · exact .inr (.inr (.inr both))

theorem rewriteInPlace_files (file : SourceFile) (tree : Memory) :
    (file.rewriteInPlace tree).2.files = tree.files ∨
      (file.rewriteInPlace tree).2.files = tree.files.insert file.path file.text := by
  have writing := writeVerified_cases tree file.path file.text
  unfold rewriteInPlace
  rcases wrote : writeVerified tree file.path file.text with ⟨failure | ⟨⟩, next⟩ <;>
    rw [wrote] at writing <;>
    exact writing.imp (fun failed => failed.choose_spec.2) id

section Faults

variable (file : SourceFile) (tree : Memory)

private theorem faults_finishMove : (file.finishMove tree).2.faults = tree.faults := by
  have copying := tree.faults_perform (.copyPermissions file.path file.finalPath)
  unfold finishMove
  simp only [Memory.tree_copyPermissions, Memory.tree_remove, Memory.perform] at copying ⊢
  rcases copied : tree.copyPermissions file.path file.finalPath with ⟨cause | ⟨⟩, copy⟩
  · rw [copied] at copying
    exact copying
  · rw [copied] at copying
    have removing := copy.faults_perform (.remove file.path)
    simp only [Memory.perform] at removing ⊢
    rcases removed : copy.remove file.path with ⟨cause | ⟨⟩, rest⟩ <;>
      rw [removed] at removing <;> exact removing.trans copying

private theorem faults_writeVerified (path : String) (text : Text) :
    (writeVerified tree path text).2.faults = tree.faults := by
  have writing := tree.faults_perform (.write path text)
  unfold writeVerified
  simp only [Memory.tree_write, Memory.tree_read, Memory.perform] at writing ⊢
  rcases wrote : tree.write path text with ⟨cause | ⟨⟩, next⟩ <;> rw [wrote] at writing
  · exact writing
  · dsimp only
    cases next.read path <;> exact writing

private theorem faults_move : (file.move tree).2.faults = tree.faults := by
  have writing := faults_writeVerified tree file.finalPath file.text
  unfold move
  rcases file.checkDestination tree with failure | ⟨_ | _⟩
  · rfl
  · rcases wrote : writeVerified tree file.finalPath file.text with ⟨failure | ⟨⟩, next⟩
    · rw [wrote] at writing
      cases failure with
      | readBackMismatch path => exact (next.faults_perform (.remove file.finalPath)).trans writing
      | ambiguous _ | conflict _ | tree _ _ _ | misplacedEdit => exact writing
    · rw [wrote] at writing
      exact (file.faults_finishMove next).trans writing
  · exact file.faults_finishMove tree

theorem faults_commit (changed : Bool) : (file.commit tree changed).2.faults = tree.faults := by
  have writing := faults_writeVerified tree file.path file.text
  unfold commit
  split
  · exact file.faults_move tree
  · split
    · unfold rewriteInPlace
      rcases wrote : writeVerified tree file.path file.text with ⟨failure | ⟨⟩, next⟩ <;>
        rw [wrote] at writing <;> exact writing
    · rfl

end Faults

section Frame

variable (file : SourceFile) (tree : Memory) (changed : Bool)

theorem commit_find?_other {path : String} (notOwn : path ≠ file.path)
    (notFinal : path ≠ file.finalPath) :
    (file.commit tree changed).2.files.find? path = tree.files.find? path := by
  unfold commit
  split
  · next moved =>
    rcases file.move_files tree moved with same | ⟨_, wrote⟩ | ⟨_, gone⟩ | ⟨_, both⟩
    · rw [same]
    · rw [wrote, Dict.find?_insert, if_neg notFinal]
    · rw [gone, Dict.find?_erase, if_neg notOwn]
    · rw [both, Dict.find?_erase, if_neg notOwn, Dict.find?_insert, if_neg notFinal]
  · split
    · rcases file.rewriteInPlace_files tree with same | wrote
      · rw [same]
      · rw [wrote, Dict.find?_insert, if_neg notOwn]
    · rfl

theorem commit_keeps {path : String} {text : Text} (held : tree.files.find? path = some text)
    (notOwn : path ≠ file.path) :
    (file.commit tree changed).2.files.find? path = some text := by
  by_cases final : path = file.finalPath
  · have moved : file.isMoved = true := isMoved_iff.mpr (final ▸ notOwn)
    have present : tree.files.find? file.finalPath = some text := final ▸ held
    rw [commit, if_pos moved]
    rcases file.move_files tree moved with same | ⟨absent, _⟩ | ⟨_, gone⟩ | ⟨absent, _⟩
    · rw [same, held]
    · simp [present] at absent
    · rw [gone, Dict.find?_erase, if_neg notOwn, held]
    · simp [present] at absent
  · rw [file.commit_find?_other tree changed notOwn final, held]

end Frame

section WithoutFaults

variable {file : SourceFile} {tree : Memory}

private theorem finishMove_of_calm (calm : tree.Calm) (own : tree.files.find? file.path ≠ none) :
    (file.finishMove tree).1 = .ok .moved ∧
      (file.finishMove tree).2.files = tree.files.erase file.path := by
  have copyResult := calm.copyPermissions file.path file.finalPath
  have copyFiles := tree.files_copyPermissions file.path file.finalPath
  have copyCalm := calm.perform (.copyPermissions file.path file.finalPath)
  unfold finishMove
  simp only [Memory.tree_copyPermissions, Memory.tree_remove, Memory.perform] at copyCalm ⊢
  rcases copied : tree.copyPermissions file.path file.finalPath with ⟨result, copy⟩
  rw [copied] at copyResult copyFiles copyCalm
  dsimp only at copyResult copyFiles copyCalm
  subst copyResult
  dsimp only
  obtain ⟨removeResult, removeFiles⟩ := copyCalm.remove (copyFiles ▸ own)
  rcases removed : copy.remove file.path with ⟨result, rest⟩
  rw [removed] at removeResult removeFiles
  dsimp only at removeResult removeFiles
  subst removeResult
  exact ⟨rfl, removeFiles.trans (congrArg (·.erase file.path) copyFiles)⟩

private theorem writeVerified_of_calm (calm : tree.Calm) (path : String) (text : Text) :
    (writeVerified tree path text).1 = .ok () ∧
      (writeVerified tree path text).2.files = tree.files.insert path text ∧
      (writeVerified tree path text).2.Calm := by
  obtain ⟨writeResult, writeFiles⟩ := calm.write path text
  have writeCalm := calm.perform (.write path text)
  unfold writeVerified
  simp only [Memory.tree_write, Memory.tree_read, Memory.perform] at writeCalm ⊢
  rcases wrote : tree.write path text with ⟨result, next⟩
  rw [wrote] at writeResult writeFiles writeCalm
  dsimp only at writeResult writeFiles writeCalm
  subst writeResult
  have back : next.read path = .ok text :=
    writeCalm.read_of_held (by rw [writeFiles, Dict.find?_insert, if_pos rfl])
  simp only [back, if_true]
  exact ⟨trivial, writeFiles, writeCalm⟩

theorem commit_moved_of_calm (calm : tree.Calm) (changed : Bool) (moved : file.isMoved = true)
    (own : tree.files.find? file.path ≠ none)
    (ready : tree.files.find? file.finalPath = none ∨
      tree.files.find? file.finalPath = some file.text) :
    (file.commit tree changed).1 = .ok .moved ∧
      ∀ path, (file.commit tree changed).2.files.find? path =
        if path = file.path then none
        else if path = file.finalPath then some file.text
        else tree.files.find? path := by
  rw [commit, if_pos moved]
  unfold move checkDestination
  simp only [moved, Memory.tree_holds, Memory.tree_read, Memory.tree_remove, Bool.not_true,
    Bool.false_eq_true, false_or]
  rcases ready with absent | written
  · have free : tree.files.contains file.finalPath = false := by simp [Dict.contains, absent]
    simp only [free, Bool.not_false, if_true]
    obtain ⟨writeResult, writeFiles, writeCalm⟩ :=
      writeVerified_of_calm calm file.finalPath file.text
    rcases wrote : writeVerified tree file.finalPath file.text with ⟨result, next⟩
    rw [wrote] at writeResult writeFiles writeCalm
    dsimp only at writeResult writeFiles writeCalm
    subst writeResult
    have stillOwn : next.files.find? file.path ≠ none := by
      rw [writeFiles, Dict.find?_insert, if_neg (isMoved_iff.mp moved).symm]
      exact own
    obtain ⟨result, files⟩ := finishMove_of_calm writeCalm stillOwn
    refine ⟨result, fun path => ?_⟩
    rw [files, writeFiles, Dict.find?_erase, Dict.find?_insert]
  · have held : tree.files.contains file.finalPath = true :=
      Dict.contains_iff.mpr (by simp [written])
    simp only [held, Bool.not_true, Bool.false_eq_true, if_false, calm.read_of_held written,
      if_true]
    obtain ⟨result, files⟩ := finishMove_of_calm calm own
    refine ⟨result, fun path => ?_⟩
    rw [files, Dict.find?_erase]
    by_cases final : path = file.finalPath
    · simp [final, written]
    · simp [final]

theorem commit_conflict_of_calm (calm : tree.Calm) (changed : Bool)
    (moved : file.isMoved = true) {current : Text}
    (held : tree.files.find? file.finalPath = some current) (different : current ≠ file.text) :
    ∃ detail, file.commit tree changed = (.error (.conflict detail), tree) := by
  have present : tree.files.contains file.finalPath = true :=
    Dict.contains_iff.mpr (by simp [held])
  rw [commit, if_pos moved]
  unfold move checkDestination
  simp only [moved, Memory.tree_holds, Memory.tree_read, Bool.not_true, Bool.false_eq_true,
    false_or, present, if_false, calm.read_of_held held, different]
  exact ⟨_, rfl⟩

theorem commit_rewritten_of_calm (calm : tree.Calm) (stays : file.isMoved = false) :
    (file.commit tree true).1 = .ok .rewritten ∧
      (file.commit tree true).2.files = tree.files.insert file.path file.text := by
  obtain ⟨writeResult, writeFiles, _⟩ := writeVerified_of_calm calm file.path file.text
  simp only [commit, stays, Bool.false_eq_true, if_false, if_true]
  unfold rewriteInPlace
  rcases wrote : writeVerified tree file.path file.text with ⟨result, next⟩
  rw [wrote] at writeResult writeFiles
  dsimp only at writeResult writeFiles
  subst writeResult
  exact ⟨rfl, writeFiles⟩

theorem commit_unchanged (stays : file.isMoved = false) :
    file.commit tree false = (.ok .unchanged, tree) := by
  simp [commit, stays]

end WithoutFaults

end Repackage.SourceFile
