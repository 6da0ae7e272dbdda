import Repackage.Dict
import Repackage.Import.Layout

/-!
Adding imports to a source file. New imports go into the first import group; without one, the
first single import becomes a group, and without any import a group is put after the package
clause. Nothing that is there already is moved.
-/

set_option autoImplicit false
set_option relaxedAutoImplicit false

namespace Repackage.SourceFile

def importLines (specs : List Import) : Text :=
  specs.flatMap fun spec => '\t' :: spec.render ++ ['\n']

def missingImports (present : List String) (required : List Import) : List Import :=
  (required.foldl
    (fun missing spec =>
      if spec.path ∈ present then missing else missing.insertNew spec.path spec)
    Dict.empty).values

/-- The edit that adds imports inside a group with the given parentheses. They go on lines of their
own after the last import of the group, with an empty line in between where imports of the standard
library end, or before the closing parenthesis of an empty group. -/
def extendGroup (text : Text) (specs : List PlacedImport) (start stop : Nat)
    (added : List Import) : Option Edit :=
  let lines := importLines added
  match (specs.filter fun placed => placed.start > start && placed.stop < stop).getLast? with
  | some last =>
    let gap : Text :=
      if Import.isStandard last.spec.path && added.all (fun spec => !Import.isStandard spec.path)
      then ['\n'] else []
    match Text.slice? text last.stop stop with
    | none => none
    | some tail =>
      if tail.contains '\n' then
        let line := tail.takeWhile (· ≠ '\n')
        some (.insertAt (last.stop + Text.byteSize line + 1) (gap ++ lines))
      else some (.insertAt last.stop ('\n' :: gap ++ lines))
  | none =>
    match Text.cut? stop text with
    | none => none
    | some (before, _) =>
      let newline : Text := if before.getLast? = some '\n' then [] else ['\n']
      some (.insertAt stop (newline ++ lines))

def promoteSingle (text : Text) (first : PlacedImport) (blockStart : Nat) (added : List Import) :
    Option Edit :=
  (Text.slice? text first.start first.stop).map fun spec =>
    ⟨blockStart, first.stop,
      "import (\n\t".toList ++ spec ++ '\n' :: importLines added ++ [')']⟩

def newGroup (clauseStop : Nat) (added : List Import) : Edit :=
  .insertAt clauseStop ("\n\nimport (\n".toList ++ importLines added ++ [')'])

/-- The edit that adds imports to a file with the given layout. None is made for a layout without
imports; none is found where an import does not lie in the text. -/
def importEdit? (file : SourceFile) (layout : Option ImportLayout) (added : List Import) :
    Option (Option Edit) :=
  match layout with
  | none => some (some (newGroup file.clauseStop added))
  | some ⟨specs, some (start, stop)⟩ => (extendGroup file.text specs start stop added).map some
  | some ⟨[], none⟩ => some none
  | some ⟨first :: _, none⟩ =>
    let blockStart :=
      match Span.firstOf? .importBlock file.spans with
      | some block => block.start
      | none => first.start
    (promoteSingle file.text first blockStart added).map some

def tryReconcile (file : SourceFile) (required : List Import) :
    Except Failure (List Import) × SourceFile :=
  match ImportLayout.ofFile file with
  | .error cause => (.error (.ambiguous cause), file)
  | .ok layout =>
    let present := layout.elim [] fun layout => layout.specs.map (·.spec.path)
    let added := missingImports present required
    if added = [] then (.ok [], file)
    else
      match file.importEdit? layout added with
      | none => (.error .misplacedEdit, file)
      | some none => (.ok [], file)
      | some (some edit) =>
        match file.tryEdit [edit] with
        | (.error e, left) => (.error (.ofEditError e), left)
        | (.ok _, edited) => (.ok added, edited)

def reconcile (file : SourceFile) (required : List Import) :
    Except Failure (SourceFile × List Import) :=
  succeeded (file.tryReconcile required)

theorem reconcile_eq (file : SourceFile) (required : List Import) :
    file.reconcile required =
      match ImportLayout.ofFile file with
      | .error cause => .error (.ambiguous cause)
      | .ok layout =>
        let present := layout.elim [] fun layout => layout.specs.map (·.spec.path)
        let added := missingImports present required
        if added = [] then .ok (file, [])
        else
          match file.importEdit? layout added with
          | none => .error .misplacedEdit
          | some none => .ok (file, [])
          | some (some edit) =>
            match file.edit [edit] with
            | .error e => .error (.ofEditError e)
            | .ok (edited, _) => .ok (edited, added) := by
  unfold reconcile tryReconcile
  cases ImportLayout.ofFile file with
  | error cause => rfl
  | ok layout =>
    dsimp only
    split
    · rfl
    · cases file.importEdit? layout _ with
      | none => rfl
      | some found =>
        cases found with
        | none => rfl
        | some edit =>
          unfold SourceFile.edit
          dsimp only
          cases file.tryEdit [edit] with
          | mk result left => cases result <;> rfl

theorem tryReconcile_of_error {file : SourceFile} {required : List Import} {failure : Failure}
    (failed : (file.tryReconcile required).1 = .error failure) :
    (file.tryReconcile required).2 = file := by
  unfold tryReconcile at failed ⊢
  cases read : ImportLayout.ofFile file with
  | error cause => rfl
  | ok layout =>
    rw [read] at failed
    dsimp only at failed ⊢
    split at failed
    · cases failed
    · next missing =>
      rw [if_neg missing]
      cases found : file.importEdit? layout _ with
      | none => rfl
      | some place =>
        rw [found] at failed
        cases place with
        | none => cases failed
        | some edit =>
          have kept := @tryEdit_of_error file [edit]
          dsimp only at failed ⊢
          generalize file.tryEdit [edit] = attempt at failed kept
          obtain ⟨result, left⟩ := attempt
          cases result with
          | error e => exact kept rfl
          | ok changed => cases failed

theorem reconcile_cases {file reconciled : SourceFile} {required added : List Import}
    (done : file.reconcile required = .ok (reconciled, added)) :
    reconciled = file ∨ ∃ edit changed, file.edit [edit] = .ok (reconciled, changed) := by
  rw [reconcile_eq] at done
  split at done
  · cases done
  · dsimp only at done
    split at done
    · cases done
      exact .inl rfl
    · split at done
      · cases done
      · cases done
        exact .inl rfl
      · split at done
        · cases done
        · next spliced =>
          cases done
          exact .inr ⟨_, _, spliced⟩

end Repackage.SourceFile
