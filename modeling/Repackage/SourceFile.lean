import Repackage.Edit
import Repackage.Failure
import Repackage.Path
import Repackage.Site.Classify

/-!
A source file under edit. Its text is only ever replaced together with the spans and the package
name read from it, so these never describe another text.
-/

set_option autoImplicit false
set_option relaxedAutoImplicit false

namespace Repackage

/-- A scanned source file. -/
structure SourceFile where
  /-- Where the file was found. -/
  path : String
  /-- Where the file goes, when that has been decided. -/
  destination : Option String
  /-- The name in the package clause. -/
  package : String
  text : Text
  spans : List Span
  deriving DecidableEq

namespace SourceFile

def clauseName (spans : List Span) : Text :=
  match spans.find? (·.kind = .packageClause) with
  | none => []
  | some clause => (clause.text.reverse.takeWhile Text.isWordChar).reverse

def parse (path : String) (text : Text) : Except ScanError SourceFile :=
  (Span.scan text).map fun spans => ⟨path, none, String.ofList (clauseName spans), text, spans⟩

def withText (file : SourceFile) (text : Text) : Except ScanError SourceFile :=
  (Span.scan text).map fun spans =>
    { file with package := String.ofList (clauseName spans), text := text, spans := spans }

/-- Splices edits into the text. The flag says whether the text changed. A text that cannot be
scanned does not take the place of the file's. -/
def tryEdit (file : SourceFile) (edits : List Edit) : Except EditError Bool × SourceFile :=
  if edits = [] then (.ok false, file)
  else
    match Edit.splice file.text edits with
    | none => (.error .misplaced, file)
    | some text =>
      if text = file.text then (.ok false, file)
      else
        match file.withText text with
        | .error cause => (.error (.unscannable cause), file)
        | .ok edited => (.ok true, edited)

def succeeded {ε α : Type} (attempt : Except ε α × SourceFile) : Except ε (SourceFile × α) :=
  attempt.1.map (attempt.2, ·)

def edit (file : SourceFile) (edits : List Edit) : Except EditError (SourceFile × Bool) :=
  succeeded (file.tryEdit edits)

theorem edit_eq (file : SourceFile) (edits : List Edit) :
    file.edit edits =
      if edits = [] then .ok (file, false)
      else
        match Edit.splice file.text edits with
        | none => .error .misplaced
        | some text =>
          if text = file.text then .ok (file, false)
          else
            match file.withText text with
            | .error cause => .error (.unscannable cause)
            | .ok edited => .ok (edited, true) := by
  unfold edit tryEdit
  split
  · rfl
  · cases Edit.splice file.text edits with
    | none => rfl
    | some text =>
      dsimp only
      split
      · rfl
      · cases file.withText text <;> rfl

theorem edit_cases {file edited : SourceFile} {edits : List Edit} {changed : Bool}
    (done : file.edit edits = .ok (edited, changed)) :
    edited = file ∨ ∃ text, file.withText text = .ok edited := by
  rw [edit_eq] at done
  split at done
  · cases done
    exact .inl rfl
  · split at done
    · cases done
    · split at done
      · cases done
        exact .inl rfl
      · next text _ _ =>
        split at done
        · cases done
        · next taken =>
          cases done
          exact .inr ⟨text, taken⟩

theorem tryEdit_of_error {file : SourceFile} {edits : List Edit} {e : EditError}
    (failed : (file.tryEdit edits).1 = .error e) : (file.tryEdit edits).2 = file := by
  unfold tryEdit at failed ⊢
  split at failed
  · cases failed
  · next present =>
    rw [if_neg present]
    cases spliced : Edit.splice file.text edits with
    | none => rfl
    | some text =>
      rw [spliced] at failed
      dsimp only at failed ⊢
      split at failed
      · cases failed
      · next differs =>
        rw [if_neg differs]
        cases scanned : file.withText text with
        | error cause => rfl
        | ok edited =>
          rw [scanned] at failed
          cases failed

def sites (file : SourceFile) : List Identifier :=
  Site.classify file.spans

def clauseStop (file : SourceFile) : Nat :=
  match Span.firstOf? .packageClause file.spans with
  | none => 0
  | some clause => clause.stop

def nameRange (file : SourceFile) : Nat × Nat :=
  (file.clauseStop - Text.byteSize file.package.toList, file.clauseStop)

def finalPath (file : SourceFile) : String :=
  file.destination.getD file.path

def finalDir (file : SourceFile) : String :=
  Path.parent file.finalPath

def isMoved (file : SourceFile) : Bool :=
  file.finalPath != file.path

def isTest (file : SourceFile) : Bool :=
  Path.hasSuffix "_test.go" file.path

end SourceFile

end Repackage
