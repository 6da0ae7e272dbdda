import Repackage.Mapping.Table
import Repackage.SourceFile
import Repackage.Tree.Basic

/-!
Moving a file to its package: the package clause is rewritten in the text, and the text is then
written, read back and compared before the file's old place is given up.
-/

set_option autoImplicit false
set_option relaxedAutoImplicit false

namespace Repackage

/-- A change of the package clause. -/
structure PackageChange where
  before : String
  after : String
  deriving DecidableEq

/-- What a file's destination holds before anything is written. -/
inductive Destination where
  | free
  /-- Exactly the text that would be written there. -/
  | alreadyWritten
  deriving DecidableEq

/-- What was done to a file. -/
inductive Committed where
  | moved
  | rewritten
  | unchanged
  deriving DecidableEq

namespace SourceFile

/-- The name that the package clause of a file has in a package. Test files of an external test
package keep the suffix of its name. -/
def clauseNameFor (file : SourceFile) (package : Package) : String :=
  if file.isTest ∧ Path.hasSuffix "_test" file.package then package.name ++ "_test"
  else package.name

def renameClause (file : SourceFile) (name : String) :
    Except Failure (SourceFile × Option PackageChange) :=
  if file.package = name then .ok (file, none)
  else
    match file.edit [⟨file.nameRange.1, file.nameRange.2, name.toList⟩] with
    | .error e => .error (.ofEditError e)
    | .ok (edited, _) => .ok (edited, some ⟨file.package, name⟩)

/-- Sends a file to a destination in a package. The destination is set even if the package clause
cannot be changed. -/
def relocate (file : SourceFile) (package : Package) (destination : String) :
    Except Failure (Option PackageChange) × SourceFile :=
  let file := { file with destination := some destination }
  match file.renameClause (file.clauseNameFor package) with
  | .error e => (.error e, file)
  | .ok (renamed, change) => (.ok change, renamed)

variable {σ : Type} [Tree σ]

def checkDestination (file : SourceFile) (tree : σ) : Except Failure Destination :=
  if !file.isMoved ∨ !Tree.holds tree file.finalPath then .ok .free
  else
    match Tree.read tree file.finalPath with
    | .error cause => .error (.tree .relocated file.finalPath cause)
    | .ok current =>
      if current = file.text then .ok .alreadyWritten
      else .error (.conflict
        ("destination '" ++ file.finalPath ++ "' already exists with different content"))

def writeVerified (tree : σ) (path : String) (text : Text) : Except Failure Unit × σ :=
  match Tree.write tree path text with
  | (.error cause, tree) => (.error (.tree .relocated path cause), tree)
  | (.ok (), tree) =>
    match Tree.read tree path with
    | .error cause => (.error (.tree .relocated path cause), tree)
    | .ok back => (if back = text then .ok () else .error (.readBackMismatch path), tree)

def finishMove (file : SourceFile) (tree : σ) : Except Failure Committed × σ :=
  match Tree.copyPermissions tree file.path file.finalPath with
  | (.error cause, tree) => (.error (.tree .relocated file.finalPath cause), tree)
  | (.ok (), tree) =>
    match Tree.remove tree file.path with
    | (.error cause, tree) => (.error (.tree .relocated file.path cause), tree)
    | (.ok (), tree) => (.ok .moved, tree)

/-- Writes a file to its destination and gives up its old place. A copy that does not read back as
written is taken away again, whether or not that succeeds. -/
def move (file : SourceFile) (tree : σ) : Except Failure Committed × σ :=
  match file.checkDestination tree with
  | .error e => (.error e, tree)
  | .ok .alreadyWritten => file.finishMove tree
  | .ok .free =>
    match writeVerified tree file.finalPath file.text with
    | (.ok (), tree) => file.finishMove tree
    | (.error (.readBackMismatch path), tree) =>
      (.error (.readBackMismatch path), (Tree.remove tree file.finalPath).2)
    | (.error e, tree) => (.error e, tree)

def rewriteInPlace (file : SourceFile) (tree : σ) : Except Failure Committed × σ :=
  match writeVerified tree file.path file.text with
  | (.error e, tree) => (.error e, tree)
  | (.ok (), tree) => (.ok .rewritten, tree)

/-- Makes a tree hold a file's text at its destination. The flag says whether the text differs from
what was read. -/
def commit (file : SourceFile) (tree : σ) (changed : Bool) : Except Failure Committed × σ :=
  if file.isMoved then file.move tree
  else if changed then file.rewriteInPlace tree
  else (.ok .unchanged, tree)

end SourceFile

end Repackage
