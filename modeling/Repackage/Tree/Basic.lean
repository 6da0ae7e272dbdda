import Repackage.Failure

/-!
Trees of files. A tree is a value; the operations that change it give the changed tree along with
their result.
-/

set_option autoImplicit false
set_option relaxedAutoImplicit false

namespace Repackage

/-- An operation that changes a tree. -/
inductive TreeCall where
  | write (path : String) (text : Text)
  | remove (path : String)
  | createDirs (dir : String)
  | copyPermissions (source target : String)
  deriving DecidableEq

/-- The operations of a tree. Paths are relative to its root. -/
class Tree (σ : Type) where
  /-- Every file outside pruned directories, in order. -/
  walk : σ → Except TreeError (List String)
  read : σ → String → Except TreeError Text
  /-- Whether the path is a file. -/
  holds : σ → String → Bool
  /-- Replaces the content of a file. -/
  write : σ → String → Text → Except TreeError Unit × σ
  remove : σ → String → Except TreeError Unit × σ
  /-- Makes a directory and those above it. -/
  createDirs : σ → String → Except TreeError Unit × σ
  /-- Gives the second file the permissions of the first. -/
  copyPermissions : σ → String → String → Except TreeError Unit × σ

end Repackage
