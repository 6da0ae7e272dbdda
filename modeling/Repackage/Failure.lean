import Repackage.Token

/-!
What can go wrong with one file, and the stages at which it can.
-/

set_option autoImplicit false
set_option relaxedAutoImplicit false

namespace Repackage

/-- The stages a file passes through. -/
inductive Stage where
  | discovered
  | scanned
  | qualified
  | importsReconciled
  | relocated
  | done
  deriving DecidableEq

namespace Stage

def next : Stage → Stage
  | .discovered => .scanned
  | .scanned => .qualified
  | .qualified => .importsReconciled
  | .importsReconciled => .relocated
  | .relocated | .done => .done

def label : Stage → String
  | .discovered => "discovered"
  | .scanned => "scanned"
  | .qualified => "qualified"
  | .importsReconciled => "imports-reconciled"
  | .relocated => "relocated"
  | .done => "done"

def tag : Stage → String
  | .importsReconciled => "imports_reconciled"
  | stage => stage.label

end Stage

/-- The reasons for which an operating system refuses a file operation. -/
inductive Refusal where
  | noSuchFile
  | fileExists
  | notDirectory
  | isDirectory
  /-- The place is in use, as a directory's own name in itself always is. -/
  | busy
  deriving DecidableEq

def Refusal.message : Refusal → String
  | .noSuchFile => "No such file or directory (os error 2)"
  | .fileExists => "File exists (os error 17)"
  | .notDirectory => "Not a directory (os error 20)"
  | .isDirectory => "Is a directory (os error 21)"
  | .busy => "Device or resource busy (os error 16)"

/-- Why a tree operation failed. -/
inductive TreeError where
  /-- The tree holds no such file. -/
  | missing (path : String)
  /-- The operation was made to fail with a message. -/
  | fault (message : String)
  /-- The operating system refused the operation. -/
  | refused (reason : Refusal)
  /-- The bytes of the file are not UTF-8. -/
  | notText
  deriving DecidableEq

def TreeError.message : TreeError → String
  | .missing path => "no such file: " ++ path
  | .fault message => message
  | .refused reason => reason.message
  | .notText => "stream did not contain valid UTF-8"

/-- Why an edited text was not taken over. -/
inductive EditError where
  /-- The new text cannot be classified. -/
  | unscannable (cause : ScanError)
  /-- An edit does not fit the text. -/
  | misplaced
  deriving DecidableEq

/-- Why one file was not migrated. -/
inductive Failure where
  /-- The text cannot be classified without guessing. -/
  | ambiguous (cause : ScanError)
  /-- Two wishes exclude each other. -/
  | conflict (detail : String)
  /-- The tree failed on a path. -/
  | tree (stage : Stage) (path : String) (cause : TreeError)
  /-- A written file did not read back as written. -/
  | readBackMismatch (path : String)
  /-- An edit does not fit the text. -/
  | misplacedEdit
  deriving DecidableEq

namespace Failure

def ofEditError : EditError → Failure
  | .unscannable cause => .ambiguous cause
  | .misplaced => .misplacedEdit

def message : Failure → String
  | .ambiguous cause => "parse ambiguity: " ++ cause.message
  | .conflict detail => "conflict: " ++ detail
  | .tree stage path cause =>
    stage.label ++ ": io error on '" ++ path ++ "': " ++ cause.message
  | .readBackMismatch path => "read-back of '" ++ path ++ "' does not match the written content"
  | .misplacedEdit => "an edit lies outside the text"

end Failure

end Repackage
