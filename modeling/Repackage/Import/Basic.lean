import Repackage.Word

/-!
Imports and the names they bind.
-/

set_option autoImplicit false
set_option relaxedAutoImplicit false

namespace Repackage

/-- An import: the path of a package and, if it is written, the name that stands for it. -/
structure Import where
  name : Option String
  path : String
  deriving DecidableEq

namespace Import

def isMajorVersion : Text → Bool
  | 'v' :: digits => !digits.isEmpty && digits.all Char.isDigit
  | _ => false

def splitVersion : Text → Option (Text × Text)
  | [] => none
  | c :: cs =>
    if c = 'v' ∧ cs.head? = some '.' then some ([], cs.tail)
    else (splitVersion cs).map fun parts => (c :: parts.1, parts.2)

def dropVersion (element : Text) : Text :=
  match splitVersion element.reverse with
  | some (digits, head) =>
    if !head.isEmpty && digits.all Char.isDigit then head.reverse else element
  | none => element

/-- The conventional package name of a path: its last element, or the one before a major version,
without a version suffix. -/
def defaultNameOf (path : Text) : Text :=
  match (Text.splitOn '/' path).reverse with
  | last :: previous :: _ => dropVersion (if isMajorVersion last then previous else last)
  | [last] => dropVersion last
  | [] => []

def defaultName (path : String) : String :=
  String.ofList (defaultNameOf path.toList)

/-- The name that the import binds, guessed from the path when none is written. Dot imports and
blank imports bind none. -/
def localName (spec : Import) : Option String :=
  match spec.name with
  | none => some (defaultName spec.path)
  | some name => if name = "." ∨ name = "_" then none else some name

def isStandard (path : String) : Bool :=
  !(path.toList.takeWhile (· ≠ '/')).contains '.'

def render (spec : Import) : Text :=
  let path := '"' :: spec.path.toList ++ ['"']
  match spec.name with
  | none => path
  | some name => name.toList ++ ' ' :: path

end Import

end Repackage
