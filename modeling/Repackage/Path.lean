import Repackage.Text.Basic

/-!
Tree-relative paths: components separated by slashes, with the tree's root written as the empty
path.
-/

set_option autoImplicit false
set_option relaxedAutoImplicit false

namespace Repackage.Path

/-- The components of a path that name something: neither empty nor a single dot. A backslash
separates like a slash. -/
def components (path : Text) : List Text :=
  (Text.splitOn '/' (path.map fun c => if c = '\\' then '/' else c)).filter
    fun part => part ≠ [] ∧ part ≠ ['.']

def normalize (path : String) : String :=
  String.ofList (Text.joinWith '/' (components path.toList))

def join (base relative : String) : String :=
  normalize (base ++ "/" ++ relative)

def afterLastSlash (path : Text) : Text :=
  (path.reverse.takeWhile (· ≠ '/')).reverse

def beforeLastSlash (path : Text) : Text :=
  ((path.reverse.dropWhile (· ≠ '/')).drop 1).reverse

def parent (path : String) : String :=
  String.ofList (beforeLastSlash path.toList)

def fileName (path : String) : String :=
  String.ofList (afterLastSlash path.toList)

/-- Directories that are never entered: vendored code, test fixtures, and names that start with a
dot or an underscore. -/
def isPruned (name : String) : Bool :=
  name == "vendor" || name == "testdata" ||
    name.toList.head? == some '.' || name.toList.head? == some '_'

def hasSuffix (suffix path : String) : Bool :=
  suffix.toList.reverse.isPrefixOf path.toList.reverse

end Repackage.Path
