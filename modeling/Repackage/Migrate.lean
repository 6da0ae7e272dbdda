import Repackage.Run
import Repackage.Tree.Disk

/-!
Runs on a file system: a mapping is read from a file or given, and applied to the tree below a
directory.
-/

set_option autoImplicit false
set_option relaxedAutoImplicit false

namespace Repackage

def migrate (config : Config) (options : RunOptions) (root : String) (disk : Disk) :
    Except RunError Report × Disk :=
  match Table.load config with
  | .error cause => (.error (.config cause), disk)
  | .ok table =>
    match DiskTree.open? disk root with
    | none => (.error (.root root), disk)
    | some tree =>
      let (result, tree) := run table options tree
      (result, tree.disk)

def Path.extension? (path : String) : Option String :=
  let parts := (Text.splitOn '/' path.toList).filter fun part => part ≠ [] ∧ part ≠ ['.']
  match parts.getLast? with
  | none => none
  | some name =>
    let reversed := name.reverse
    match reversed.dropWhile (· ≠ '.') with
    | _ :: _ :: _ =>
      if name = ['.', '.'] then none
      else some (String.ofList (reversed.takeWhile (· ≠ '.')).reverse)
    | _ => none

def Config.ofFile (disk : Disk) (path : String) : Except ConfigError Config :=
  match disk.read path with
  | .error cause => .error (.unreadable path cause)
  | .ok text =>
    match Path.extension? path with
    | some "toml" => (Config.ofToml? text).elim (.error .toml) .ok
    | some "json" => (Config.ofJson? text).elim (.error .json) .ok
    | _ => .error (.unsupportedFormat path)

end Repackage
