import Repackage.Command.Arguments
import Repackage.Command.Listing
import Repackage.Data.Json
import Repackage.Migrate
import Repackage.Report.Render

/-!
The command line as a function on a file system. The exit code is zero for success, with or without
warnings, one for a partial failure or a file that cannot be classified, and two where the mapping,
the tree or the arguments cannot be used.
-/

set_option autoImplicit false
set_option relaxedAutoImplicit false

namespace Repackage

/-- What a command leaves behind besides the file system. -/
structure CommandResult where
  code : Nat := 0
  output : String := ""
  errors : String := ""
  deriving DecidableEq

namespace Invocation

def unlines (lines : List String) : String :=
  String.join (lines.map (· ++ "\n"))

def failWith (invocation : Invocation) (code : Nat) (message : String) : CommandResult :=
  let errors :=
    match invocation.format with
    | .text => message
    | .json => Data.Json.compact (.object [("error", .string message)])
  { code := code, errors := if invocation.quiet then "" else unlines [errors] }

def present (invocation : Invocation) (code : Nat) (lines : List String) (data : Data) :
    CommandResult :=
  match invocation.format with
  | .json => { code := code, output := unlines [Data.Json.pretty data] }
  | .text => { code := code, output := if invocation.quiet then "" else unlines lines }

def loadMapping (disk : Disk) (path : String) : Except String (Config × Table) :=
  match Config.ofFile disk path with
  | .error cause => .error ("error: " ++ cause.message)
  | .ok config =>
    match Table.load config with
    | .error cause => .error ("error: invalid mapping '" ++ path ++ "': " ++ cause.message)
    | .ok table => .ok (config, table)

def check (invocation : Invocation) (disk : Disk) (mapping : String) : CommandResult :=
  match loadMapping disk mapping with
  | .error message => invocation.failWith 2 message
  | .ok (config, table) => invocation.present 0 table.lines (table.toData config.exclude)

def scan (invocation : Invocation) (disk : Disk) (path : String) : CommandResult :=
  match disk.read path with
  | .error cause =>
    invocation.failWith 2 ("error reading file '" ++ path ++ "': " ++ cause.message)
  | .ok text =>
    match SourceFile.parse path text with
    | .error cause =>
      invocation.failWith 1 ("parse ambiguity in '" ++ path ++ "': " ++ cause.message)
    | .ok file => invocation.present 0 file.lines file.toData

/-- Runs a mapping file over the tree below a directory. Of all the schedules of its workers this is
the one that takes the files one after another. -/
def migrate (invocation : Invocation) (disk : Disk) (root mapping : String)
    (options : PoolOptions) : CommandResult × Disk :=
  match loadMapping disk mapping with
  | .error message => (invocation.failWith 2 message, disk)
  | .ok (_, table) =>
    match DiskTree.open? disk root with
    | none =>
      (invocation.failWith 2 ("error: " ++ (RunError.root root).message), disk)
    | some tree =>
      match run table options.toRunOptions tree with
      | (.error e, tree) => (invocation.failWith 2 ("error: " ++ e.message), tree.disk)
      | (.ok report, tree) =>
        let code := if report.status = .partialFailure then 1 else 0
        (invocation.present code report.lines report.toData, tree.disk)

def execute (invocation : Invocation) (disk : Disk) : CommandResult × Disk :=
  match invocation.command with
  | .version => ({ output := unlines ["pkgsplit 0.1.0"] }, disk)
  | .check mapping => (invocation.check disk mapping, disk)
  | .scan file => (invocation.scan disk file, disk)
  | .migrate root mapping options => invocation.migrate disk root mapping options

end Invocation

def runCommand (arguments : List String) (disk : Disk) : CommandResult × Disk :=
  match Invocation.parse? arguments with
  | none => ({ code := 2, errors := Invocation.unlines ["error: invalid arguments"] }, disk)
  | some invocation => invocation.execute disk

end Repackage
