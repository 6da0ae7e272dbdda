import Repackage.Command.Execute

/-!
The program. It takes the part of the real file system that a command looks at into a value, carries
the command out on that value, and then repeats on the real file system what was done to it.
-/

set_option autoImplicit false
set_option relaxedAutoImplicit false

namespace Repackage

def Command.files : Command → List String
  | .version => []
  | .migrate _ mapping _ => [mapping]
  | .check mapping => [mapping]
  | .scan file => [file]

def Command.trees : Command → List String
  | .migrate root _ _ => [root]
  | _ => []

namespace Disk

def captureEntry (disk : Disk) (path : String) (parts : List String) : IO Disk := do
  let place := (← IO.currentDir) / path
  if ← place.isDir then
    return disk.put parts (.dir dirMode)
  else if ← place.pathExists then
    return disk.put parts (.file (← IO.FS.readBinFile place) newFileMode)
  else
    return disk

/-- Takes a real path and everything below it, except what is reached only through links. -/
partial def captureTree (disk : Disk) (path : String) (parts : List String) : IO Disk := do
  let mut disk ← disk.captureEntry path parts
  let place := (← IO.currentDir) / path
  if ← place.isDir then
    for entry in ← place.readDir do
      let metadata ← entry.path.symlinkMetadata
      if metadata.type == .dir || metadata.type == .file then
        disk ← disk.captureTree (path ++ "/" ++ entry.fileName) (parts ++ [entry.fileName])
  return disk

/-- Takes the entries along components from a real path. What the last component names is taken by
the given action. -/
def captureAlong (take : Disk → String → List String → IO Disk) (disk : Disk) (path : String)
    (here : List String) : List String → IO Disk
  | [] => take disk path here
  | part :: parts => do
    let disk ← disk.captureEntry path here
    captureAlong take disk (path ++ "/" ++ part) (enter here part) parts

def capture (take : Disk → String → List String → IO Disk) (disk : Disk) (path : String) :
    IO Disk :=
  let top := if path.toList.head? = some '/' then "/" else "."
  captureAlong take disk top (disk.start path) (components path)

def ofCommand (command : Command) : IO Disk := do
  let workingDir := (← IO.currentDir).components.filter (· ≠ "")
  let mut disk : Disk := { workingDir := workingDir }
  for length in List.range workingDir.length do
    disk := disk.put (workingDir.take (length + 1)) (.dir dirMode)
  for path in command.files do
    disk ← disk.capture captureEntry path
  for path in command.trees do
    disk ← disk.capture captureTree path
  return disk

end Disk

/-- Repeats an operation on the real file system. A file's permissions stay with its entry, so they
are handed on by giving the entry of the first file the second name; both texts are kept. -/
def TreeCall.perform : TreeCall → IO Unit
  | .write path text => IO.FS.writeFile path (String.ofList text)
  | .remove path => IO.FS.removeFile path
  | .createDirs dir => IO.FS.createDirAll dir
  | .copyPermissions source target => do
    let sourceBytes ← IO.FS.readBinFile source
    let targetBytes ← IO.FS.readBinFile target
    IO.FS.rename source target
    IO.FS.writeBinFile target targetBytes
    IO.FS.writeBinFile source sourceBytes

end Repackage

def main (arguments : List String) : IO UInt32 := do
  try
    let disk ←
      match Repackage.Invocation.parse? arguments with
      | none => pure {}
      | some invocation => Repackage.Disk.ofCommand invocation.command
    let (result, disk) := Repackage.runCommand arguments disk
    for call in disk.journal do
      call.perform
    IO.print result.output
    IO.eprint result.errors
    return result.code.toUInt32
  catch failure =>
    IO.eprintln ("error: " ++ toString failure)
    return 2
