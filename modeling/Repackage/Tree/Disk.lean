import Repackage.Dict
import Repackage.Path
import Repackage.Tree.Basic

/-!
File systems as values, with the refusals of a Unix kernel, and the tree below a directory of one.
-/

set_option autoImplicit false
set_option relaxedAutoImplicit false

namespace Repackage

/-- An entry of a file system. -/
inductive DiskNode where
  | file (bytes : ByteArray) (mode : Nat)
  | dir (mode : Nat)

/-- A file system: its entries by canonical path. The top directory has the empty path and is always
there. The operations that changed it are recorded in order. -/
structure Disk where
  nodes : Dict DiskNode := .empty
  /-- The canonical components of the working directory. -/
  workingDir : List String := []
  journal : List TreeCall := []

namespace Disk

def dirMode : Nat := 0o755

def newFileMode : Nat := 0o600

def components (path : String) : List String :=
  let parts := ((Text.splitOn '/' path.toList).filter (· ≠ [])).map String.ofList
  if path.toList.getLast? = some '/' then parts ++ ["."] else parts

def canonical (parts : List String) : String :=
  "/".intercalate parts

def node? (disk : Disk) : List String → Option DiskNode
  | [] => some (.dir dirMode)
  | parts => disk.nodes.find? (canonical parts)

def enter (here : List String) (part : String) : List String :=
  if part = "." then here else if part = ".." then here.dropLast else here ++ [part]

/-- Follows components from a place. Everything that is entered must be a directory; what the last
component names need not exist. -/
def follow (disk : Disk) (here : List String) : List String → Except Refusal (List String)
  | [] => .ok here
  | part :: parts =>
    match disk.node? here with
    | none => .error .noSuchFile
    | some (.file _ _) => .error .notDirectory
    | some (.dir _) => follow disk (enter here part) parts

def start (disk : Disk) (path : String) : List String :=
  if path.toList.head? = some '/' then [] else disk.workingDir

def resolve (disk : Disk) (path : String) : Except Refusal (List String) :=
  if path = "" then .error .noSuchFile else follow disk (disk.start path) (components path)

def stat (disk : Disk) (path : String) : Except Refusal (List String × DiskNode) :=
  match disk.resolve path with
  | .error refusal => .error refusal
  | .ok parts =>
    match disk.node? parts with
    | none => .error .noSuchFile
    | some node => .ok (parts, node)

def isDir (disk : Disk) (path : String) : Bool :=
  match disk.stat path with
  | .ok (_, .dir _) => true
  | _ => false

def isFile (disk : Disk) (path : String) : Bool :=
  match disk.stat path with
  | .ok (_, .file _ _) => true
  | _ => false

def put (disk : Disk) (parts : List String) (node : DiskNode) : Disk :=
  if parts = [] then disk else { disk with nodes := disk.nodes.insert (canonical parts) node }

def record (disk : Disk) (call : TreeCall) : Disk :=
  { disk with journal := disk.journal ++ [call] }

def read (disk : Disk) (path : String) : Except TreeError Text :=
  match disk.stat path with
  | .error refusal => .error (.refused refusal)
  | .ok (_, .dir _) => .error (.refused .isDirectory)
  | .ok (_, .file bytes _) =>
    match String.fromUTF8? bytes with
    | none => .error .notText
    | some text => .ok text.toList

/-- Replaces the text of a file in one step. The directory must exist; an existing file keeps its
permissions. One or two dots name no place where a file could be put. -/
def write (disk : Disk) (path : String) (text : Text) : Except Refusal Disk :=
  match (components path).getLast? with
  | none => .error .isDirectory
  | some name =>
    match disk.follow (disk.start path) ((components path).dropLast ++ ["."]) with
    | .error refusal => .error refusal
    | .ok dir =>
      if name = "." ∨ name = ".." then .error .busy
      else
        let bytes := (String.ofList text).toUTF8
        let parts := dir ++ [name]
        match disk.node? parts with
        | some (.dir _) => .error .isDirectory
        | some (.file _ mode) =>
          .ok ((disk.put parts (.file bytes mode)).record (.write path text))
        | none => .ok ((disk.put parts (.file bytes newFileMode)).record (.write path text))

def remove (disk : Disk) (path : String) : Except Refusal Disk :=
  match disk.stat path with
  | .error refusal => .error refusal
  | .ok (_, .dir _) => .error .isDirectory
  | .ok (parts, .file _ _) =>
    .ok ({ disk with nodes := disk.nodes.erase (canonical parts) }.record (.remove path))

def makeDirs (disk : Disk) (here : List String) : List String → Except Refusal Disk
  | [] => .ok disk
  | part :: parts =>
    let next := enter here part
    match disk.node? next with
    | some (.dir _) => makeDirs disk next parts
    | some (.file _ _) => .error (if parts = [] then .fileExists else .notDirectory)
    | none => makeDirs (disk.put next (.dir dirMode)) next parts

def createDirs (disk : Disk) (path : String) : Except Refusal Disk :=
  (makeDirs disk (disk.start path) (components path)).map (·.record (.createDirs path))

def setMode (disk : Disk) (parts : List String) (node : DiskNode) (mode : Nat) : Disk :=
  match node with
  | .file bytes _ => disk.put parts (.file bytes mode)
  | .dir _ => disk.put parts (.dir mode)

def copyPermissions (disk : Disk) (source target : String) : Except Refusal Disk :=
  match disk.stat source with
  | .error refusal => .error refusal
  | .ok (_, sourceNode) =>
    match disk.stat target with
    | .error refusal => .error refusal
    | .ok (parts, node) =>
      let mode :=
        match sourceNode with
        | .file _ mode => mode
        | .dir mode => mode
      .ok ((disk.setMode parts node mode).record (.copyPermissions source target))

end Disk

/-- The tree below a directory of a file system. -/
structure DiskTree where
  disk : Disk
  root : String

namespace DiskTree

def open? (disk : Disk) (root : String) : Option DiskTree :=
  if disk.isDir root then some ⟨disk, root⟩ else none

def absolute (tree : DiskTree) (path : String) : String :=
  match ((Text.splitOn '/' path.toList).filter (· ≠ [])).map String.ofList with
  | [] => tree.root
  | parts =>
    if tree.root.toList.getLast? = some '/' then tree.root ++ Disk.canonical parts
    else tree.root ++ "/" ++ Disk.canonical parts

def relative? (top : List String) (path : String) : DiskNode → Option String
  | .dir _ => none
  | .file _ _ =>
    let parts := Disk.components path
    if top.isPrefixOf parts then
      let below := parts.drop top.length
      if below.dropLast.any Path.isPruned then none else some (Disk.canonical below)
    else none

def walk (tree : DiskTree) : Except TreeError (List String) :=
  match tree.disk.resolve tree.root with
  | .error refusal => .error (.refused refusal)
  | .ok top => .ok (tree.disk.nodes.entries.filterMap fun (path, node) => relative? top path node)

def attempt (tree : DiskTree) : Except Refusal Disk → Except TreeError Unit × DiskTree
  | .error refusal => (.error (.refused refusal), tree)
  | .ok disk => (.ok (), { tree with disk := disk })

instance : Tree DiskTree where
  walk := walk
  read := fun tree path => tree.disk.read (tree.absolute path)
  holds := fun tree path => tree.disk.isFile (tree.absolute path)
  write := fun tree path text => tree.attempt (tree.disk.write (tree.absolute path) text)
  remove := fun tree path => tree.attempt (tree.disk.remove (tree.absolute path))
  createDirs := fun tree dir => tree.attempt (tree.disk.createDirs (tree.absolute dir))
  copyPermissions := fun tree source target =>
    tree.attempt (tree.disk.copyPermissions (tree.absolute source) (tree.absolute target))

end DiskTree

end Repackage
