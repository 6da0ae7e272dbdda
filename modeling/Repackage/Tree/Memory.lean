import Repackage.Dict
import Repackage.Path
import Repackage.Tree.Basic

/-!
Trees in memory. Operations can be made to fail, and the calls that change the tree are recorded
in order, failed ones included.
-/

set_option autoImplicit false
set_option relaxedAutoImplicit false

namespace Repackage

/-- The operations that are made to fail, with their messages by path. -/
structure Faults where
  walk : Option String := none
  read : Dict String := .empty
  write : Dict String := .empty
  remove : Dict String := .empty
  createDirs : Dict String := .empty
  /-- By the path that gets the permissions. -/
  copyPermissions : Dict String := .empty
  /-- Reading a file that has been written fails. -/
  readBack : Dict String := .empty
  /-- Reading a file that has been written gives its text with something added. -/
  corrupt : Dict String := .empty

/-- A tree in memory. -/
structure Memory where
  files : Dict Text := .empty
  dirs : List String := []
  faults : Faults := {}
  /-- The paths that have been written. -/
  written : List String := []
  /-- The calls that change the tree, in order. -/
  trace : List TreeCall := []

namespace Memory

def ofFiles (files : List (String × Text)) : Memory :=
  { files := Dict.ofList files }

def isHidden (path : String) : Bool :=
  (Text.splitOn '/' path.toList).dropLast.any fun dir => Path.isPruned (String.ofList dir)

def insert (tree : Memory) (path : String) (text : Text) : Memory :=
  { tree with files := tree.files.insert path text }

def restart (tree : Memory) (faults : Faults) : Memory :=
  { tree with faults := faults, written := [], trace := [] }

def record (tree : Memory) (call : TreeCall) : Memory :=
  { tree with trace := tree.trace ++ [call] }

def walk (tree : Memory) : Except TreeError (List String) :=
  match tree.faults.walk with
  | some message => .error (.fault message)
  | none => .ok (tree.files.keys.filter fun path => !isHidden path)

def read (tree : Memory) (path : String) : Except TreeError Text :=
  match tree.faults.read.find? path with
  | some message => .error (.fault message)
  | none =>
    match tree.files.find? path with
    | none => .error (.missing path)
    | some text =>
      if path ∈ tree.written then
        match tree.faults.readBack.find? path with
        | some message => .error (.fault message)
        | none =>
          match tree.faults.corrupt.find? path with
          | some suffix => .ok (text ++ suffix.toList)
          | none => .ok text
      else .ok text

def write (tree : Memory) (path : String) (text : Text) : Except TreeError Unit × Memory :=
  let tree := tree.record (.write path text)
  match tree.faults.write.find? path with
  | some message => (.error (.fault message), tree)
  | none =>
    (.ok (), { tree with files := tree.files.insert path text, written := path :: tree.written })

def remove (tree : Memory) (path : String) : Except TreeError Unit × Memory :=
  let tree := tree.record (.remove path)
  match tree.faults.remove.find? path with
  | some message => (.error (.fault message), tree)
  | none =>
    if tree.files.contains path then (.ok (), { tree with files := tree.files.erase path })
    else (.error (.missing path), tree)

def createDirs (tree : Memory) (dir : String) : Except TreeError Unit × Memory :=
  let tree := tree.record (.createDirs dir)
  match tree.faults.createDirs.find? dir with
  | some message => (.error (.fault message), tree)
  | none => (.ok (), { tree with dirs := dir :: tree.dirs })

def copyPermissions (tree : Memory) (source target : String) : Except TreeError Unit × Memory :=
  let tree := tree.record (.copyPermissions source target)
  match tree.faults.copyPermissions.find? target with
  | some message => (.error (.fault message), tree)
  | none => (.ok (), tree)

instance : Tree Memory where
  walk := walk
  read := read
  holds := fun tree path => tree.files.contains path
  write := write
  remove := remove
  createDirs := createDirs
  copyPermissions := copyPermissions

end Memory

end Repackage
