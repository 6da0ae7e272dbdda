import Repackage.Data.Toml

/-!
The mapping as it is written: packages with their directories, files with the packages they go to,
and symbols with the packages they belong to. It is read from JSON or TOML.
-/

set_option autoImplicit false
set_option relaxedAutoImplicit false

namespace Repackage

/-- A package: its directory, and its name and import path where they are not the usual ones. -/
structure PackageEntry where
  name : Option String
  dir : String
  importPath : Option String
  deriving DecidableEq

/-- A file and the name of the package that it goes to. -/
structure FileEntry where
  path : String
  package : String
  deriving DecidableEq

/-- A symbol, the name of its package, and the name it has there if that is another one. -/
structure SymbolEntry where
  name : String
  package : String
  rename : Option String
  deriving DecidableEq

/-- A mapping as it is written. -/
structure Config where
  /-- The import path of the tree's root. -/
  modulePath : String := ""
  /-- The directory below which file paths are given. -/
  source : String := ""
  /-- Globs of paths that are left out. -/
  exclude : List String := []
  includeTests : Bool := true
  packages : List PackageEntry := []
  files : List FileEntry := []
  symbols : List SymbolEntry := []
  deriving DecidableEq

namespace Config

def required (field : Option Data) : Option String :=
  field.bind Data.string?

def optional : Option Data → Option (Option String)
  | none => some none
  | some .null => some none
  | some data => data.string?.map some

def defaulting {α : Type} (read : Data → Option α) (absent : α) : Option Data → Option α
  | none => some absent
  | some data => read data

def listOf {α : Type} (read : Data → Option α) (data : Data) : Option (List α) :=
  data.array?.bind fun items => items.mapM read

def package? (surplus : Bool) (data : Data) : Option PackageEntry := do
  match ← data.record? surplus ["name", "dir", "import_path"] with
  | [name, dir, importPath] => return ⟨← optional name, ← required dir, ← optional importPath⟩
  | _ => none

def file? (surplus : Bool) (data : Data) : Option FileEntry := do
  match ← data.record? surplus ["path", "package"] with
  | [path, package] => return ⟨← required path, ← required package⟩
  | _ => none

def symbol? (surplus : Bool) (data : Data) : Option SymbolEntry := do
  match ← data.record? surplus ["name", "package", "rename"] with
  | [name, package, rename] => return ⟨← required name, ← required package, ← optional rename⟩
  | _ => none

def ofData? (surplus : Bool) (data : Data) : Option Config := do
  let names := ["module", "source", "exclude", "include_tests", "packages", "files", "symbols"]
  match ← data.record? surplus names with
  | [modulePath, source, exclude, includeTests, packages, files, symbols] =>
    return {
      modulePath := ← defaulting Data.string? "" modulePath
      source := ← defaulting Data.string? "" source
      exclude := ← defaulting (listOf Data.string?) [] exclude
      includeTests := ← defaulting Data.bool? true includeTests
      packages := ← defaulting (listOf (package? surplus)) [] packages
      files := ← defaulting (listOf (file? surplus)) [] files
      symbols := ← defaulting (listOf (symbol? surplus)) [] symbols }
  | _ => none

def ofJson? (text : Text) : Option Config :=
  (Data.Json.parse? text).bind (ofData? false)

def ofToml? (text : Text) : Option Config :=
  ((Data.Toml.parse? text).bind Data.Toml.document?).bind (ofData? true)

end Config

end Repackage
