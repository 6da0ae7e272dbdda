import Repackage.Dict
import Repackage.Failure
import Repackage.Glob.Basic
import Repackage.Mapping.Config
import Repackage.Path
import Repackage.Word

/-!
The mapping table: a mapping that has been checked. Every file and symbol belongs to a declared
package, no two entries disagree, and no two symbols of a package get the same name.
-/

set_option autoImplicit false
set_option relaxedAutoImplicit false

namespace Repackage

/-- Why a mapping cannot be used. -/
inductive ConfigError where
  | unreadable (path : String) (cause : TreeError)
  | toml
  | json
  | unsupportedFormat (path : String)
  /-- Two entries bind a symbol to different packages. -/
  | ambiguousSymbol (symbol first second : String)
  | conflictingRename (symbol first second : String)
  /-- Two symbols of a package get the same name. -/
  | exportCollision (package exported first second : String)
  | ambiguousFile (file first second : String)
  /-- One name has two directories, or one directory two names. -/
  | duplicatePackage (name first second : String)
  | unknownPackage (context package : String)
  | invalidIdentifier (name context : String)
  /-- A package has no import path and the mapping no module to make one from. -/
  | missingModule (package : String)
  | invalidGlob (glob message : String)
  deriving DecidableEq

def ConfigError.message : ConfigError → String
  | .unreadable path cause => "cannot read mapping '" ++ path ++ "': " ++ cause.message
  | .toml => "invalid TOML mapping"
  | .json => "invalid JSON mapping"
  | .unsupportedFormat path =>
    "unsupported mapping format '" ++ path ++ "': expected .toml or .json"
  | .ambiguousSymbol symbol first second =>
    "symbol '" ++ symbol ++ "' is bound to both '" ++ first ++ "' and '" ++ second ++ "'"
  | .conflictingRename symbol first second =>
    "symbol '" ++ symbol ++ "' has conflicting renames '" ++ first ++ "' and '" ++ second ++ "'"
  | .exportCollision package exported first second =>
    "symbols '" ++ first ++ "' and '" ++ second ++ "' both export as '" ++ package ++ "." ++
      exported ++ "'"
  | .ambiguousFile file first second =>
    "file '" ++ file ++ "' is assigned to both '" ++ first ++ "' and '" ++ second ++ "'"
  | .duplicatePackage name first second =>
    "package '" ++ name ++ "' is declared twice ('" ++ first ++ "' and '" ++ second ++ "')"
  | .unknownPackage context package =>
    context ++ " refers to undeclared package '" ++ package ++ "'"
  | .invalidIdentifier name context =>
    "'" ++ name ++ "' is not a valid identifier for " ++ context
  | .missingModule package =>
    "package '" ++ package ++ "' needs an import path but the mapping has no `module`"
  | .invalidGlob glob message => "invalid exclude glob '" ++ glob ++ "': " ++ message

/-- A package of the table. -/
structure Package where
  name : String
  /-- Relative to the tree's root. -/
  dir : String
  importPath : String
  deriving DecidableEq

/-- A symbol of the table. -/
structure Symbol where
  name : String
  /-- The name of the package that the symbol belongs to. -/
  package : String
  /-- The name of the symbol in that package. -/
  exported : String
  deriving DecidableEq

def Symbol.isRenamed (symbol : Symbol) : Bool :=
  symbol.name != symbol.exported

def Symbol.precedes (a b : Symbol) : Bool :=
  b.name.utf8ByteSize < a.name.utf8ByteSize ||
    (a.name.utf8ByteSize == b.name.utf8ByteSize && a.name ≤ b.name)

/-- A checked mapping. -/
structure Table where
  /-- The import path of the tree's root. -/
  modulePath : String
  /-- The packages by name. -/
  packages : Dict Package
  /-- The package names of files by path. -/
  files : Dict String
  /-- The symbols, each once, in order of precedence. -/
  symbols : List Symbol
  excludes : List Glob
  includeTests : Bool

namespace Table

def trimModule (modulePath : String) : String :=
  String.ofList ((Text.trim modulePath.toList).reverse.dropWhile (· = '/')).reverse

/-- The package of an entry. Its name is the last element of its directory and its import path the
directory below the module, unless they are given. -/
def resolvePackage (modulePath : String) (entry : PackageEntry) : Except ConfigError Package :=
  let dir := Path.normalize entry.dir
  let name := entry.name.getD (Path.fileName dir)
  if !Word.isIdentifier name.toList then
    .error (.invalidIdentifier name ("package in '" ++ dir ++ "'"))
  else
    match entry.importPath with
    | some importPath => .ok ⟨name, dir, importPath⟩
    | none =>
      if modulePath = "" then .error (.missingModule name)
      else if dir = "" then .ok ⟨name, dir, modulePath⟩
      else .ok ⟨name, dir, modulePath ++ "/" ++ dir⟩

/-- What a package entry adds, with the package of a name and the name of the package in a directory
looked up among those before it. An entry for a package that is there already adds nothing. -/
def newPackage (modulePath : String) (named? : String → Option Package)
    (placed? : String → Option String) (entry : PackageEntry) :
    Except ConfigError (Option Package) :=
  match resolvePackage modulePath entry with
  | .error e => .error e
  | .ok package =>
    match named? package.name with
    | some first =>
      if first.dir = package.dir then .ok none
      else .error (.duplicatePackage package.name first.dir package.dir)
    | none =>
      match placed? package.dir with
      | some other => .error (.duplicatePackage package.dir other package.name)
      | none => .ok (some package)

def addPackage (modulePath : String) (packages : Dict Package) (entry : PackageEntry) :
    Except ConfigError (Dict Package) :=
  let placed? := fun dir => (packages.values.find? (·.dir = dir)).map (·.name)
  (newPackage modulePath packages.find? placed? entry).map fun new =>
    new.elim packages fun package => packages.insert package.name package

def addFile (source : String) (packages : Dict Package) (files : Dict String)
    (entry : FileEntry) : Except ConfigError (Dict String) :=
  let path := Path.join source entry.path
  if !packages.contains entry.package then
    .error (.unknownPackage ("file '" ++ path ++ "'") entry.package)
  else
    match files.find? path with
    | some first =>
      if first = entry.package then .ok files
      else .error (.ambiguousFile path first entry.package)
    | none => .ok (files.insert path entry.package)

def newSymbol (packages : Dict Package) (named? : String → Option Symbol) (entry : SymbolEntry) :
    Except ConfigError (Option Symbol) :=
  let exported := entry.rename.getD entry.name
  if !Word.isIdentifier entry.name.toList then
    .error (.invalidIdentifier entry.name "symbol")
  else if !packages.contains entry.package then
    .error (.unknownPackage ("symbol '" ++ entry.name ++ "'") entry.package)
  else if !Word.isIdentifier exported.toList then
    .error (.invalidIdentifier exported ("rename of '" ++ entry.name ++ "'"))
  else
    match named? entry.name with
    | some first =>
      if first.package ≠ entry.package then
        .error (.ambiguousSymbol entry.name first.package entry.package)
      else if first.exported ≠ exported then
        .error (.conflictingRename entry.name first.exported exported)
      else .ok none
    | none => .ok (some ⟨entry.name, entry.package, exported⟩)

def addSymbol (packages : Dict Package) (symbols : List Symbol) (entry : SymbolEntry) :
    Except ConfigError (List Symbol) :=
  (newSymbol packages (fun name => symbols.find? (·.name = name)) entry).map fun new =>
    symbols ++ new.toList

def checkExports (seen : List Symbol) : List Symbol → Except ConfigError Unit
  | [] => .ok ()
  | symbol :: rest =>
    match seen.find? fun other =>
      other.package = symbol.package ∧ other.exported = symbol.exported with
    | some first =>
      .error (.exportCollision symbol.package symbol.exported first.name symbol.name)
    | none => checkExports (seen ++ [symbol]) rest

def readGlobs : List String → Except ConfigError (List Glob)
  | [] => .ok []
  | text :: texts =>
    match Glob.parse text.toList with
    | .error problem => .error (.invalidGlob text (problem.messageAbout text))
    | .ok glob => (readGlobs texts).map (glob :: ·)

def load (config : Config) : Except ConfigError Table := do
  let modulePath := trimModule config.modulePath
  let packages ← config.packages.foldlM (addPackage modulePath) Dict.empty
  let files ← config.files.foldlM (addFile config.source packages) Dict.empty
  let unordered ← config.symbols.foldlM (addSymbol packages) []
  let symbols := unordered.mergeSort Symbol.precedes
  checkExports [] symbols
  let excludes ← readGlobs config.exclude
  return ⟨modulePath, packages, files, symbols, excludes, config.includeTests⟩

def symbol? (table : Table) (name : String) : Option Symbol :=
  table.symbols.find? (·.name = name)

def package? (table : Table) (name : String) : Option Package :=
  table.packages.find? name

def packageOfSymbol? (table : Table) (name : String) : Option Package :=
  (table.symbol? name).bind fun symbol => table.package? symbol.package

def packageOfFile? (table : Table) (path : String) : Option Package :=
  (table.files.find? (Path.normalize path)).bind table.package?

def packageOfDir? (table : Table) (dir : String) : Option Package :=
  table.packages.values.find? (·.dir = Path.normalize dir)

def packageOfImport? (table : Table) (importPath : String) : Option Package :=
  table.packages.values.find? (·.importPath = importPath)

def exports (table : Table) (package name : String) : Bool :=
  table.symbols.any fun symbol => symbol.package = package ∧ symbol.exported = name

def isExcluded (table : Table) (path : String) : Bool :=
  table.excludes.any (·.accepts path)

def isEmpty (table : Table) : Bool :=
  table.symbols.isEmpty && table.files.entries.isEmpty

end Table

end Repackage
