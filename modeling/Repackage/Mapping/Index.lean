import Mathlib.Data.List.Sort
import Repackage.Mapping.Table

/-!
The mapping table as it is kept in memory, with a map for every question that is asked of it. The
maps are filled while the mapping is read, and what they are asked for while they are filled must be
there. Globs are those of a library, which reads them one by one and then builds a set of them; each
of the two can fail.
-/

set_option autoImplicit false
set_option relaxedAutoImplicit false

namespace Repackage

/-- A library for path globs. Where it fails it says why. -/
structure GlobLibrary where
  /-- A glob that has been read. -/
  Parsed : Type
  /-- Globs that are matched together. -/
  Set : Type
  read : String → Except String Parsed
  build : List Parsed → Except String Set
  isMatch : Set → String → Bool

def GlobLibrary.readAll (library : GlobLibrary) (texts : List String) :
    Except ConfigError library.Set := do
  let globs ← texts.mapM fun text => (library.read text).mapError (.invalidGlob text)
  (library.build globs).mapError (.invalidGlob (", ".intercalate texts))

/-- A checked mapping with a map for every question. -/
structure Index (library : GlobLibrary) where
  modulePath : String
  packages : Dict Package
  /-- The names of the packages by directory. -/
  byDir : Std.HashMap String String
  files : Dict String
  symbols : Std.HashMap String Symbol
  /-- The names of the symbols, in order of precedence. -/
  precedence : List String
  /-- The names of the symbols by package and exported name. -/
  exported : Std.HashMap (String × String) String
  excludes : library.Set
  includeTests : Bool

namespace Index

def precedes (a b : String) : Bool :=
  b.utf8ByteSize < a.utf8ByteSize || (a.utf8ByteSize == b.utf8ByteSize && a ≤ b)

def addPackage (modulePath : String) (maps : Dict Package × Std.HashMap String String)
    (entry : PackageEntry) : Except ConfigError (Dict Package × Std.HashMap String String) :=
  (Table.newPackage modulePath maps.1.find? (fun dir => maps.2[dir]?) entry).map fun new =>
    new.elim maps fun package =>
      (maps.1.insert package.name package, maps.2.insert package.dir package.name)

def addSymbol (packages : Dict Package) (symbols : Std.HashMap String Symbol)
    (entry : SymbolEntry) : Except ConfigError (Std.HashMap String Symbol) :=
  (Table.newSymbol packages (fun name => symbols[name]?) entry).map fun new =>
    new.elim symbols fun symbol => symbols.insert symbol.name symbol

def addExport (symbols : Std.HashMap String Symbol)
    (exported : Std.HashMap (String × String) String) (name : String) :
    ExceptT ConfigError Option (Std.HashMap (String × String) String) :=
  match symbols[name]? with
  | none => .mk none
  | some symbol =>
    match exported[(symbol.package, symbol.exported)]? with
    | some first => throw (.exportCollision symbol.package symbol.exported first name)
    | none => pure (exported.insert (symbol.package, symbol.exported) name)

def load (library : GlobLibrary) (config : Config) :
    ExceptT ConfigError Option (Index library) := do
  let modulePath := Table.trimModule config.modulePath
  let maps ← liftExcept (config.packages.foldlM (addPackage modulePath) (.empty, ∅))
  let files ← liftExcept (config.files.foldlM (Table.addFile config.source maps.1) .empty)
  let symbols ← liftExcept (config.symbols.foldlM (addSymbol maps.1) ∅)
  let precedence := symbols.keys.mergeSort precedes
  let exported ← precedence.foldlM (addExport symbols) ∅
  let excludes ← liftExcept (library.readAll config.exclude)
  return ⟨modulePath, maps.1, maps.2, files, symbols, precedence, exported, excludes,
    config.includeTests⟩

variable {library : GlobLibrary}

def packageOfSymbol? (index : Index library) (name : String) : Option Package :=
  index.symbols[name]?.bind fun symbol => index.packages.find? symbol.package

def packageOfDir? (index : Index library) (dir : String) : Option Package :=
  index.byDir[Path.normalize dir]?.bind index.packages.find?

def exports (index : Index library) (package name : String) : Bool :=
  index.exported.contains (package, name)

def symbolList? (index : Index library) : Option (List Symbol) :=
  index.precedence.mapM fun name => index.symbols[name]?

def isEmpty (index : Index library) : Bool :=
  index.symbols.isEmpty && index.files.entries.isEmpty

def isExcluded (index : Index library) (path : String) : Bool :=
  library.isMatch index.excludes path

end Index

end Repackage
