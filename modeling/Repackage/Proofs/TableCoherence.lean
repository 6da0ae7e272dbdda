import Mathlib.Logic.ExistsUnique
import Repackage.Proofs.CanonicalPaths
import Repackage.Proofs.EntryOrder
import Repackage.Run

/-!
A loaded table answers as one. Its packages, files and symbols are looked up in different ways, by
names, by paths and by directories that are spelled canonically once more for every question, and
no look-up leads to something that another one does not know.
-/

set_option autoImplicit false
set_option relaxedAutoImplicit false

namespace Repackage

def Package.pathFor (package : Package) (name : String) : String :=
  if package.dir = "" then name else package.dir ++ "/" ++ name

private theorem Package.parent_pathFor (package : Package) {name : String}
    (plain : '/' ∉ name.toList) : Path.parent (package.pathFor name) = package.dir := by
  rw [pathFor]
  split_ifs with root
  · rw [Path.parent_of_plain plain, root]
  · exact Path.parent_below package.dir plain

/-- A symbol comes before another one: its name is longer in bytes, or as long and earlier in
alphabetical order. -/
def Symbol.ComesBefore (a b : Symbol) : Prop :=
  b.name.utf8ByteSize < a.name.utf8ByteSize ∨
    a.name.utf8ByteSize = b.name.utf8ByteSize ∧ a.name < b.name

private theorem Symbol.comesBefore_of_precedes {a b : Symbol} (precedes : a.precedes b)
    (different : a.name ≠ b.name) : a.ComesBefore b := by
  refine (precedes_iff.1 precedes).imp_right fun ⟨same, below⟩ => ⟨same, ?_⟩
  by_contra notLess
  exact different (String.le_antisymm below (String.not_lt.1 notLess))

namespace Table

/-- The look-ups of a table agree with each other. -/
structure IsCoherent (table : Table) : Prop where
  /-- A symbol has a package exactly when it has an entry. -/
  symbolsPlaced : ∀ name,
    (table.packageOfSymbol? name).isSome = (table.symbol? name).isSome
  /-- The package of a symbol is the one that its entry names. -/
  symbolsNamed : ∀ name symbol, table.symbol? name = some symbol →
    ∃ package ∈ table.packages.values, package.name = symbol.package ∧
      table.packageOfSymbol? name = some package
  /-- The package that a file is assigned to is there, and is found by the path of the file. -/
  filesPlaced : ∀ path name, (path, name) ∈ table.files.entries →
    ∃ package ∈ table.packages.values, package.name = name ∧
      table.packageOfFile? path = some package
  /-- A package is found by its directory. -/
  directoriesFound : ∀ package ∈ table.packages.values,
    table.packageOfDir? package.dir = some package
  /-- A package is found by the directory of any file in it. -/
  pathsFound : ∀ package ∈ table.packages.values, ∀ name : String,
    '/' ∉ name.toList → '\\' ∉ name.toList →
      table.packageOfDir? (Path.parent (package.pathFor name)) = some package
  /-- A package exports a name when exactly one of its symbols has the name there. -/
  exportsUnique : ∀ package name, table.exports package name = true ↔
    ∃! symbol, symbol ∈ table.symbols ∧ symbol.package = package ∧ symbol.exported = name
  /-- A symbol is listed exactly when it has an entry. -/
  symbolsListed : ∀ name symbol, table.symbol? name = some symbol ↔
    symbol ∈ table.symbols ∧ symbol.name = name
  /-- Symbols are listed once, in order. -/
  symbolsSorted : table.symbols.Pairwise Symbol.ComesBefore

section Loaded

variable {config : Config} {table : Table} (loaded : load config = .ok table)

include loaded

private theorem exists_package_of_name {name : String}
    (declared : ∃ entry ∈ config.packages, entry.packageName = name) :
    ∃ package ∈ table.packages.values, package.name = name ∧
      table.package? name = some package := by
  obtain ⟨-, globs, -, rfl⟩ := load_eq_ok_iff_isConsistent.1 loaded
  obtain ⟨package, found⟩ := Option.isSome_iff_exists.1 (contains_packagesOf.2 declared)
  obtain ⟨member, named⟩ := (package?_eq_some_iff loaded).1 found
  exact ⟨package, member, named, found⟩

private theorem exists_package_of_symbol {symbol : Symbol} (member : symbol ∈ table.symbols) :
    ∃ package ∈ table.packages.values, package.name = symbol.package ∧
      table.package? symbol.package = some package := by
  refine exists_package_of_name loaded ?_
  obtain ⟨consistent, globs, -, rfl⟩ := load_eq_ok_iff_isConsistent.1 loaded
  obtain ⟨entry, written, rfl⟩ :=
    (mem_symbolsOf_iff consistent.symbolsAgree).1 (List.mem_mergeSort.1 member)
  exact consistent.symbolsKnown entry written

private theorem exists_entry_of_file {path name : String}
    (found : table.files.find? path = some name) :
    ∃ entry ∈ config.files, Path.join config.source entry.path = path ∧ entry.package = name := by
  obtain ⟨consistent, globs, -, rfl⟩ := load_eq_ok_iff_isConsistent.1 loaded
  exact (map_find?_eq_some_iff consistent.filesAgree).1 ((find?_filesOf _ _).symm.trans found)

private theorem packageOfFile?_of_entry {path name : String}
    (found : table.files.find? path = some name) :
    ∃ package ∈ table.packages.values, package.name = name ∧
      table.packageOfFile? path = some package := by
  obtain ⟨entry, written, rfl, rfl⟩ := exists_entry_of_file loaded found
  obtain ⟨package, member, named, known⟩ := exists_package_of_name loaded
    ((load_eq_ok_iff_isConsistent.1 loaded).1.filesKnown entry written)
  refine ⟨package, member, named, ?_⟩
  rw [packageOfFile?, Path.join, Path.normalize_normalize, ← Path.join, found, Option.bind_some,
    known]

private theorem normalize_dir {package : Package} (member : package ∈ table.packages.values) :
    Path.normalize package.dir = package.dir := by
  obtain ⟨name, found⟩ := Dict.mem_values_iff.1 member
  obtain ⟨entry, -, -, rfl⟩ := exists_entry_of_package? loaded found
  exact Path.normalize_normalize entry.dir

private theorem eq_of_dir {a b : Package} (first : a ∈ table.packages.values)
    (second : b ∈ table.packages.values) (same : a.dir = b.dir) : a = b := by
  obtain ⟨name, found⟩ := Dict.mem_values_iff.1 first
  obtain ⟨name', found'⟩ := Dict.mem_values_iff.1 second
  obtain ⟨entry, written, named, rfl⟩ := exists_entry_of_package? loaded found
  obtain ⟨entry', written', named', rfl⟩ := exists_entry_of_package? loaded found'
  have names : entry.packageName = entry'.packageName :=
    ((load_eq_ok_iff_isConsistent.1 loaded).1.packagesAgree entry written entry' written').2 same
  rw [named, named'] at names
  exact Option.some.inj (found.symm.trans (names ▸ found'))

private theorem packageOfDir?_eq_some_iff {dir : String} {package : Package} :
    table.packageOfDir? dir = some package ↔
      package ∈ table.packages.values ∧ package.dir = Path.normalize dir := by
  constructor
  · intro found
    exact ⟨List.mem_of_find?_eq_some found, by simpa using List.find?_some found⟩
  · rintro ⟨member, placed⟩
    obtain ⟨first, listed, same, found⟩ := exists_first Package.dir member
    rw [packageOfDir?, ← placed, found, eq_of_dir loaded listed member same]

private theorem exports_iff {package name : String} : table.exports package name = true ↔
    ∃! symbol, symbol ∈ table.symbols ∧ symbol.package = package ∧ symbol.exported = name := by
  have apart := (checkExports_eq_ok_iff.1 (load_eq_ok_iff.1 loaded).exports).1
  rw [exports, List.any_eq_true]
  constructor
  · rintro ⟨symbol, member, matched⟩
    obtain ⟨rfl, rfl⟩ := of_decide_eq_true matched
    refine ⟨symbol, ⟨member, rfl, rfl⟩, fun other ⟨listed, package, exported⟩ => ?_⟩
    by_contra different
    exact apart.forall listed member different package exported
  · rintro ⟨symbol, ⟨member, matched⟩, -⟩
    exact ⟨symbol, member, decide_eq_true matched⟩

private theorem symbols_sorted : table.symbols.Pairwise Symbol.ComesBefore := by
  obtain ⟨unordered, -, sorted⟩ := (load_eq_ok_iff.1 loaded).symbols
  have ordered := Symbol.pairwise_mergeSort_precedes unordered
  rw [← sorted] at ordered
  exact (ordered.and (symbols_distinct loaded)).imp fun ⟨precedes, different⟩ =>
    Symbol.comesBefore_of_precedes precedes different

private theorem mem_symbols_names_iff {name : String} : name ∈ table.symbols.map Symbol.name ↔
    ∃ entry ∈ config.symbols, entry.name = name := by
  obtain ⟨consistent, globs, -, rfl⟩ := load_eq_ok_iff_isConsistent.1 loaded
  simp only [tableOf, List.mem_map, List.mem_mergeSort, mem_symbolsOf_iff consistent.symbolsAgree]
  constructor
  · rintro ⟨symbol, ⟨entry, written, rfl⟩, named⟩
    exact ⟨entry, written, named⟩
  · rintro ⟨entry, written, named⟩
    exact ⟨entry.toSymbol, ⟨entry, written, rfl⟩, named⟩

private theorem packageOfDir?_of_target? {path : String} {target : Run.Target}
    (found : Run.target? table path = some target) :
    table.packageOfDir? (Path.parent target.destination) = some target.package := by
  rw [Run.target?] at found
  split at found
  next package assigned =>
    obtain rfl := Option.some.inj found
    obtain ⟨name, -, known⟩ := Option.bind_eq_some_iff.1 assigned
    have member := Dict.mem_values_of_find? known
    change table.packageOfDir? (Path.parent (package.pathFor (Path.fileName path))) = some package
    rw [Package.parent_pathFor package (Path.slash_not_mem_fileName path),
      packageOfDir?_eq_some_iff loaded]
    exact ⟨member, (normalize_dir loaded member).symm⟩
  next unassigned =>
    obtain ⟨package, placed, rfl⟩ := Option.map_eq_some_iff.1 found
    exact placed

end Loaded

/-- The look-ups of a loaded table agree with each other. Its symbols are those of the mapping, and
a file that goes anywhere gets to a directory by which its package is found. -/
theorem loaded_table_coherent {config : Config} {table : Table}
    (loaded : load config = .ok table) : table.IsCoherent ∧
      (∀ name, name ∈ table.symbols.map Symbol.name ↔
        ∃ entry ∈ config.symbols, entry.name = name) ∧
      ∀ path target, Run.target? table path = some target →
        table.packageOfDir? (Path.parent target.destination) = some target.package := by
  have canonical {package : Package} (member : package ∈ table.packages.values) :
      table.packageOfDir? package.dir = some package :=
    (packageOfDir?_eq_some_iff loaded).2 ⟨member, (normalize_dir loaded member).symm⟩
  have named {name : String} {symbol : Symbol} (found : table.symbol? name = some symbol) :
      ∃ package ∈ table.packages.values, package.name = symbol.package ∧
        table.packageOfSymbol? name = some package := by
    obtain ⟨package, member, same, known⟩ :=
      exists_package_of_symbol loaded ((symbol?_eq_some_iff loaded).1 found).1
    exact ⟨package, member, same, by rw [packageOfSymbol?, found, Option.bind_some, known]⟩
  refine ⟨⟨fun name => ?_, fun name symbol => named, fun path name listed => ?_,
    fun package => canonical, fun package member name plain _ => ?_, fun package name => ?_,
    fun name symbol => ?_, symbols_sorted loaded⟩, fun name => mem_symbols_names_iff loaded,
    fun path target => packageOfDir?_of_target? loaded⟩
  · cases found : table.symbol? name with
    | none =>
      rw [packageOfSymbol?, found]
      rfl
    | some symbol =>
      obtain ⟨package, -, -, known⟩ := named found
      rw [known, Option.isSome_some, Option.isSome_some]
  · exact packageOfFile?_of_entry loaded (Dict.mem_entries_iff.1 listed)
  · rw [Package.parent_pathFor package plain]
    exact canonical member
  · exact exports_iff loaded
  · exact symbol?_eq_some_iff loaded

/-- A mapping with a package at the root and one whose directory is not spelled canonically. -/
def breakwaterConfig : Config where
  modulePath := "m"
  source := "old"
  packages := [⟨some "app", "", none⟩, ⟨none, "./lib//base/", none⟩]
  files := [⟨"x.go", "base"⟩, ⟨"./y.go", "app"⟩]
  symbols := [⟨"handle", "base", some "Handle"⟩, ⟨"Run", "app", none⟩, ⟨"Run", "app", some "Run"⟩]

theorem breakwater_coherent : ∃ table, load breakwaterConfig = .ok table ∧ table.IsCoherent ∧
    table.symbols = [⟨"handle", "base", "Handle"⟩, ⟨"Run", "app", "Run"⟩] ∧
    table.packageOfFile? "old/y.go" = some ⟨"app", "", "m"⟩ ∧
    table.packageOfDir? (Path.parent "lib/base/x.go") =
      some ⟨"base", "lib/base", "m/lib/base"⟩ := by
  have loaded : load breakwaterConfig = .ok (tableOf breakwaterConfig []) :=
    load_eq_ok_iff_isConsistent.2 ⟨by decide +kernel, [], rfl, rfl⟩
  have sorted : (tableOf breakwaterConfig []).symbols = symbolsOf breakwaterConfig.symbols :=
    List.mergeSort_of_pairwise (by decide +kernel)
  exact ⟨_, loaded, (loaded_table_coherent loaded).1, sorted.trans (by decide +kernel),
    by decide +kernel, by decide +kernel⟩

end Table

end Repackage
