import Repackage.Proofs.Acceptance

/-!
What holds of every loaded table, whatever mapping it was loaded from.
-/

set_option autoImplicit false
set_option relaxedAutoImplicit false

namespace Repackage.Table

/-- A mapping is loaded part by part. Sorting changes nothing where the symbols are in order. -/
theorem load_of_sorted {config : Config} {packages : Dict Package} {files : Dict String}
    {symbols : List Symbol} {excludes : List Glob}
    (packaged : config.packages.foldlM (addPackage (trimModule config.modulePath)) Dict.empty =
      .ok packages)
    (filed : config.files.foldlM (addFile config.source packages) Dict.empty = .ok files)
    (listed : config.symbols.foldlM (addSymbol packages) [] = .ok symbols)
    (sorted : symbols.Pairwise fun a b => a.precedes b)
    (checked : checkExports [] symbols = .ok ()) (read : readGlobs config.exclude = .ok excludes) :
    load config = .ok
      ⟨trimModule config.modulePath, packages, files, symbols, excludes, config.includeTests⟩ :=
  load_eq_ok_iff.2 ⟨rfl, packaged, filed,
    ⟨symbols, listed, (List.mergeSort_of_pairwise sorted).symm⟩, checked, read, rfl⟩

section Loaded

variable {config : Config} {table : Table} (loaded : load config = .ok table)

include loaded

theorem isIdentifier_of_mem_symbols {symbol : Symbol} (member : symbol ∈ table.symbols) :
    Word.isIdentifier symbol.exported.toList := by
  obtain ⟨consistent, globs, -, rfl⟩ := load_eq_ok_iff_isConsistent.1 loaded
  obtain ⟨entry, written, rfl⟩ :=
    (mem_symbolsOf_iff consistent.symbolsAgree).1 (List.mem_mergeSort.1 member)
  exact (consistent.symbolsNamed entry written).2

theorem symbols_distinct : table.symbols.Pairwise fun a b => a.name ≠ b.name := by
  obtain ⟨-, globs, -, rfl⟩ := load_eq_ok_iff_isConsistent.1 loaded
  exact ((List.mergeSort_perm _ _).pairwise_iff Ne.symm).2 (symbolsOf_distinct config.symbols)

theorem exists_entry_of_package? {name : String} {package : Package}
    (found : table.package? name = some package) : ∃ entry ∈ config.packages,
      entry.packageName = name ∧ entry.toPackage (trimModule config.modulePath) = package := by
  obtain ⟨-, globs, -, rfl⟩ := load_eq_ok_iff_isConsistent.1 loaded
  rw [package?, tableOf, find?_packagesOf, Option.map_eq_some_iff] at found
  obtain ⟨entry, found, same⟩ := found
  exact ⟨entry, List.mem_of_find?_eq_some found, by simpa using List.find?_some found, same⟩

theorem name_of_package? {name : String} {package : Package}
    (found : table.package? name = some package) : package.name = name := by
  obtain ⟨entry, -, named, rfl⟩ := exists_entry_of_package? loaded found
  exact named

theorem isIdentifier_of_mem_packages {package : Package}
    (member : package ∈ table.packages.values) : Word.isIdentifier package.name.toList := by
  obtain ⟨name, found⟩ := Dict.mem_values_iff.1 member
  obtain ⟨entry, written, -, rfl⟩ := exists_entry_of_package? loaded found
  exact ((load_eq_ok_iff_isConsistent.1 loaded).1.packagesProper entry written).named

theorem symbol?_eq_some_iff {name : String} {symbol : Symbol} :
    table.symbol? name = some symbol ↔ symbol ∈ table.symbols ∧ symbol.name = name :=
  find?_key_eq_some_iff (symbols_distinct loaded)

theorem package?_eq_some_iff {name : String} {package : Package} :
    table.package? name = some package ↔
      package ∈ table.packages.values ∧ package.name = name := by
  constructor
  · intro found
    exact ⟨Dict.mem_values_of_find? found, name_of_package? loaded found⟩
  · rintro ⟨member, rfl⟩
    obtain ⟨key, found⟩ := Dict.mem_values_iff.1 member
    rw [← package?] at found
    rwa [name_of_package? loaded found]

end Loaded

theorem name_of_symbol? {table : Table} {name : String} {symbol : Symbol}
    (found : table.symbol? name = some symbol) : symbol ∈ table.symbols ∧ symbol.name = name := by
  refine ⟨List.mem_of_find?_eq_some found, ?_⟩
  have named := List.find?_some found
  simpa using named

theorem packageOfImport?_eq_some_iff {table : Table}
    (distinct : table.packages.values.Pairwise fun a b => a.importPath ≠ b.importPath)
    {path : String} {package : Package} :
    table.packageOfImport? path = some package ↔
      package ∈ table.packages.values ∧ package.importPath = path :=
  find?_key_eq_some_iff distinct

end Repackage.Table
