import Mathlib.Data.List.Induction
import Mathlib.Data.List.Nodup
import Mathlib.Data.List.Pairwise
import Mathlib.Tactic.MkIffOfInductiveProp
import Mathlib.Tactic.SplitIfs
import Repackage.Mapping.Table
import Repackage.Proofs.Dict

/-!
Which mappings are accepted. Entries are taken one after the other and compared only with what the
entries before them have left behind. That amounts to a comparison of all entries with each other:
a mapping is accepted exactly when each entry is proper by itself and any two agree.
-/

set_option autoImplicit false
set_option relaxedAutoImplicit false

namespace Repackage

def PackageEntry.location (entry : PackageEntry) : String :=
  Path.normalize entry.dir

def PackageEntry.packageName (entry : PackageEntry) : String :=
  entry.name.getD (Path.fileName entry.location)

def PackageEntry.importedAs (modulePath : String) (entry : PackageEntry) : String :=
  entry.importPath.getD
    (if entry.location = "" then modulePath else modulePath ++ "/" ++ entry.location)

def PackageEntry.toPackage (modulePath : String) (entry : PackageEntry) : Package :=
  ⟨entry.packageName, entry.location, entry.importedAs modulePath⟩

@[simp] theorem PackageEntry.toPackage_name (modulePath : String) (entry : PackageEntry) :
    (entry.toPackage modulePath).name = entry.packageName := rfl

@[simp] theorem PackageEntry.toPackage_dir (modulePath : String) (entry : PackageEntry) :
    (entry.toPackage modulePath).dir = entry.location := rfl

/-- Whether a package entry can be used by itself. -/
@[mk_iff isProper_iff]
structure PackageEntry.IsProper (modulePath : String) (entry : PackageEntry) : Prop where
  named : Word.isIdentifier entry.packageName.toList
  importable : entry.importPath.isSome ∨ modulePath ≠ ""

instance (modulePath : String) (entry : PackageEntry) : Decidable (entry.IsProper modulePath) :=
  decidable_of_iff' _ (PackageEntry.isProper_iff modulePath entry)

def SymbolEntry.exported (entry : SymbolEntry) : String :=
  entry.rename.getD entry.name

def SymbolEntry.toSymbol (entry : SymbolEntry) : Symbol :=
  ⟨entry.name, entry.package, entry.exported⟩

def Symbol.Apart (a b : Symbol) : Prop :=
  a.package = b.package → a.exported ≠ b.exported

theorem Symbol.Apart.symm {a b : Symbol} (apart : a.Apart b) : b.Apart a :=
  fun package exported => apart package.symm exported.symm

instance : Std.Symm Symbol.Apart := ⟨fun _ _ => Symbol.Apart.symm⟩

/-- What a mapping must be like to be accepted, but for the globs of paths that are left out. -/
@[mk_iff isConsistent_iff]
structure Config.IsConsistent (config : Config) : Prop where
  /-- Every package has a name and an import path, or a module to make one from. -/
  packagesProper : ∀ entry ∈ config.packages,
    entry.IsProper (Table.trimModule config.modulePath)
  /-- Packages have one name exactly when they have one directory. -/
  packagesAgree : ∀ a ∈ config.packages, ∀ b ∈ config.packages,
    a.packageName = b.packageName ↔ a.location = b.location
  filesKnown : ∀ entry ∈ config.files, ∃ package ∈ config.packages,
    package.packageName = entry.package
  /-- A file goes to one package. -/
  filesAgree : ∀ a ∈ config.files, ∀ b ∈ config.files,
    Path.join config.source a.path = Path.join config.source b.path → a.package = b.package
  symbolsNamed : ∀ entry ∈ config.symbols,
    Word.isIdentifier entry.name.toList ∧ Word.isIdentifier entry.exported.toList
  symbolsKnown : ∀ entry ∈ config.symbols, ∃ package ∈ config.packages,
    package.packageName = entry.package
  /-- A symbol belongs to one package and has one name there. -/
  symbolsAgree : ∀ a ∈ config.symbols, ∀ b ∈ config.symbols,
    a.name = b.name → a.package = b.package ∧ a.exported = b.exported
  /-- Two symbols of a package have different names there. -/
  exportsApart : ∀ a ∈ config.symbols, ∀ b ∈ config.symbols,
    a.name ≠ b.name → a.package = b.package → a.exported ≠ b.exported

instance (config : Config) : Decidable config.IsConsistent :=
  decidable_of_iff' _ config.isConsistent_iff

namespace Table

private theorem bind_eq_ok_iff {ε α β : Type} {first : Except ε α} {next : α → Except ε β}
    {result : β} :
    first >>= next = .ok result ↔ ∃ value, first = .ok value ∧ next value = .ok result := by
  cases first with
  | error e => simp [bind, Except.bind]
  | ok value => simp [bind, Except.bind]

/-- A table as it comes from a mapping: the entries are added in turn, the symbols are sorted and
then compared with each other. -/
structure IsLoaded (config : Config) (table : Table) : Prop where
  modulePath : table.modulePath = trimModule config.modulePath
  packages : config.packages.foldlM (addPackage (trimModule config.modulePath)) Dict.empty =
    .ok table.packages
  files : config.files.foldlM (addFile config.source table.packages) Dict.empty = .ok table.files
  symbols : ∃ unordered, config.symbols.foldlM (addSymbol table.packages) [] = .ok unordered ∧
    table.symbols = unordered.mergeSort Symbol.precedes
  exports : checkExports [] table.symbols = .ok ()
  excludes : readGlobs config.exclude = .ok table.excludes
  includeTests : table.includeTests = config.includeTests

theorem load_eq_ok_iff {config : Config} {table : Table} :
    load config = .ok table ↔ IsLoaded config table := by
  simp only [load, bind_eq_ok_iff]
  constructor
  · rintro ⟨packages, packaged, files, filed, unordered, listed, ⟨⟩, checked, excludes, read, made⟩
    obtain rfl := Except.ok.inj made
    exact ⟨rfl, packaged, filed, ⟨unordered, listed, rfl⟩, checked, read, rfl⟩
  · rintro ⟨path, packaged, filed, ⟨unordered, listed, sorted⟩, checked, read, tests⟩
    refine ⟨_, packaged, _, filed, _, listed, (), sorted ▸ checked, _, read, ?_⟩
    rw [← sorted, ← path, ← tests]
    rfl

section Entries

variable {ε α β κ : Type}

theorem exists_first [DecidableEq κ] (key : α → κ) {entries : List α} {entry : α}
    (member : entry ∈ entries) : ∃ first ∈ entries, key first = key entry ∧
      entries.find? (key · = key entry) = some first := by
  obtain ⟨first, found⟩ : ∃ first, entries.find? (key · = key entry) = some first := by
    rw [← Option.isSome_iff_exists, List.find?_isSome]
    exact ⟨entry, member, by simp⟩
  exact ⟨first, List.mem_of_find?_eq_some found, by simpa using List.find?_some found, found⟩

theorem map_find?_eq_some_iff [DecidableEq κ] {key : α → κ} {value : α → β} {entries : List α}
    (agree : ∀ a ∈ entries, ∀ b ∈ entries, key a = key b → value a = value b) {k : κ} {v : β} :
    (entries.find? (key · = k)).map value = some v ↔
      ∃ entry ∈ entries, key entry = k ∧ value entry = v := by
  rw [Option.map_eq_some_iff]
  constructor
  · rintro ⟨entry, found, same⟩
    exact ⟨entry, List.mem_of_find?_eq_some found, by simpa using List.find?_some found, same⟩
  · rintro ⟨entry, member, rfl, rfl⟩
    obtain ⟨first, listed, same, found⟩ := exists_first key member
    exact ⟨first, found, agree first listed entry member same⟩

theorem find?_key_eq_some_iff {key : α → String} {items : List α}
    (distinct : items.Pairwise fun a b => key a ≠ key b) {name : String} {item : α} :
    items.find? (fun other => key other = name) = some item ↔ item ∈ items ∧ key item = name := by
  have agree : ∀ a ∈ items, ∀ b ∈ items, key a = key b → id a = id b := fun a first b second =>
    List.inj_on_of_nodup_map (List.pairwise_map.2 distinct) first second
  have found : (items.find? (key · = name)).map id = some item ↔ _ := map_find?_eq_some_iff agree
  rw [Option.map_id, id] at found
  rw [found]
  constructor
  · rintro ⟨entry, member, named, rfl⟩
    exact ⟨member, named⟩
  · rintro ⟨member, named⟩
    exact ⟨item, member, named, rfl⟩

variable {step : β → α → Except ε β} {result : List α → β} {Proper : α → Prop}
  {Agree : α → α → Prop}

private theorem agree_append_iff (refl : ∀ a, Agree a a) (symm : ∀ a b, Agree a b → Agree b a)
    {seen : List α} {entry : α} :
    (∀ a ∈ seen ++ [entry], ∀ b ∈ seen ++ [entry], Agree a b) ↔
      (∀ a ∈ seen, ∀ b ∈ seen, Agree a b) ∧ ∀ a ∈ seen, Agree a entry := by
  simp only [List.forall_mem_append, List.forall_mem_singleton]
  constructor
  · rintro ⟨pairs, -⟩
    exact ⟨fun a member => (pairs a member).1, fun a member => (pairs a member).2⟩
  · rintro ⟨pairs, last⟩
    exact ⟨fun a member => ⟨pairs a member, last a member⟩,
      fun b member => symm _ _ (last b member), refl entry⟩

private theorem foldlM_eq_ok_iff (refl : ∀ a, Agree a a) (symm : ∀ a b, Agree a b → Agree b a)
    (steps : ∀ seen entry next, (∀ a ∈ seen, ∀ b ∈ seen, Agree a b) →
      (step (result seen) entry = .ok next ↔ Proper entry ∧ (∀ a ∈ seen, Agree a entry) ∧
        next = result (seen ++ [entry])))
    {entries : List α} {final : β} :
    entries.foldlM step (result []) = .ok final ↔ (∀ entry ∈ entries, Proper entry) ∧
      (∀ a ∈ entries, ∀ b ∈ entries, Agree a b) ∧ final = result entries := by
  induction entries using List.reverseRecOn generalizing final with
  | nil => simp [pure, Except.pure, eq_comm]
  | append_singleton seen entry ih =>
    rw [List.foldlM_append, bind_eq_ok_iff, agree_append_iff refl symm, List.forall_mem_append,
      List.forall_mem_singleton]
    simp only [List.foldlM_cons, List.foldlM_nil, bind_pure]
    constructor
    · rintro ⟨state, before, stepped⟩
      obtain ⟨proper, agree, rfl⟩ := ih.1 before
      obtain ⟨also, last, rfl⟩ := (steps seen entry final agree).1 stepped
      exact ⟨⟨proper, also⟩, ⟨agree, last⟩, rfl⟩
    · rintro ⟨⟨proper, also⟩, ⟨agree, last⟩, rfl⟩
      exact ⟨_, ih.2 ⟨proper, agree, rfl⟩, (steps seen entry _ agree).2 ⟨also, last, rfl⟩⟩

end Entries

section Packages

variable {modulePath : String}

private theorem resolvePackage_of_isProper {entry : PackageEntry}
    (proper : entry.IsProper modulePath) :
    resolvePackage modulePath entry = .ok (entry.toPackage modulePath) := by
  obtain ⟨named, importable⟩ := proper
  change (if !Word.isIdentifier entry.packageName.toList then _ else _) = _
  rw [named, Bool.not_true, if_neg Bool.false_ne_true, PackageEntry.toPackage,
    PackageEntry.importedAs]
  cases given : entry.importPath with
  | some importPath => rfl
  | none =>
    have present : modulePath ≠ "" := by simpa [given] using importable
    change (if modulePath = "" then _ else if entry.location = "" then _ else _) = _
    rw [if_neg present]
    by_cases root : entry.location = ""
    · rw [if_pos root, Option.getD_none, if_pos root]
      rfl
    · rw [if_neg root, Option.getD_none, if_neg root]
      rfl

private theorem resolvePackage_eq_ok_iff {entry : PackageEntry} {package : Package} :
    resolvePackage modulePath entry = .ok package ↔
      entry.IsProper modulePath ∧ package = entry.toPackage modulePath := by
  constructor
  · intro resolved
    have proper : entry.IsProper modulePath := by
      constructor
      · by_contra unnamed
        have refused : (!Word.isIdentifier entry.packageName.toList) = true := by
          simpa using unnamed
        change (if !Word.isIdentifier entry.packageName.toList then _ else _) = _ at resolved
        rw [if_pos refused] at resolved
        cases resolved
      · by_contra missing
        obtain ⟨given, absent⟩ := not_or.1 missing
        simp only [resolvePackage, Option.not_isSome_iff_eq_none.1 given, not_not.1 absent,
          if_true] at resolved
        split_ifs at resolved
    rw [resolvePackage_of_isProper proper] at resolved
    exact ⟨proper, (Except.ok.inj resolved).symm⟩
  · rintro ⟨proper, rfl⟩
    exact resolvePackage_of_isProper proper

def packagesOf (modulePath : String) (entries : List PackageEntry) : Dict Package :=
  entries.foldl (fun packages entry =>
    packages.insertNew entry.packageName (entry.toPackage modulePath)) Dict.empty

theorem find?_packagesOf (entries : List PackageEntry) (name : String) :
    (packagesOf modulePath entries).find? name =
      (entries.find? (·.packageName = name)).map (·.toPackage modulePath) :=
  Dict.find?_foldl_insertNew _ _ _ _ _

theorem contains_packagesOf {entries : List PackageEntry} {name : String} :
    (packagesOf modulePath entries).contains name ↔
      ∃ entry ∈ entries, entry.packageName = name := by
  simp [Dict.contains, find?_packagesOf]

private theorem addPackage_eq_ok_iff {packages next : Dict Package} {entry : PackageEntry} :
    addPackage modulePath packages entry = .ok next ↔ entry.IsProper modulePath ∧
      ((∃ first, packages.find? entry.packageName = some first ∧ first.dir = entry.location) ∨
        packages.find? entry.packageName = none ∧
          ∀ other ∈ packages.values, other.dir ≠ entry.location) ∧
      next = packages.insertNew entry.packageName (entry.toPackage modulePath) := by
  rw [addPackage, newPackage, Dict.insertNew, Dict.contains]
  cases resolved : resolvePackage modulePath entry with
  | error e =>
    have improper : ¬entry.IsProper modulePath := fun proper => by
      rw [resolvePackage_of_isProper proper] at resolved
      cases resolved
    simp [improper, Except.map]
  | ok package =>
    obtain ⟨proper, rfl⟩ := resolvePackage_eq_ok_iff.1 resolved
    simp only [proper, true_and, PackageEntry.toPackage_name]
    cases found : packages.find? entry.packageName with
    | some first =>
      by_cases same : first.dir = entry.location <;>
        simp [same, Except.map, eq_comm (a := next)]
    | none =>
      cases taken : packages.values.find? (·.dir = (entry.toPackage modulePath).dir) with
      | some other =>
        have matched := List.find?_some taken
        have placed : other.dir = entry.location := of_decide_eq_true matched
        have listed := List.mem_of_find?_eq_some taken
        simp only [Option.map_some, Except.map, reduceCtorEq, false_iff]
        rintro ⟨⟨first, absurd, -⟩ | ⟨-, free⟩, -⟩
        · cases absurd
        · exact free other listed placed
      | none =>
        have free : ∀ other ∈ packages.values, other.dir ≠ entry.location :=
          fun other listed placed =>
            List.find?_eq_none.1 taken other listed (decide_eq_true placed)
        constructor
        · rintro ⟨⟩
          exact ⟨.inr ⟨rfl, free⟩, rfl⟩
        · rintro ⟨-, rfl⟩
          rfl

private theorem addPackage_packagesOf {seen : List PackageEntry} (agree : ∀ a ∈ seen, ∀ b ∈ seen,
    (a.packageName = b.packageName ↔ a.location = b.location)) {entry : PackageEntry}
    {next : Dict Package} :
    addPackage modulePath (packagesOf modulePath seen) entry = .ok next ↔
      entry.IsProper modulePath ∧
        (∀ a ∈ seen, (a.packageName = entry.packageName ↔ a.location = entry.location)) ∧
        next = packagesOf modulePath (seen ++ [entry]) := by
  have more : packagesOf modulePath (seen ++ [entry]) =
      (packagesOf modulePath seen).insertNew entry.packageName (entry.toPackage modulePath) :=
    List.foldl_append
  rw [addPackage_eq_ok_iff, more, find?_packagesOf]
  refine and_congr_right fun _ => and_congr_left fun _ => ?_
  cases found : seen.find? (·.packageName = entry.packageName) with
  | some first =>
    have listed := List.mem_of_find?_eq_some found
    have named : first.packageName = entry.packageName := by simpa using List.find?_some found
    simp only [Option.map_some, Option.some.injEq, exists_eq_left', reduceCtorEq, false_and,
      or_false, PackageEntry.toPackage_dir]
    constructor
    · intro placed a member
      rw [← named, agree a member first listed, placed]
    · intro agrees
      exact (agrees first listed).1 named
  | none =>
    have unnamed : ∀ a ∈ seen, a.packageName ≠ entry.packageName := by simpa using found
    simp only [Option.map_none, reduceCtorEq, false_and, exists_false, true_and, false_or]
    constructor
    · intro free a member
      refine ⟨fun same => absurd same (unnamed a member), fun placed => ?_⟩
      -- The package of that name comes from an entry that agrees with this one.
      obtain ⟨first, earlier, named, found⟩ := exists_first PackageEntry.packageName member
      have listed : first.toPackage modulePath ∈ (packagesOf modulePath seen).values :=
        Dict.mem_values_iff.2 ⟨a.packageName, by rw [find?_packagesOf, found, Option.map_some]⟩
      refine absurd ?_ (free _ listed)
      rw [PackageEntry.toPackage_dir, ← placed]
      exact (agree first earlier a member).1 named
    · intro agrees other listed placed
      obtain ⟨name, found⟩ := Dict.mem_values_iff.1 listed
      rw [find?_packagesOf, Option.map_eq_some_iff] at found
      obtain ⟨a, found, rfl⟩ := found
      have member := List.mem_of_find?_eq_some found
      exact unnamed a member ((agrees a member).2 placed)

private theorem foldlM_addPackage_eq_ok_iff {entries : List PackageEntry} {packages : Dict Package}
    : entries.foldlM (addPackage modulePath) Dict.empty = .ok packages ↔
      (∀ entry ∈ entries, entry.IsProper modulePath) ∧
        (∀ a ∈ entries, ∀ b ∈ entries,
          (a.packageName = b.packageName ↔ a.location = b.location)) ∧
        packages = packagesOf modulePath entries :=
  foldlM_eq_ok_iff (fun _ => by simp) (fun _ _ same => by rw [eq_comm, same, eq_comm])
    fun _ _ _ agree => addPackage_packagesOf agree

end Packages

section Files

variable {source : String}

def filesOf (source : String) (entries : List FileEntry) : Dict String :=
  entries.foldl (fun files entry =>
    files.insertNew (Path.join source entry.path) entry.package) Dict.empty

theorem find?_filesOf (entries : List FileEntry) (path : String) :
    (filesOf source entries).find? path =
      (entries.find? fun entry => Path.join source entry.path = path).map (·.package) :=
  Dict.find?_foldl_insertNew _ _ _ _ _

private theorem addFile_eq_ok_iff {packages : Dict Package} {files next : Dict String}
    {entry : FileEntry} :
    addFile source packages files entry = .ok next ↔ packages.contains entry.package ∧
      (∀ first, files.find? (Path.join source entry.path) = some first →
        first = entry.package) ∧
      next = files.insertNew (Path.join source entry.path) entry.package := by
  simp only [addFile, Dict.insertNew]
  cases packages.contains entry.package with
  | false => simp
  | true =>
    cases found : files.find? (Path.join source entry.path) with
    | none => simp [Dict.contains, found, eq_comm (a := next)]
    | some first =>
      by_cases same : first = entry.package <;>
        simp [Dict.contains, found, same, eq_comm (a := next)]

private theorem addFile_filesOf {packages : Dict Package} {seen : List FileEntry}
    (agree : ∀ a ∈ seen, ∀ b ∈ seen,
      Path.join source a.path = Path.join source b.path → a.package = b.package)
    {entry : FileEntry} {next : Dict String} :
    addFile source packages (filesOf source seen) entry = .ok next ↔
      packages.contains entry.package ∧
        (∀ a ∈ seen, Path.join source a.path = Path.join source entry.path →
          a.package = entry.package) ∧
        next = filesOf source (seen ++ [entry]) := by
  have more : filesOf source (seen ++ [entry]) =
      (filesOf source seen).insertNew (Path.join source entry.path) entry.package :=
    List.foldl_append
  rw [addFile_eq_ok_iff, more, find?_filesOf]
  refine and_congr_right fun _ => and_congr_left fun _ => ?_
  simp only [map_find?_eq_some_iff agree]
  exact ⟨fun all a member same => all _ ⟨a, member, same, rfl⟩,
    fun all _ ⟨a, member, same, package⟩ => package ▸ all a member same⟩

private theorem foldlM_addFile_eq_ok_iff {packages : Dict Package} {entries : List FileEntry}
    {files : Dict String} :
    entries.foldlM (addFile source packages) Dict.empty = .ok files ↔
      (∀ entry ∈ entries, packages.contains entry.package) ∧
        (∀ a ∈ entries, ∀ b ∈ entries,
          Path.join source a.path = Path.join source b.path → a.package = b.package) ∧
        files = filesOf source entries :=
  foldlM_eq_ok_iff (fun _ _ => rfl) (fun _ _ same path => (same path.symm).symm)
    fun _ _ _ agree => addFile_filesOf agree

end Files

section Symbols

def symbolsOf (entries : List SymbolEntry) : List Symbol :=
  entries.foldl (fun symbols entry =>
    if symbols.any (·.name = entry.name) then symbols else symbols ++ [entry.toSymbol]) []

private theorem symbolsOf_append (entries : List SymbolEntry) (entry : SymbolEntry) :
    symbolsOf (entries ++ [entry]) = if (symbolsOf entries).any (·.name = entry.name)
      then symbolsOf entries else symbolsOf entries ++ [entry.toSymbol] :=
  List.foldl_append

private theorem find?_symbolsOf (entries : List SymbolEntry) (name : String) :
    (symbolsOf entries).find? (·.name = name) =
      (entries.find? (·.name = name)).map SymbolEntry.toSymbol := by
  induction entries using List.reverseRecOn with
  | nil => rfl
  | append_singleton entries entry ih =>
    rw [symbolsOf_append, List.find?_append, Option.map_or, ← ih]
    split_ifs with listed
    · by_cases same : entry.name = name
      · subst same
        obtain ⟨symbol, found⟩ := Option.isSome_iff_exists.1
          (List.find?_isSome.2 (List.any_eq_true.1 listed))
        rw [found, Option.some_or]
      · simp [same]
    · rw [List.find?_append]
      by_cases same : entry.name = name <;> simp [SymbolEntry.toSymbol, same]

theorem symbolsOf_distinct (entries : List SymbolEntry) :
    (symbolsOf entries).Pairwise fun a b => a.name ≠ b.name := by
  induction entries using List.reverseRecOn with
  | nil => exact .nil
  | append_singleton entries entry ih =>
    rw [symbolsOf_append]
    split_ifs with listed
    · exact ih
    · refine List.pairwise_append.2 ⟨ih, List.pairwise_singleton _ _, ?_⟩
      simpa [SymbolEntry.toSymbol] using listed

theorem mem_symbolsOf_iff {entries : List SymbolEntry} (agree : ∀ a ∈ entries, ∀ b ∈ entries,
    a.name = b.name → a.package = b.package ∧ a.exported = b.exported) {symbol : Symbol} :
    symbol ∈ symbolsOf entries ↔ ∃ entry ∈ entries, entry.toSymbol = symbol := by
  have agree' : ∀ a ∈ entries, ∀ b ∈ entries, a.name = b.name → a.toSymbol = b.toSymbol :=
    fun a first b second same => by
      obtain ⟨package, exported⟩ := agree a first b second same
      rw [SymbolEntry.toSymbol, SymbolEntry.toSymbol, same, package, exported]
  have found : (symbolsOf entries).find? (·.name = symbol.name) = some symbol ↔ _ :=
    find?_key_eq_some_iff (symbolsOf_distinct entries)
  rw [find?_symbolsOf, map_find?_eq_some_iff agree', and_iff_left rfl] at found
  rw [← found]
  exact ⟨fun ⟨entry, member, _, same⟩ => ⟨entry, member, same⟩,
    fun ⟨entry, member, same⟩ => ⟨entry, member, congrArg Symbol.name same, same⟩⟩

private theorem addSymbol_eq_ok_iff {packages : Dict Package} {symbols next : List Symbol}
    {entry : SymbolEntry} :
    addSymbol packages symbols entry = .ok next ↔
      (Word.isIdentifier entry.name.toList ∧ packages.contains entry.package ∧
        Word.isIdentifier entry.exported.toList) ∧
      (∀ first, symbols.find? (·.name = entry.name) = some first →
        first.package = entry.package ∧ first.exported = entry.exported) ∧
      next = if symbols.any (·.name = entry.name) then symbols
        else symbols ++ [entry.toSymbol] := by
  rw [← List.isSome_find?]
  simp only [addSymbol, newSymbol]
  change (if _ then _ else if _ then _ else if !Word.isIdentifier entry.exported.toList then _
    else _ : Except ConfigError (Option Symbol)).map _ = _ ↔ _
  cases Word.isIdentifier entry.name.toList with
  | false => simp [Except.map]
  | true =>
    cases packages.contains entry.package with
    | false => simp [Except.map]
    | true =>
      cases Word.isIdentifier entry.exported.toList with
      | false => simp [Except.map]
      | true =>
        cases found : symbols.find? (·.name = entry.name) with
        | none => simp [Except.map, SymbolEntry.toSymbol, SymbolEntry.exported, eq_comm (a := next)]
        | some first =>
          simp only [SymbolEntry.exported]
          by_cases package : first.package = entry.package
          · by_cases exported : first.exported = entry.rename.getD entry.name <;>
              simp [package, exported, Except.map, eq_comm (a := next)]
          · simp [package, Except.map]

private theorem addSymbol_symbolsOf {packages : Dict Package} {seen : List SymbolEntry}
    (agree : ∀ a ∈ seen, ∀ b ∈ seen,
      a.name = b.name → a.package = b.package ∧ a.exported = b.exported)
    {entry : SymbolEntry} {next : List Symbol} :
    addSymbol packages (symbolsOf seen) entry = .ok next ↔
      (Word.isIdentifier entry.name.toList ∧ packages.contains entry.package ∧
        Word.isIdentifier entry.exported.toList) ∧
      (∀ a ∈ seen, a.name = entry.name → a.package = entry.package ∧ a.exported = entry.exported) ∧
      next = symbolsOf (seen ++ [entry]) := by
  rw [addSymbol_eq_ok_iff, symbolsOf_append]
  refine and_congr_right fun _ => and_congr_left fun _ => ?_
  constructor
  · intro all a member same
    refine all a.toSymbol ?_
    rw [find?_key_eq_some_iff (symbolsOf_distinct seen), mem_symbolsOf_iff agree]
    exact ⟨⟨a, member, rfl⟩, same⟩
  · intro all symbol found
    obtain ⟨listed, named⟩ := (find?_key_eq_some_iff (symbolsOf_distinct seen)).1 found
    obtain ⟨a, member, rfl⟩ := (mem_symbolsOf_iff agree).1 listed
    exact all a member named

private theorem foldlM_addSymbol_eq_ok_iff {packages : Dict Package} {entries : List SymbolEntry}
    {symbols : List Symbol} :
    entries.foldlM (addSymbol packages) [] = .ok symbols ↔
      (∀ entry ∈ entries, Word.isIdentifier entry.name.toList ∧
        packages.contains entry.package ∧ Word.isIdentifier entry.exported.toList) ∧
      (∀ a ∈ entries, ∀ b ∈ entries,
        a.name = b.name → a.package = b.package ∧ a.exported = b.exported) ∧
      symbols = symbolsOf entries :=
  foldlM_eq_ok_iff (fun _ _ => ⟨rfl, rfl⟩)
    (fun _ _ same named => (same named.symm).imp Eq.symm Eq.symm)
    fun _ _ _ agree => addSymbol_symbolsOf agree

theorem checkExports_eq_ok_iff {seen symbols : List Symbol} :
    checkExports seen symbols = .ok () ↔ symbols.Pairwise Symbol.Apart ∧
      ∀ a ∈ seen, ∀ b ∈ symbols, a.Apart b := by
  induction symbols generalizing seen with
  | nil => simp [checkExports]
  | cons symbol rest ih =>
    rw [checkExports]
    cases found : seen.find? fun other =>
        other.package = symbol.package ∧ other.exported = symbol.exported with
    | some first =>
      have matched := List.find?_some found
      have same := of_decide_eq_true matched
      simp only [reduceCtorEq, false_iff]
      rintro ⟨-, apart⟩
      exact apart first (List.mem_of_find?_eq_some found) symbol List.mem_cons_self same.1 same.2
    | none =>
      have apart : ∀ other ∈ seen, other.Apart symbol := fun other member package exported =>
        List.find?_eq_none.1 found other member (decide_eq_true ⟨package, exported⟩)
      simp only [ih, List.pairwise_cons, List.forall_mem_append, List.forall_mem_singleton,
        List.forall_mem_cons]
      constructor
      · rintro ⟨pairs, before, first⟩
        exact ⟨⟨first, pairs⟩, fun a member => ⟨apart a member, before a member⟩⟩
      · rintro ⟨⟨first, pairs⟩, before⟩
        exact ⟨pairs, fun a member => (before a member).2, first⟩

private theorem checkExports_symbolsOf {entries : List SymbolEntry}
    (agree : ∀ a ∈ entries, ∀ b ∈ entries,
    a.name = b.name → a.package = b.package ∧ a.exported = b.exported) :
    checkExports [] ((symbolsOf entries).mergeSort Symbol.precedes) = .ok () ↔
      ∀ a ∈ entries, ∀ b ∈ entries, a.name ≠ b.name → a.package = b.package →
        a.exported ≠ b.exported := by
  have sorted : ((symbolsOf entries).mergeSort Symbol.precedes).Pairwise Symbol.Apart ↔
      (symbolsOf entries).Pairwise Symbol.Apart :=
    (List.mergeSort_perm _ _).pairwise_iff Symbol.Apart.symm
  rw [checkExports_eq_ok_iff, sorted, and_iff_left (by simp)]
  constructor
  · intro apart a first b second different
    exact apart.forall ((mem_symbolsOf_iff agree).2 ⟨a, first, rfl⟩)
      ((mem_symbolsOf_iff agree).2 ⟨b, second, rfl⟩) fun same =>
        different (congrArg Symbol.name same)
  · intro apart
    refine (symbolsOf_distinct entries).imp_of_mem fun first second different => ?_
    obtain ⟨a, memberA, rfl⟩ := (mem_symbolsOf_iff agree).1 first
    obtain ⟨b, memberB, rfl⟩ := (mem_symbolsOf_iff agree).1 second
    exact apart a memberA b memberB different

end Symbols

private theorem exists_readGlobs_iff {texts : List String} :
    (∃ globs, readGlobs texts = .ok globs) ↔
    ∀ text ∈ texts, ∃ glob, Glob.parse text.toList = .ok glob := by
  induction texts with
  | nil => simp [readGlobs]
  | cons text texts ih =>
    rw [readGlobs, List.forall_mem_cons, ← ih]
    cases Glob.parse text.toList with
    | error problem => simp
    | ok glob => cases readGlobs texts <;> simp [Except.map]

def tableOf (config : Config) (excludes : List Glob) : Table where
  modulePath := trimModule config.modulePath
  packages := packagesOf (trimModule config.modulePath) config.packages
  files := filesOf config.source config.files
  symbols := (symbolsOf config.symbols).mergeSort Symbol.precedes
  excludes := excludes
  includeTests := config.includeTests

theorem load_eq_ok_iff_isConsistent {config : Config} {table : Table} :
    load config = .ok table ↔ config.IsConsistent ∧
      ∃ globs, readGlobs config.exclude = .ok globs ∧ table = tableOf config globs := by
  rw [load_eq_ok_iff]
  constructor
  · rintro ⟨path, packaged, filed, ⟨unordered, listed, sorted⟩, checked, read, tests⟩
    obtain ⟨proper, packagesAgree, packages⟩ := foldlM_addPackage_eq_ok_iff.1 packaged
    obtain ⟨filesKnown, filesAgree, files⟩ := foldlM_addFile_eq_ok_iff.1 filed
    obtain ⟨symbolsProper, symbolsAgree, rfl⟩ := foldlM_addSymbol_eq_ok_iff.1 listed
    rw [sorted, checkExports_symbolsOf symbolsAgree] at checked
    simp only [packages, contains_packagesOf] at filesKnown symbolsProper
    refine ⟨⟨proper, packagesAgree, filesKnown, filesAgree,
      fun entry member => ⟨(symbolsProper entry member).1, (symbolsProper entry member).2.2⟩,
      fun entry member => (symbolsProper entry member).2.1, symbolsAgree, checked⟩,
      _, read, ?_⟩
    rw [tableOf, ← packages, ← files, ← sorted, ← path, ← tests]
  · rintro ⟨consistent, globs, read, rfl⟩
    refine ⟨rfl, foldlM_addPackage_eq_ok_iff.2 ⟨consistent.packagesProper,
        consistent.packagesAgree, rfl⟩, foldlM_addFile_eq_ok_iff.2 ⟨?_, consistent.filesAgree, rfl⟩,
      ⟨_, foldlM_addSymbol_eq_ok_iff.2 ⟨?_, consistent.symbolsAgree, rfl⟩, rfl⟩,
      (checkExports_symbolsOf consistent.symbolsAgree).2 consistent.exportsApart, read, rfl⟩
    · exact fun entry member => contains_packagesOf.2 (consistent.filesKnown entry member)
    · exact fun entry member => ⟨(consistent.symbolsNamed entry member).1,
        contains_packagesOf.2 (consistent.symbolsKnown entry member),
        (consistent.symbolsNamed entry member).2⟩

/-- A mapping whose globs can be read is accepted exactly when it is consistent. -/
theorem load_succeeds_iff {config : Config} (readable : ∀ pattern ∈ config.exclude,
    ∃ glob, Glob.parse pattern.toList = .ok glob) :
    (∃ table, load config = .ok table) ↔ config.IsConsistent := by
  obtain ⟨globs, read⟩ := exists_readGlobs_iff.2 readable
  constructor
  · rintro ⟨table, loaded⟩
    exact (load_eq_ok_iff_isConsistent.1 loaded).1
  · intro consistent
    exact ⟨_, load_eq_ok_iff_isConsistent.2 ⟨consistent, globs, read, rfl⟩⟩

/-- A mapping that says some things twice, in other spellings of the paths. -/
def sandbarConfig : Config where
  modulePath := " example.org/m/ "
  source := "old"
  exclude := ["gen/**"]
  packages := [⟨none, "lib/base", none⟩, ⟨some "base", "./lib/base/", none⟩,
    ⟨some "drive", "", some "example.org/drive"⟩]
  files := [⟨"x.go", "base"⟩, ⟨"./x.go", "base"⟩]
  symbols := [⟨"handle", "base", some "Handle"⟩, ⟨"Run", "base", none⟩, ⟨"Run", "base", some "Run"⟩,
    ⟨"start", "drive", some "Handle"⟩]

theorem sandbar_accepted : (∀ pattern ∈ sandbarConfig.exclude,
      ∃ glob, Glob.parse pattern.toList = .ok glob) ∧
    ∃ table, load sandbarConfig = .ok table := by
  have readable : ∀ pattern ∈ sandbarConfig.exclude,
      ∃ glob, Glob.parse pattern.toList = .ok glob := by
    intro pattern member
    obtain rfl := List.mem_singleton.1 member
    have accepted : (Glob.parse "gen/**".toList).isOk := by decide +kernel
    cases parsed : Glob.parse "gen/**".toList with
    | error problem =>
      rw [parsed] at accepted
      cases accepted
    | ok glob => exact ⟨glob, rfl⟩
  exact ⟨readable, (load_succeeds_iff readable).2 (by decide +kernel)⟩

end Table

end Repackage
