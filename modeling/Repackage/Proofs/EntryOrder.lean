import Repackage.Proofs.Table

/-!
The order of the entries of a mapping. Whether a mapping is accepted does not depend on it, and of
the table only the import paths of packages do: entries for one package are compared in their
directories and not in their import paths, so the first of them decides.
-/

set_option autoImplicit false
set_option relaxedAutoImplicit false

namespace Repackage

/-- Two mappings differ only in the order of their packages, files and symbols. -/
structure Config.Reorders (config other : Config) : Prop where
  packages : config.packages.Perm other.packages
  files : config.files.Perm other.files
  symbols : config.symbols.Perm other.symbols
  modulePath : config.modulePath = other.modulePath
  source : config.source = other.source
  exclude : config.exclude = other.exclude
  includeTests : config.includeTests = other.includeTests

theorem Config.Reorders.symm {config other : Config} (order : config.Reorders other) :
    other.Reorders config :=
  ⟨order.packages.symm, order.files.symm, order.symbols.symm, order.modulePath.symm,
    order.source.symm, order.exclude.symm, order.includeTests.symm⟩

/-- Entries for one package have one import path. -/
def Config.ImportsAgree (config : Config) : Prop :=
  ∀ a ∈ config.packages, ∀ b ∈ config.packages, a.packageName = b.packageName →
    a.importedAs (Table.trimModule config.modulePath) =
      b.importedAs (Table.trimModule config.modulePath)

instance (config : Config) : Decidable config.ImportsAgree :=
  inferInstanceAs (Decidable (∀ a ∈ config.packages, ∀ b ∈ config.packages, _ → _))

private theorem Config.IsConsistent.reordered {config other : Config}
    (consistent : config.IsConsistent) (order : config.Reorders other) : other.IsConsistent := by
  obtain ⟨proper, packagesAgree, filesKnown, filesAgree, named, symbolsKnown, symbolsAgree,
    apart⟩ := consistent
  simp only [order.packages.mem_iff, order.files.mem_iff, order.symbols.mem_iff, order.modulePath,
    order.source] at *
  exact ⟨proper, packagesAgree, filesKnown, filesAgree, named, symbolsKnown, symbolsAgree, apart⟩

namespace Symbol

theorem precedes_iff {a b : Symbol} : a.precedes b ↔ b.name.utf8ByteSize < a.name.utf8ByteSize ∨
    a.name.utf8ByteSize = b.name.utf8ByteSize ∧ a.name ≤ b.name := by
  simp [precedes]

theorem precedes_trans {a b c : Symbol} (first : a.precedes b) (second : b.precedes c) :
    a.precedes c := by
  rw [precedes_iff] at first second ⊢
  rcases first with longer | ⟨same, below⟩
  · exact .inl (by omega)
  · rcases second with longer | ⟨same', below'⟩
    · exact .inl (by omega)
    · exact .inr ⟨same.trans same', String.le_trans below below'⟩

theorem precedes_total (a b : Symbol) : a.precedes b || b.precedes a := by
  rw [Bool.or_eq_true, precedes_iff, precedes_iff]
  rcases Nat.lt_trichotomy a.name.utf8ByteSize b.name.utf8ByteSize with shorter | same | longer
  · exact .inr (.inl shorter)
  · exact (String.le_total a.name b.name).imp (fun below => .inr ⟨same, below⟩)
      fun below => .inr ⟨same.symm, below⟩
  · exact .inl (.inl longer)

theorem pairwise_mergeSort_precedes (symbols : List Symbol) :
    (symbols.mergeSort precedes).Pairwise fun a b => a.precedes b :=
  List.pairwise_mergeSort (fun a b c => @precedes_trans a b c) precedes_total symbols

theorem name_eq_of_precedes {a b : Symbol} (first : a.precedes b) (second : b.precedes a) :
    a.name = b.name := by
  rw [precedes_iff] at first second
  rcases first with longer | ⟨same, below⟩
  · omega
  · rcases second with longer | ⟨-, below'⟩
    · omega
    · exact String.le_antisymm below below'

/-- Symbols with different names are sorted into one list in whatever order they come. -/
theorem mergeSort_perm {symbols others : List Symbol} (perm : symbols.Perm others)
    (distinct : symbols.Pairwise fun a b => a.name ≠ b.name) :
    symbols.mergeSort precedes = others.mergeSort precedes := by
  have listed := List.mergeSort_perm symbols precedes
  have permuted := (listed.trans perm).trans (List.mergeSort_perm others precedes).symm
  refine permuted.eq_of_pairwise ?_ (pairwise_mergeSort_precedes symbols)
    (pairwise_mergeSort_precedes others)
  intro a b first second ab ba
  have found : symbols.find? (·.name = b.name) = some a := (Table.find?_key_eq_some_iff distinct).2
    ⟨listed.subset first, name_eq_of_precedes ab ba⟩
  have found' : symbols.find? (·.name = b.name) = some b := (Table.find?_key_eq_some_iff distinct).2
    ⟨listed.subset (permuted.symm.subset second), rfl⟩
  exact Option.some.inj (found.symm.trans found')

end Symbol

namespace Table

private theorem map_find?_perm {α β κ : Type} [DecidableEq κ] {key : α → κ} {value : α → β}
    {entries others : List α} (perm : entries.Perm others)
    (agree : ∀ a ∈ entries, ∀ b ∈ entries, key a = key b → value a = value b) (k : κ) :
    (entries.find? (key · = k)).map value = (others.find? (key · = k)).map value := by
  have agree' : ∀ a ∈ others, ∀ b ∈ others, key a = key b → value a = value b := by
    simpa only [perm.mem_iff] using agree
  refine Option.ext fun v => ?_
  rw [map_find?_eq_some_iff agree, map_find?_eq_some_iff agree']
  simp only [perm.mem_iff]

private theorem filesOf_perm {source : String} {entries others : List FileEntry}
    (perm : entries.Perm others) (agree : ∀ a ∈ entries, ∀ b ∈ entries,
      Path.join source a.path = Path.join source b.path → a.package = b.package) :
    filesOf source entries = filesOf source others := by
  refine Dict.ext_find? fun path => ?_
  rw [find?_filesOf, find?_filesOf]
  exact map_find?_perm perm agree path

private theorem symbolsOf_perm {entries others : List SymbolEntry} (perm : entries.Perm others)
    (agree : ∀ a ∈ entries, ∀ b ∈ entries,
      a.name = b.name → a.package = b.package ∧ a.exported = b.exported) :
    (symbolsOf entries).Perm (symbolsOf others) := by
  have nodup (entries : List SymbolEntry) : (symbolsOf entries).Nodup :=
    (symbolsOf_distinct entries).imp fun different same => different (congrArg Symbol.name same)
  have agree' : ∀ a ∈ others, ∀ b ∈ others,
      a.name = b.name → a.package = b.package ∧ a.exported = b.exported := by
    simpa only [perm.mem_iff] using agree
  rw [List.perm_ext_iff_of_nodup (nodup entries) (nodup others)]
  intro symbol
  simp only [mem_symbolsOf_iff agree, mem_symbolsOf_iff agree', perm.mem_iff]

section Reordered

variable {config other : Config} {table another : Table}

private theorem tableOf_reordered (consistent : config.IsConsistent) (order : config.Reorders other)
    (globs : List Glob) : tableOf other globs =
      { tableOf config globs with
        packages := packagesOf (trimModule config.modulePath) other.packages } := by
  have files := filesOf_perm order.files consistent.filesAgree
  have symbols := Symbol.mergeSort_perm (symbolsOf_perm order.symbols consistent.symbolsAgree)
    (symbolsOf_distinct config.symbols)
  simp only [tableOf, ← order.modulePath, ← order.source, ← order.includeTests, files, symbols]

private theorem exists_load_reordered (loaded : load config = .ok table)
    (order : config.Reorders other) : ∃ another, load other = .ok another := by
  obtain ⟨consistent, globs, read, -⟩ := load_eq_ok_iff_isConsistent.1 loaded
  exact ⟨_, load_eq_ok_iff_isConsistent.2
    ⟨consistent.reordered order, globs, order.exclude ▸ read, rfl⟩⟩

private theorem eq_of_load_reordered (order : config.Reorders other)
    (loaded : load config = .ok table) (reloaded : load other = .ok another) : config.IsConsistent ∧
      table.packages = packagesOf (trimModule config.modulePath) config.packages ∧
      another = { table with
        packages := packagesOf (trimModule config.modulePath) other.packages } := by
  obtain ⟨consistent, globs, read, rfl⟩ := load_eq_ok_iff_isConsistent.1 loaded
  obtain ⟨-, others, reread, rfl⟩ := load_eq_ok_iff_isConsistent.1 reloaded
  rw [← order.exclude, read] at reread
  obtain rfl := Except.ok.inj reread
  exact ⟨consistent, rfl, tableOf_reordered consistent order globs⟩

/-- The table without the import paths of its packages. -/
def withoutImportPaths (table : Table) : Table :=
  { table with
    packages := table.packages.mapValues fun package => { package with importPath := "" } }

private theorem withoutImportPaths_reordered (order : config.Reorders other)
    (loaded : load config = .ok table) (reloaded : load other = .ok another) :
    table.withoutImportPaths = another.withoutImportPaths := by
  obtain ⟨consistent, packages, rfl⟩ := eq_of_load_reordered order loaded reloaded
  suffices same : table.packages.mapValues _ = Dict.mapValues _ _ by
    rw [withoutImportPaths, withoutImportPaths, same]
  refine Dict.ext_find? fun name => ?_
  rw [packages, Dict.find?_mapValues, Dict.find?_mapValues, find?_packagesOf, find?_packagesOf,
    Option.map_map, Option.map_map]
  refine map_find?_perm order.packages (fun a first b second same => ?_) name
  rw [Function.comp_apply, Function.comp_apply, PackageEntry.toPackage, PackageEntry.toPackage,
    same, (consistent.packagesAgree a first b second).1 same]

private theorem eq_of_importsAgree (agree : config.ImportsAgree) (order : config.Reorders other)
    (loaded : load config = .ok table) (reloaded : load other = .ok another) : another = table := by
  obtain ⟨consistent, packages, rfl⟩ := eq_of_load_reordered order loaded reloaded
  suffices same : table.packages = packagesOf _ other.packages by rw [← same]
  refine Dict.ext_find? fun name => ?_
  rw [packages, find?_packagesOf, find?_packagesOf]
  refine map_find?_perm order.packages (fun a first b second same => ?_) name
  rw [PackageEntry.toPackage, PackageEntry.toPackage, same,
    (consistent.packagesAgree a first b second).1 same, agree a first b second same]

/-- Two tables give the same packages, files and symbols, and the same answers to all queries about
them. -/
structure AnswersLike (table another : Table) : Prop where
  packages : table.packages.values = another.packages.values
  files : table.files.entries = another.files.entries
  symbols : table.symbols = another.symbols
  symbol? : ∀ name, table.symbol? name = another.symbol? name
  packageOfSymbol? : ∀ name, table.packageOfSymbol? name = another.packageOfSymbol? name
  packageOfFile? : ∀ path, table.packageOfFile? path = another.packageOfFile? path
  packageOfDir? : ∀ dir, table.packageOfDir? dir = another.packageOfDir? dir
  exports : ∀ package name, table.exports package name = another.exports package name

theorem AnswersLike.refl (table : Table) : table.AnswersLike table :=
  ⟨rfl, rfl, rfl, fun _ => rfl, fun _ => rfl, fun _ => rfl, fun _ => rfl, fun _ _ => rfl⟩

private theorem toPackage_mem_of_first {entry : PackageEntry} {rest : List PackageEntry}
    (loaded : load config = .ok table) (first : config.packages = entry :: rest) :
    entry.toPackage (trimModule config.modulePath) ∈ table.packages.values := by
  obtain ⟨-, globs, -, rfl⟩ := load_eq_ok_iff_isConsistent.1 loaded
  refine Dict.mem_values_iff.2 ⟨entry.packageName, ?_⟩
  rw [tableOf, find?_packagesOf, first, List.find?_cons_of_pos (by simp), Option.map_some]

private theorem importsAgree_of_alike (loaded : load config = .ok table)
    (alike : ∀ other another, config.Reorders other → load other = .ok another →
      table.AnswersLike another) : config.ImportsAgree := by
  have listed : ∀ entry ∈ config.packages,
      entry.toPackage (trimModule config.modulePath) ∈ table.packages.values := by
    intro entry member
    let other := { config with packages := entry :: config.packages.erase entry }
    have order : config.Reorders other :=
      ⟨List.perm_cons_erase member, .rfl, .rfl, rfl, rfl, rfl, rfl⟩
    obtain ⟨another, reloaded⟩ := exists_load_reordered loaded order
    have placed := toPackage_mem_of_first reloaded rfl
    rwa [← (alike other another order reloaded).packages] at placed
  intro a first b second same
  have found := (package?_eq_some_iff loaded).2 ⟨listed a first, same⟩
  have found' := (package?_eq_some_iff loaded).2 ⟨listed b second, rfl⟩
  exact congrArg Package.importPath (Option.some.inj (found.symm.trans found'))

end Reordered

/-- A mapping is accepted with its entries in any order, and the table is the same but for import
paths. All of it is the same exactly when entries for one package have one import path. -/
theorem alike_in_any_order_iff (config : Config) :
    (∀ other, config.Reorders other →
      ((∃ table, load config = .ok table) ↔ ∃ table, load other = .ok table) ∧
      ∀ table another, load config = .ok table → load other = .ok another →
        table.withoutImportPaths = another.withoutImportPaths) ∧
    ((∀ other, config.Reorders other → ∀ table another, load config = .ok table →
        load other = .ok another → table.AnswersLike another) ↔
      ((∃ table, load config = .ok table) → config.ImportsAgree)) := by
  refine ⟨fun other order => ⟨⟨?_, ?_⟩, ?_⟩, ?_, ?_⟩
  · rintro ⟨table, loaded⟩
    exact exists_load_reordered loaded order
  · rintro ⟨table, loaded⟩
    exact exists_load_reordered loaded order.symm
  · exact fun table another => withoutImportPaths_reordered order
  · rintro alike ⟨table, loaded⟩
    exact importsAgree_of_alike loaded fun other another order =>
      alike other order table another loaded
  · intro agree other order table another loaded reloaded
    obtain rfl := eq_of_importsAgree (agree ⟨table, loaded⟩) order loaded reloaded
    exact .refl _

/-- A mapping with two entries for a package that differ in its import path. -/
def headlandConfig : Config where
  modulePath := "m"
  packages := [⟨some "a", "a", some "x/a"⟩, ⟨some "a", "a", some "y/a"⟩]
  symbols := [⟨"F", "a", none⟩]

theorem headland_depends_on_order : ∃ other table another, headlandConfig.Reorders other ∧
    load headlandConfig = .ok table ∧ load other = .ok another ∧
      table.withoutImportPaths = another.withoutImportPaths ∧ ¬table.AnswersLike another := by
  have accepted : ∃ table, load headlandConfig = .ok table :=
    ⟨_, load_eq_ok_iff_isConsistent.2 ⟨by decide +kernel, _, rfl, rfl⟩⟩
  have differ : ¬headlandConfig.ImportsAgree := by decide +kernel
  obtain ⟨kept, alike⟩ := alike_in_any_order_iff headlandConfig
  by_contra same
  refine differ (alike.1 (fun other order table another loaded reloaded => ?_) accepted)
  by_contra different
  exact same ⟨other, table, another, order, loaded, reloaded,
    (kept other order).2 table another loaded reloaded, different⟩

end Table

end Repackage
