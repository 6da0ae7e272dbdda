import Repackage.Mapping.Index
import Repackage.Proofs.TableCoherence

/-!
The table in memory answers as the checked mapping does. Both are filled entry by entry, and at
every step the maps hold what a search among the entries so far finds; so both refuse a mapping for
the same reason, and nothing that is asked of a map is missing. How the names of the symbols are
listed before they are sorted does not matter. Of the library for globs nothing is assumed for that.
Where it reads and matches as the globs here do, the same paths are left out.
-/

set_option autoImplicit false
set_option relaxedAutoImplicit false

namespace Repackage

section Alike

/-- Two attempts fail for one reason, or both succeed with results that are related. -/
inductive Alike {ε α β : Type} (related : α → β → Prop) : Except ε α → Except ε β → Prop where
  | error (e : ε) : Alike related (.error e) (.error e)
  | ok {a : α} {b : β} (holds : related a b) : Alike related (.ok a) (.ok b)

variable {ε α β γ δ ι : Type} {related : α → β → Prop} {next : γ → δ → Prop}
  {first : Except ε α} {second : Except ε β}

theorem Alike.refl (attempt : Except ε α) : Alike Eq attempt attempt := by
  cases attempt with
  | error e => exact .error e
  | ok a => exact .ok rfl

theorem Alike.imp {weaker : α → β → Prop} (alike : Alike related first second)
    (implies : ∀ a b, related a b → weaker a b) : Alike weaker first second := by
  cases alike with
  | error e => exact .error e
  | ok holds => exact .ok (implies _ _ holds)

theorem Alike.trans {third : Except ε γ} {also : β → γ → Prop} (alike : Alike related first second)
    (after : Alike also second third) :
    Alike (fun a c => ∃ b, related a b ∧ also b c) first third := by
  cases alike with
  | error e =>
    cases after
    exact .error e
  | ok holds =>
    cases after with
    | ok later => exact .ok ⟨_, holds, later⟩

theorem Alike.map {f : α → γ} {g : β → δ} (alike : Alike related first second)
    (step : ∀ a b, related a b → next (f a) (g b)) : Alike next (first.map f) (second.map g) := by
  cases alike with
  | error e => exact .error e
  | ok holds => exact .ok (step _ _ holds)

theorem Alike.bind {f : α → Except ε γ} {g : β → Except ε δ} (alike : Alike related first second)
    (step : ∀ a b, related a b → Alike next (f a) (g b)) :
    Alike next (first >>= f) (second >>= g) := by
  cases alike with
  | error e => exact .error e
  | ok holds => exact step _ _ holds

theorem Alike.foldlM {f : α → ι → Except ε α} {g : β → ι → Except ε β}
    (step : ∀ a b entry, related a b → Alike related (f a entry) (g b entry)) {a : α} {b : β}
    (holds : related a b) (entries : List ι) :
    Alike related (entries.foldlM f a) (entries.foldlM g b) := by
  induction entries generalizing a b with
  | nil => exact .ok holds
  | cons entry entries ih =>
    rw [List.foldlM_cons, List.foldlM_cons]
    exact (step a b entry holds).bind fun a b => ih

def Follows (related : α → β → Prop) (first : ExceptT ε Option α) (second : Except ε β) : Prop :=
  ∃ result, first.run = some result ∧ Alike related result second

theorem Alike.follows (alike : Alike related first second) :
    Follows related (liftExcept first) second := by
  refine ⟨first, ?_, alike⟩
  cases first <;> rfl

theorem Follows.bind {first : ExceptT ε Option α} {f : α → ExceptT ε Option γ}
    {g : β → Except ε δ} (follows : Follows related first second)
    (step : ∀ a b, related a b → Follows next (f a) (g b)) :
    Follows next (first >>= f) (second >>= g) := by
  obtain ⟨result, done, alike⟩ := follows
  have run : (first >>= f).run = some result >>= ExceptT.bindCont f :=
    congrArg (· >>= ExceptT.bindCont f) done
  cases alike with
  | error e => exact ⟨.error e, run, .error e⟩
  | @ok a b holds =>
    obtain ⟨after, through, later⟩ := step a b holds
    exact ⟨after, run.trans through, later⟩

end Alike

namespace Table

variable {modulePath : String} {packages : Dict Package}

private theorem newPackage_eq_some {named? : String → Option Package}
    {placed? : String → Option String} {entry : PackageEntry} {package : Package}
    (new : newPackage modulePath named? placed? entry = .ok (some package)) :
    named? package.name = none ∧ placed? package.dir = none := by
  unfold newPackage at new
  split at new
  · cases new
  · next resolved _ =>
    split at new
    · split_ifs at new
      cases new
    · next absent =>
      split at new
      · cases new
      · next free =>
        obtain rfl := Option.some.inj (Except.ok.inj new)
        exact ⟨absent, free⟩

private theorem newSymbol_eq_some {named? : String → Option Symbol} {entry : SymbolEntry}
    {symbol : Symbol}
    (new : newSymbol packages named? entry = .ok (some symbol)) : named? symbol.name = none := by
  simp only [newSymbol] at new
  split_ifs at new
  split at new
  · split_ifs at new
    cases new
  · next absent =>
    obtain rfl := Option.some.inj (Except.ok.inj new)
    exact absent

private theorem load_eq_bind (config : Config) : load config =
    (load { config with exclude := [] }) >>= fun table =>
      (readGlobs config.exclude).map fun globs => { table with excludes := globs } := by
  simp only [load, bind_assoc, readGlobs, pure_bind]
  rfl

end Table

namespace Index

section Packages

variable {maps : Dict Package × Std.HashMap String String} {packages : Dict Package}

/-- The directories of packages that are kept by name. -/
structure HoldsPackages (maps : Dict Package × Std.HashMap String String)
    (packages : Dict Package) : Prop where
  same : maps.1 = packages
  named : ∀ name package, packages.find? name = some package → package.name = name
  placed : ∀ dir name, maps.2[dir]? = some name ↔
    ∃ package, packages.find? name = some package ∧ package.dir = dir

private theorem HoldsPackages.find?_dir (holds : HoldsPackages maps packages) (dir : String) :
    (packages.values.find? (·.dir = dir)).map (·.name) = maps.2[dir]? := by
  cases found : packages.values.find? (·.dir = dir) with
  | some package =>
    obtain ⟨name, known⟩ := Dict.mem_values_iff.1 (List.mem_of_find?_eq_some found)
    have placed : package.dir = dir := by simpa using List.find?_some found
    refine ((holds.placed dir package.name).2 ⟨package, ?_, placed⟩).symm
    rw [holds.named name package known, known]
  | none =>
    rw [Option.map_none, eq_comm, Option.eq_none_iff_forall_ne_some]
    intro name known
    obtain ⟨package, member, placed⟩ := (holds.placed dir name).1 known
    exact List.find?_eq_none.1 found package (Dict.mem_values_of_find? member)
      (by simpa using placed)

theorem HoldsPackages.insert (holds : HoldsPackages maps packages) {package : Package}
    (absent : packages.find? package.name = none) (free : maps.2[package.dir]? = none) :
    HoldsPackages (maps.1.insert package.name package, maps.2.insert package.dir package.name)
      (packages.insert package.name package) := by
  refine ⟨congrArg (·.insert package.name package) holds.same, fun name other found => ?_,
    fun dir name => ?_⟩
  · rw [Dict.find?_insert] at found
    split_ifs at found with same
    · obtain rfl := Option.some.inj found
      exact same.symm
    · exact holds.named name other found
  · simp only [Dict.find?_insert, Std.HashMap.getElem?_insert, beq_iff_eq]
    split_ifs with here same same
    · subst here same
      simp
    · subst here
      simp only [Option.some.injEq, Ne.symm same, false_iff]
      rintro ⟨other, known, placed⟩
      rw [(holds.placed package.dir name).2 ⟨other, known, placed⟩] at free
      cases free
    · subst same
      simp only [Option.some.injEq, exists_eq_left', here, iff_false]
      intro known
      obtain ⟨other, member, -⟩ := (holds.placed dir package.name).1 known
      rw [absent] at member
      cases member
    · exact holds.placed dir name

private theorem alike_addPackage (modulePath : String) (holds : HoldsPackages maps packages)
    (entry : PackageEntry) : Alike HoldsPackages (addPackage modulePath maps entry)
      (Table.addPackage modulePath packages entry) := by
  have placed : (fun dir => (packages.values.find? (·.dir = dir)).map (·.name)) =
      fun dir => maps.2[dir]? := funext holds.find?_dir
  rw [addPackage, Table.addPackage, placed, holds.same]
  cases new : Table.newPackage modulePath packages.find? (fun dir => maps.2[dir]?) entry with
  | error e => exact .error e
  | ok new? =>
    cases new? with
    | none => exact .ok holds
    | some package =>
      obtain ⟨absent, free⟩ := Table.newPackage_eq_some new
      have more := holds.insert absent free
      rw [holds.same] at more
      exact .ok more

private theorem HoldsPackages.bind_dir (holds : HoldsPackages maps packages) (dir : String) :
    maps.2[dir]?.bind packages.find? = packages.values.find? (·.dir = dir) := by
  rw [← holds.find?_dir]
  cases found : packages.values.find? (·.dir = dir) with
  | none => rfl
  | some package =>
    obtain ⟨name, known⟩ := Dict.mem_values_iff.1 (List.mem_of_find?_eq_some found)
    rw [Option.map_some, Option.bind_some, holds.named name package known, known]

end Packages

section Symbols

variable {map : Std.HashMap String Symbol} {symbols : List Symbol}

/-- A map with the symbols of a list by their names. -/
structure HoldsSymbols (map : Std.HashMap String Symbol) (symbols : List Symbol) : Prop where
  distinct : symbols.Pairwise fun a b => a.name ≠ b.name
  named : ∀ name, map[name]? = symbols.find? (·.name = name)

theorem HoldsSymbols.getElem?_eq_some_iff (holds : HoldsSymbols map symbols) {name : String}
    {symbol : Symbol} : map[name]? = some symbol ↔ symbol ∈ symbols ∧ symbol.name = name := by
  rw [holds.named]
  exact Table.find?_key_eq_some_iff holds.distinct

private theorem alike_addSymbol (packages : Dict Package) (holds : HoldsSymbols map symbols)
    (entry : SymbolEntry) : Alike HoldsSymbols (addSymbol packages map entry)
      (Table.addSymbol packages symbols entry) := by
  rw [addSymbol, Table.addSymbol, ← funext holds.named]
  cases new : Table.newSymbol packages (fun name => map[name]?) entry with
  | error e => exact .error e
  | ok new? =>
    cases new? with
    | none =>
      refine .ok ?_
      change HoldsSymbols map (symbols ++ [])
      rwa [List.append_nil]
    | some symbol =>
      have absent := Table.newSymbol_eq_some new
      rw [holds.named, List.find?_eq_none] at absent
      refine .ok ⟨List.pairwise_append.2 ⟨holds.distinct, List.pairwise_singleton _ _, ?_⟩,
        fun name => ?_⟩
      · intro other member last among same
        obtain rfl := List.mem_singleton.1 among
        exact absent other member (decide_eq_true same)
      · change (map.insert symbol.name symbol)[name]? =
          (symbols ++ [symbol]).find? fun other => other.name = name
        rw [Std.HashMap.getElem?_insert, List.find?_append, holds.named]
        by_cases here : symbol.name = name
        · subst here
          simp [List.find?_eq_none.2 absent]
        · simp [here]

private theorem HoldsSymbols.mergeSort_keys (holds : HoldsSymbols map symbols) :
    map.keys.mergeSort precedes = (symbols.mergeSort Symbol.precedes).map Symbol.name := by
  have listed : map.keys.Perm (symbols.map Symbol.name) := by
    refine (List.perm_ext_iff_of_nodup Std.HashMap.nodup_keys
      (List.pairwise_map.2 holds.distinct)).2 fun name => ?_
    rw [Std.HashMap.mem_keys, Std.HashMap.mem_iff_isSome_getElem?, Option.isSome_iff_exists,
      List.mem_map]
    exact exists_congr fun symbol => holds.getElem?_eq_some_iff
  have sorted (names : List String) : (names.mergeSort precedes).Pairwise fun a b => precedes a b :=
    List.pairwise_mergeSort
      (fun a b c => @Symbol.precedes_trans ⟨a, "", ""⟩ ⟨b, "", ""⟩ ⟨c, "", ""⟩)
      (fun a b => Symbol.precedes_total ⟨a, "", ""⟩ ⟨b, "", ""⟩) names
  have permuted : (map.keys.mergeSort precedes).Perm
      ((symbols.mergeSort Symbol.precedes).map Symbol.name) :=
    ((List.mergeSort_perm _ _).trans listed).trans ((List.mergeSort_perm _ _).map _).symm
  refine permuted.eq_of_pairwise (fun a b _ _ first second => ?_) (sorted _)
    (List.pairwise_map.2 (Symbol.pairwise_mergeSort_precedes symbols))
  exact @Symbol.name_eq_of_precedes ⟨a, "", ""⟩ ⟨b, "", ""⟩ first second

theorem HoldsSymbols.mergeSort (holds : HoldsSymbols map symbols) :
    HoldsSymbols map (symbols.mergeSort Symbol.precedes) := by
  have perm := List.mergeSort_perm symbols Symbol.precedes
  have distinct : (symbols.mergeSort Symbol.precedes).Pairwise fun a b => a.name ≠ b.name :=
    (perm.pairwise_iff Ne.symm).2 holds.distinct
  refine ⟨distinct, fun name => ?_⟩
  ext symbol
  rw [holds.getElem?_eq_some_iff, Table.find?_key_eq_some_iff distinct, perm.mem_iff]

private theorem HoldsSymbols.mapM_names (holds : HoldsSymbols map symbols) :
    (symbols.map Symbol.name).mapM (fun name => map[name]?) = some symbols := by
  have known : ∀ symbol ∈ symbols, map[symbol.name]? = some symbol := fun symbol member =>
    holds.getElem?_eq_some_iff.2 ⟨member, rfl⟩
  clear holds
  induction symbols with
  | nil => rfl
  | cons symbol symbols ih =>
    obtain ⟨first, later⟩ := List.forall_mem_cons.1 known
    simp [List.mapM_cons, first, ih later]

private theorem HoldsSymbols.isEmpty_eq (holds : HoldsSymbols map symbols) :
    map.isEmpty = symbols.isEmpty := by
  rw [Bool.eq_iff_iff, Std.HashMap.isEmpty_iff_forall_not_mem, List.isEmpty_iff]
  constructor
  · intro none
    refine List.eq_nil_iff_forall_not_mem.2 fun symbol member => none symbol.name ?_
    rw [Std.HashMap.mem_iff_isSome_getElem?, holds.getElem?_eq_some_iff.2 ⟨member, rfl⟩]
    rfl
  · rintro rfl name
    rw [Std.HashMap.mem_iff_isSome_getElem?, holds.named]
    simp

end Symbols

section Exports

variable {map : Std.HashMap String Symbol} {exported : Std.HashMap (String × String) String}
  {seen symbols : List Symbol}

def HoldsExports (exported : Std.HashMap (String × String) String) (symbols : List Symbol) : Prop :=
  ∀ package name, exported[(package, name)]? =
    (symbols.find? fun symbol => symbol.package = package ∧ symbol.exported = name).map (·.name)

theorem HoldsExports.insert (holds : HoldsExports exported seen) {symbol : Symbol}
    (free : exported[(symbol.package, symbol.exported)]? = none) :
    HoldsExports (exported.insert (symbol.package, symbol.exported) symbol.name)
      (seen ++ [symbol]) := by
  intro package name
  rw [Std.HashMap.getElem?_insert, List.find?_append, holds]
  by_cases here : symbol.package = package ∧ symbol.exported = name
  · obtain ⟨rfl, rfl⟩ := here
    rw [holds, Option.map_eq_none_iff] at free
    rw [free]
    simp
  · have elsewhere : ((symbol.package, symbol.exported) == (package, name)) = false := by
      simpa using here
    simp [elsewhere, here]

private theorem follows_foldlM_addExport (holds : HoldsExports exported seen)
    (known : ∀ symbol ∈ symbols, map[symbol.name]? = some symbol) :
    Follows (fun exported _ => HoldsExports exported (seen ++ symbols))
      ((symbols.map Symbol.name).foldlM (addExport map) exported)
      (Table.checkExports seen symbols) := by
  induction symbols generalizing exported seen with
  | nil => exact ⟨_, rfl, .ok (by rwa [List.append_nil])⟩
  | cons symbol symbols ih =>
    obtain ⟨first, later⟩ := List.forall_mem_cons.1 known
    have before := holds symbol.package symbol.exported
    simp only [List.map_cons, List.foldlM_cons, addExport, first, Table.checkExports]
    cases taken : exported[(symbol.package, symbol.exported)]? with
    | some name =>
      rw [taken] at before
      obtain ⟨other, found, rfl⟩ := Option.map_eq_some_iff.1 before.symm
      rw [found]
      exact ⟨_, rfl, .error _⟩
    | none =>
      rw [taken, eq_comm, Option.map_eq_none_iff] at before
      obtain ⟨result, done, alike⟩ := ih (holds.insert taken) later
      rw [List.append_assoc] at alike
      rw [before]
      exact ⟨result, done, alike⟩

end Exports

variable {library : GlobLibrary}

/-- A table in memory has the answers of another one to whatever is asked of it, but for the paths
that are left out. -/
structure Represents (index : Index library) (table : Table) : Prop where
  modulePath : index.modulePath = table.modulePath
  packages : index.packages = table.packages
  files : index.files = table.files
  includeTests : index.includeTests = table.includeTests
  directories : ∀ dir, index.packageOfDir? dir = table.packageOfDir? dir
  symbols : ∀ name, index.symbols[name]? = table.symbol? name
  destinations : ∀ name, index.packageOfSymbol? name = table.packageOfSymbol? name
  precedence : index.symbolList? = some table.symbols
  exported : ∀ package name, index.exports package name = table.exports package name
  empty : index.isEmpty = table.isEmpty

private theorem represents_of_holds {index : Index library} {table : Table}
    {unordered : List Symbol}
    (modulePath : index.modulePath = table.modulePath) (files : index.files = table.files)
    (includeTests : index.includeTests = table.includeTests)
    (packages : HoldsPackages (index.packages, index.byDir) table.packages)
    (symbols : HoldsSymbols index.symbols unordered)
    (sorted : table.symbols = unordered.mergeSort Symbol.precedes)
    (precedence : index.precedence = index.symbols.keys.mergeSort precedes)
    (exported : HoldsExports index.exported table.symbols) : index.Represents table := by
  have ordered := symbols.mergeSort
  rw [← sorted] at ordered
  have same : index.packages = table.packages := packages.same
  refine ⟨modulePath, same, files, includeTests, fun dir => ?_, ordered.named, fun name => ?_, ?_,
    fun package name => ?_, ?_⟩
  · rw [packageOfDir?, same]
    exact packages.bind_dir (Path.normalize dir)
  · rw [packageOfSymbol?, ordered.named, same]
    rfl
  · rw [symbolList?, precedence, symbols.mergeSort_keys, ← sorted]
    exact ordered.mapM_names
  · rw [exports, Std.HashMap.contains_eq_isSome_getElem?, exported, Option.isSome_map,
      List.isSome_find?]
    rfl
  · rw [isEmpty, ordered.isEmpty_eq, files]
    rfl

/-- A mapping is refused for one reason, whether it is kept in maps or not, or is accepted in both
cases; then the maps answer as the table does. What the library does with the globs comes after
everything else. -/
private theorem follows_load (library : GlobLibrary) (config : Config) :
    Follows (fun index made => index.Represents made.1 ∧ index.excludes = made.2)
      (load library config)
      ((Table.load { config with exclude := [] }) >>= fun table =>
        (library.readAll config.exclude).map fun excludes => (table, excludes)) := by
  have packaged : Alike HoldsPackages
      (config.packages.foldlM (addPackage (Table.trimModule config.modulePath)) (.empty, ∅))
      (config.packages.foldlM (Table.addPackage (Table.trimModule config.modulePath)) .empty) :=
    .foldlM (fun maps packages entry holds => alike_addPackage _ holds entry)
      ⟨rfl, by simp, by simp⟩ config.packages
  simp only [load, Table.load, bind_assoc, Table.readGlobs]
  refine packaged.follows.bind fun maps packages held => ?_
  obtain rfl := held.same
  have filed := Alike.refl (config.files.foldlM (Table.addFile config.source maps.1) .empty)
  refine filed.follows.bind fun files _ same => ?_
  subst same
  have listed : Alike HoldsSymbols (config.symbols.foldlM (addSymbol maps.1) ∅)
      (config.symbols.foldlM (Table.addSymbol maps.1) []) :=
    .foldlM (fun map symbols entry holds => alike_addSymbol maps.1 holds entry)
      ⟨.nil, by simp⟩ config.symbols
  refine listed.follows.bind fun map symbols named => ?_
  have checked : Follows
      (fun exported _ => HoldsExports exported (symbols.mergeSort Symbol.precedes))
      ((map.keys.mergeSort precedes).foldlM (addExport map) ∅)
      (Table.checkExports [] (symbols.mergeSort Symbol.precedes)) := by
    have none : HoldsExports ∅ [] := fun _ _ => by simp
    rw [named.mergeSort_keys]
    exact follows_foldlM_addExport none fun symbol member =>
      named.mergeSort.getElem?_eq_some_iff.2 ⟨member, rfl⟩
  refine checked.bind fun exported _ exports => ?_
  have globs := Alike.refl (library.readAll config.exclude)
  refine globs.follows.bind fun excludes _ same => ?_
  subst same
  exact ⟨_, rfl, .ok ⟨represents_of_holds rfl rfl rfl held named rfl rfl exports, rfl⟩⟩

end Index

namespace GlobLibrary

/-- A library reads the same globs and says the same about the others, and a set of globs matches
what one of them matches. -/
structure Serves (library : GlobLibrary) : Prop where
  refuses : ∀ text problem, Glob.parse text.toList = .error problem →
    library.read text = .error (problem.messageAbout text)
  reads : ∀ text glob, Glob.parse text.toList = .ok glob → ∃ parsed, library.read text = .ok parsed
  builds : ∀ texts parsed globs, texts.mapM library.read = .ok parsed →
    Table.readGlobs texts = .ok globs → ∃ excludes, library.build parsed = .ok excludes ∧
      ∀ path, library.isMatch excludes path = globs.any (·.accepts path)

variable {library : GlobLibrary}

private theorem Serves.alike_mapM (serves : library.Serves) (texts : List String) :
    Alike (fun parsed _ => texts.mapM library.read = .ok parsed)
      (texts.mapM fun text => (library.read text).mapError (ConfigError.invalidGlob text))
      (Table.readGlobs texts) := by
  induction texts with
  | nil => exact .ok rfl
  | cons text texts ih =>
    simp only [List.mapM_cons, Table.readGlobs]
    cases parsed : Glob.parse text.toList with
    | error problem =>
      rw [serves.refuses text problem parsed]
      exact .error _
    | ok glob =>
      obtain ⟨first, read⟩ := serves.reads text glob parsed
      rw [read]
      refine ih.bind fun later globs done => .ok ?_
      rw [done]
      rfl

private theorem Serves.alike_readAll (serves : library.Serves) (texts : List String) :
    Alike (fun excludes globs => ∀ path,
        library.isMatch excludes path = globs.any (·.accepts path))
      (library.readAll texts) (Table.readGlobs texts) := by
  have alike := serves.alike_mapM texts
  rw [readAll]
  generalize texts.mapM (fun text =>
    (library.read text).mapError (ConfigError.invalidGlob text)) = ours at alike ⊢
  cases read : Table.readGlobs texts with
  | error e =>
    rw [read] at alike
    cases alike
    exact .error e
  | ok globs =>
    rw [read] at alike
    cases alike with
    | @ok parsed _ done =>
      obtain ⟨excludes, built, matched⟩ := serves.builds texts parsed globs done read
      change Alike _ ((library.build parsed).mapError _) _
      rw [built]
      exact .ok matched

/-- The globs that are defined here. -/
def own : GlobLibrary where
  Parsed := Glob
  Set := List Glob
  read text := (Glob.parse text.toList).mapError (·.messageAbout text)
  build := .ok
  isMatch globs path := globs.any (·.accepts path)

private theorem own_read (text : String) :
    own.read text = (Glob.parse text.toList).mapError (·.messageAbout text) := rfl

private theorem mapM_own_read {texts : List String} {globs : List Glob}
    (read : Table.readGlobs texts = .ok globs) : texts.mapM own.read = .ok globs := by
  induction texts generalizing globs with
  | nil =>
    obtain rfl : [] = globs := Except.ok.inj read
    rfl
  | cons text texts ih =>
    rw [Table.readGlobs] at read
    rw [List.mapM_cons, own_read]
    cases parsed : Glob.parse text.toList with
    | error problem =>
      rw [parsed] at read
      cases read
    | ok glob =>
      rw [parsed] at read
      cases later : Table.readGlobs texts with
      | error e =>
        rw [later] at read
        cases read
      | ok others =>
        rw [later] at read
        obtain rfl : glob :: others = globs := Except.ok.inj read
        rw [ih later]
        rfl

theorem serves_own : own.Serves := by
  refine ⟨fun text problem refused => ?_, fun text glob parsed => ⟨glob, ?_⟩, ?_⟩
  · rw [own_read, refused]
    rfl
  · rw [own_read, parsed]
    rfl
  · intro texts parsed globs done read
    obtain rfl : globs = parsed := Except.ok.inj ((mapM_own_read read).symm.trans done)
    exact ⟨globs, rfl, fun path => rfl⟩

end GlobLibrary

/-- With a library that serves the globs that are defined here, the table in memory is made from
the same mappings, has all the answers of the checked one, and leaves out the same paths. -/
theorem Index.follows_load_of_serves {library : GlobLibrary} (serves : library.Serves)
    (config : Config) :
    Follows (fun index table => index.Represents table ∧
        ∀ path, index.isExcluded path = table.isExcluded path)
      (load library config) (Table.load config) := by
  obtain ⟨result, done, alike⟩ := follows_load library config
  have globs := serves.alike_readAll config.exclude
  have same : Alike (fun made table =>
      (∀ index : Index library, index.Represents made.1 → index.Represents table) ∧
        ∀ path, library.isMatch made.2 path = table.isExcluded path)
      ((Table.load { config with exclude := [] }) >>= fun table =>
        (library.readAll config.exclude).map fun excludes => (table, excludes))
      (Table.load config) := by
    rw [Table.load_eq_bind config]
    refine (Alike.refl _).bind fun table other same => ?_
    subst same
    exact globs.map fun excludes globs matched => ⟨fun index held => ⟨held.modulePath,
      held.packages, held.files, held.includeTests, held.directories, held.symbols,
      held.destinations, held.precedence, held.exported, held.empty⟩, matched⟩
  refine ⟨result, done, (alike.trans same).imp fun index table made => ?_⟩
  obtain ⟨⟨before, excludes⟩, ⟨held, rfl⟩, carries, matched⟩ := made
  exact ⟨carries index held, matched⟩

end Repackage
