import Repackage.Proofs.ImportNames
import Repackage.Proofs.Requalification
import Repackage.Proofs.Rescanning

/-!
What qualification does to a file, told by the roles of its identifiers: which of them are spelled
anew and how, that the rest of the text stays as it is, and which packages are never imported for
it.
-/

set_option autoImplicit false
set_option relaxedAutoImplicit false

namespace Repackage

namespace Qualification

namespace Scope

/-- The package that a qualifier stands for: that of the last import that binds the name, or the
package of the name where no import binds it. -/
inductive Resolves (scope : Scope) (qualifier : String) (package : Package) : Prop where
  | imported {before after : List Import} {spec : Import}
      (listed : scope.imports = before ++ spec :: after) (binds : spec.localName = some qualifier)
      (last : ∀ later ∈ after, later.localName ≠ some qualifier)
      (known : package ∈ scope.table.packages.values ∧ package.importPath = spec.path)
  | named (unbound : ∀ spec ∈ scope.imports, spec.localName ≠ some qualifier)
      (known : package ∈ scope.table.packages.values ∧ package.name = qualifier)

/-- The identifiers that are spelled anew under an import plan, with their new spellings. -/
inductive Respells (scope : Scope) (plan : ImportPlan) : Identifier → Respelling → Prop where
  /-- A reference to a symbol of another package gets the local name of the package. -/
  | qualified {word : Occurrence} {symbol : Symbol} {package : Package} {name : String}
      (known : symbol ∈ scope.table.symbols ∧ symbol.name = word.name)
      (away : scope.isHome symbol.package = false)
      (owner : package ∈ scope.table.packages.values ∧ package.name = symbol.package)
      (bound : plan.bindings.find? package.importPath = some (.qualified name)) :
      Respells scope plan ⟨word, .reference⟩ ⟨some name.toList, symbol.exported.toList⟩
  /-- Where the package is imported with a dot, only a renamed symbol changes. -/
  | dotted {word : Occurrence} {symbol : Symbol} {package : Package}
      (known : symbol ∈ scope.table.symbols ∧ symbol.name = word.name)
      (away : scope.isHome symbol.package = false)
      (owner : package ∈ scope.table.packages.values ∧ package.name = symbol.package)
      (bound : plan.bindings.find? package.importPath = some .dot) (renamed : symbol.isRenamed) :
      Respells scope plan ⟨word, .reference⟩ ⟨none, symbol.exported.toList⟩
  /-- A renamed symbol of the file's own package, used or declared. -/
  | home {word : Occurrence} {site : Site} {symbol : Symbol}
      (role : site = .reference ∨ site = .declaration .packageLevel ∨ site = .declaration .receiver)
      (known : symbol ∈ scope.table.symbols ∧ symbol.name = word.name)
      (inside : scope.isHome symbol.package) (renamed : symbol.isRenamed) :
      Respells scope plan ⟨word, site⟩ ⟨none, symbol.exported.toList⟩
  /-- A renamed symbol that is selected from its package. -/
  | selected {word qualifier : Occurrence} {symbol : Symbol} {package : Package}
      (visible : qualifier.name ∉ scope.declared) (resolves : scope.Resolves qualifier.name package)
      (known : symbol ∈ scope.table.symbols ∧ symbol.name = word.name)
      (owner : symbol.package = package.name) (renamed : symbol.isRenamed) :
      Respells scope plan ⟨word, .selected (some qualifier)⟩ ⟨none, symbol.exported.toList⟩

section Specification

variable {config : Config} {scope : Scope} {plan : ImportPlan}

private theorem importOf?_eq_some_iff {name path : String} :
    scope.importOf? name = some path ↔ ∃ before spec after,
      scope.imports = before ++ spec :: after ∧ spec.localName = some name ∧
        (∀ later ∈ after, later.localName ≠ some name) ∧ spec.path = path := by
  simp only [importOf?, Option.map_eq_some_iff, List.find?_eq_some_iff_append, decide_eq_true_eq]
  constructor
  · rintro ⟨spec, ⟨binds, behind, front, listed, last⟩, same⟩
    refine ⟨front.reverse, spec, behind.reverse, ?_, binds, by simpa using last, same⟩
    simpa using congrArg List.reverse listed
  · rintro ⟨before, spec, after, listed, binds, last, same⟩
    refine ⟨spec, ⟨binds, after.reverse, before.reverse, ?_, by simpa using last⟩, same⟩
    simp [listed]

theorem importOf?_eq_none_iff {name : String} :
    scope.importOf? name = none ↔ ∀ spec ∈ scope.imports, spec.localName ≠ some name := by
  simp [importOf?]

private theorem packageOf?_eq_some_iff (loaded : Table.load config = .ok scope.table)
    (distinct : scope.table.packages.values.Pairwise fun a b => a.importPath ≠ b.importPath)
    {qualifier : String} {package : Package} :
    scope.packageOf? qualifier = some package ↔ scope.Resolves qualifier package := by
  constructor
  · intro found
    simp only [packageOf?] at found
    split at found
    next path bound =>
      obtain ⟨before, spec, after, listed, binds, last, rfl⟩ := importOf?_eq_some_iff.1 bound
      exact .imported listed binds last ((Table.packageOfImport?_eq_some_iff distinct).1 found)
    next unbound =>
      exact .named (importOf?_eq_none_iff.1 unbound) ((Table.package?_eq_some_iff loaded).1 found)
  · intro resolves
    rw [packageOf?]
    cases resolves with
    | imported listed binds last known =>
      rw [importOf?_eq_some_iff.2 ⟨_, _, _, listed, binds, last, rfl⟩]
      exact (Table.packageOfImport?_eq_some_iff distinct).2 known
    | named unbound known =>
      rw [importOf?_eq_none_iff.2 unbound]
      exact (Table.package?_eq_some_iff loaded).2 known

private theorem renameOf_rewrite_eq_some_iff {word : Occurrence} {symbol : Symbol}
    {rewrite : Rewrite} : (renameOf word symbol).rewrite = some rewrite ↔
      symbol.isRenamed ∧ Rewrite.rename word symbol = rewrite := by
  cases renamed : symbol.isRenamed <;> simp [renameOf, renamed]

private theorem reference_rewrite_eq_some_iff {word : Occurrence} {rewrite : Rewrite} :
    (scope.reference word).rewrite = some rewrite ↔
      ∃ symbol, scope.table.symbol? word.name = some symbol ∧
        (scope.isHome symbol.package ∧ symbol.isRenamed ∧ Rewrite.rename word symbol = rewrite ∨
          scope.isHome symbol.package = false ∧ ∃ package,
            scope.table.package? symbol.package = some package ∧
              Rewrite.qualify word symbol package.importPath = rewrite) := by
  rw [reference]
  cases scope.table.symbol? word.name with
  | none => simp
  | some symbol =>
    cases home : scope.isHome symbol.package with
    | true => simp [home, renameOf_rewrite_eq_some_iff]
    | false => cases package : scope.table.package? symbol.package <;> simp [home, package]

private theorem declaration_rewrite_eq_some_iff {word : Occurrence} {kind : Declared}
    {rewrite : Rewrite} : (scope.declaration word kind).rewrite = some rewrite ↔
      (kind = .packageLevel ∨ kind = .receiver) ∧
        ∃ symbol, scope.table.symbol? word.name = some symbol ∧ scope.isHome symbol.package ∧
          symbol.isRenamed ∧ Rewrite.rename word symbol = rewrite := by
  rw [declaration]
  cases scope.table.symbol? word.name with
  | none => simp
  | some symbol =>
    cases home : scope.isHome symbol.package with
    | true =>
      by_cases bound : kind = .packageLevel ∨ kind = .receiver
      · simp [home, bound, renameOf_rewrite_eq_some_iff]
      · simp [home, bound]
    | false => by_cases level : kind = .packageLevel <;> simp [home, level]

private theorem selected_rewrite_eq_some_iff {word qualifier : Occurrence} {rewrite : Rewrite} :
    (scope.selected word qualifier).rewrite = some rewrite ↔
      qualifier.name ∉ scope.declared ∧ ∃ package, scope.packageOf? qualifier.name = some package ∧
        ∃ symbol, scope.table.symbol? word.name = some symbol ∧
          symbol.package = package.name ∧ symbol.isRenamed ∧
            Rewrite.rename word symbol = rewrite := by
  rw [selected_rewrite]
  split_ifs with hidden
  · simp [hidden]
  · simp [hidden, Option.bind_eq_some_iff, Option.filter_eq_some_iff, and_assoc]

private theorem inspect_of_away (loaded : Table.load config = .ok scope.table) {word : Occurrence}
    {symbol : Symbol} {package : Package}
    (known : symbol ∈ scope.table.symbols ∧ symbol.name = word.name)
    (away : scope.isHome symbol.package = false)
    (owner : package ∈ scope.table.packages.values ∧ package.name = symbol.package) :
    (scope.inspect ⟨word, .reference⟩).rewrite =
      some (.qualify word symbol package.importPath) := by
  rw [← Table.symbol?_eq_some_iff loaded] at known
  rw [← Table.package?_eq_some_iff loaded] at owner
  exact reference_rewrite_eq_some_iff.2 ⟨symbol, known, .inr ⟨away, package, owner, rfl⟩⟩

private theorem respelling?_eq_some_iff (loaded : Table.load config = .ok scope.table)
    (distinct : scope.table.packages.values.Pairwise fun a b => a.importPath ≠ b.importPath)
    {identifier : Identifier} {spelling : Respelling} :
    scope.respelling? plan identifier = some spelling ↔
      scope.Respells plan identifier spelling := by
  rw [respelling?, Option.bind_eq_some_iff]
  constructor
  · rintro ⟨rewrite, found, spelled⟩
    obtain ⟨word, site⟩ := identifier
    cases site with
    | reference =>
      obtain ⟨symbol, known, ⟨home, renamed, rfl⟩ | ⟨away, package, owner, rfl⟩⟩ :=
        reference_rewrite_eq_some_iff.1 found
      · cases spelled
        exact .home (.inl rfl) ((Table.symbol?_eq_some_iff loaded).1 known) home renamed
      · rw [Table.symbol?_eq_some_iff loaded] at known
        rw [Table.package?_eq_some_iff loaded] at owner
        -- The binding decides between a qualifier and a bare name; without one nothing is spelled.
        simp only [Rewrite.respelling?] at spelled
        split at spelled
        next name bound =>
          cases spelled
          exact .qualified known away owner bound
        next bound =>
          split_ifs at spelled with renamed
          cases spelled
          exact .dotted known away owner bound renamed
        · cases spelled
    | declaration kind =>
      obtain ⟨kinds, symbol, known, home, renamed, rfl⟩ := declaration_rewrite_eq_some_iff.1 found
      cases spelled
      exact .home (.inr (by simpa using kinds)) ((Table.symbol?_eq_some_iff loaded).1 known) home
        renamed
    | selected qualifier =>
      cases qualifier with
      | none => cases found
      | some qualifier =>
        obtain ⟨visible, package, resolved, symbol, known, owner, renamed, rfl⟩ :=
          selected_rewrite_eq_some_iff.1 found
        cases spelled
        exact .selected visible ((packageOf?_eq_some_iff loaded distinct).1 resolved)
          ((Table.symbol?_eq_some_iff loaded).1 known) owner renamed
  · intro respells
    cases respells with
    | qualified known away owner bound =>
      exact ⟨_, inspect_of_away loaded known away owner, by simp [Rewrite.respelling?, bound]⟩
    | dotted known away owner bound renamed =>
      exact ⟨_, inspect_of_away loaded known away owner,
        by simp [Rewrite.respelling?, bound, renamed]⟩
    | @home word site symbol role known inside renamed =>
      rw [← Table.symbol?_eq_some_iff loaded] at known
      refine ⟨.rename word symbol, ?_, rfl⟩
      rcases role with rfl | rfl | rfl
      · exact reference_rewrite_eq_some_iff.2 ⟨symbol, known, .inl ⟨inside, renamed, rfl⟩⟩
      · exact declaration_rewrite_eq_some_iff.2 ⟨.inl rfl, symbol, known, inside, renamed, rfl⟩
      · exact declaration_rewrite_eq_some_iff.2 ⟨.inr rfl, symbol, known, inside, renamed, rfl⟩
    | @selected word qualifier symbol package visible resolves known owner renamed =>
      refine ⟨.rename word symbol, ?_, rfl⟩
      exact selected_rewrite_eq_some_iff.2 ⟨visible, package,
        (packageOf?_eq_some_iff loaded distinct).2 resolves, symbol,
        (Table.symbol?_eq_some_iff loaded).2 known, owner, renamed, rfl⟩

private theorem Resolves.mem_values {qualifier : String} {package : Package}
    (resolves : scope.Resolves qualifier package) : package ∈ scope.table.packages.values := by
  cases resolves with
  | imported _ _ _ known => exact known.1
  | named _ known => exact known.1

private theorem need_cases (loaded : Table.load config = .ok scope.table)
    (distinct : scope.table.packages.values.Pairwise fun a b => a.importPath ≠ b.importPath)
    {identifier : Identifier} {path : String} {need : Need}
    (asked : (scope.inspect identifier).need = some (path, need)) :
    ∃ package ∈ scope.table.packages.values,
      package.importPath = path ∧ scope.isHome package.name = false := by
  obtain ⟨word, site⟩ := identifier
  cases site with
  | reference =>
    simp only [inspect, reference] at asked
    split at asked
    · cases asked
    next symbol known =>
      split_ifs at asked with home
      · rw [renameOf] at asked
        split_ifs at asked
      · split at asked
        · cases asked
        next package owner =>
          cases asked
          obtain ⟨member, name⟩ := (Table.package?_eq_some_iff loaded).1 owner
          exact ⟨package, member, rfl, by simpa [name] using home⟩
  | declaration kind =>
    simp only [inspect, declaration] at asked
    split at asked
    · cases asked
    · simp only [renameOf] at asked
      split_ifs at asked
  | selected qualifier =>
    cases qualifier with
    | none => cases asked
    | some qualifier =>
      simp only [inspect, selected] at asked
      split_ifs at asked
      split at asked
      · cases asked
      next package resolved =>
        split_ifs at asked with idle free
        cases asked
        have resolves := (packageOf?_eq_some_iff loaded distinct).1 resolved
        exact ⟨package, resolves.mem_values, rfl, by simpa using free.2⟩

end Specification

end Scope

private theorem Scope.mem_spellings {scope : Scope} {plan : ImportPlan} {sites : List Identifier}
    {word : Occurrence} {spelling : Respelling} :
    (word, spelling) ∈ scope.spellings plan sites ↔
      ∃ site, ⟨word, site⟩ ∈ sites ∧ scope.respelling? plan ⟨word, site⟩ = some spelling := by
  simp only [spellings, List.mem_filterMap, Option.map_eq_some_iff, Prod.mk.injEq]
  constructor
  · rintro ⟨⟨word, site⟩, member, _, found, rfl, rfl⟩
    exact ⟨site, member, found⟩
  · rintro ⟨site, member, found⟩
    exact ⟨⟨word, site⟩, member, spelling, found, rfl, rfl⟩

private theorem Scope.spellings_sorted {scope : Scope} {plan : ImportPlan} {sites : List Identifier}
    (distinct : sites.Pairwise fun a b => a.word.start < b.word.start) :
    (scope.spellings plan sites).Pairwise fun a b => a.1.start < b.1.start := by
  refine List.pairwise_filterMap.2 (distinct.imp fun {a b} less entry first entry' second => ?_)
  obtain ⟨_, -, rfl⟩ := Option.map_eq_some_iff.1 first
  obtain ⟨_, -, rfl⟩ := Option.map_eq_some_iff.1 second
  exact less

end Qualification

namespace SourceFile

open Qualification

section Parts

variable {config : Config} {table : Table} {home : Option Package} {file : SourceFile}
  {imports : List Import} {plan : ImportPlan}

theorem imports_of_importPlan (planned : file.importPlan table home = .ok plan) :
    ∃ imports, file.imports = .ok imports := by
  cases read : file.imports with
  | error cause => simp [importPlan, read] at planned
  | ok imports => exact ⟨imports, rfl⟩

private theorem path_ne_of_mem_additions (loaded : Table.load config = .ok table)
    (distinct : table.packages.values.Pairwise fun a b => a.importPath ≠ b.importPath)
    (read : file.imports = .ok imports) (planned : file.importPlan table home = .ok plan)
    {package : Package} (own : package ∈ home) (known : package ∈ table.packages.values)
    {spec : Import} (member : spec ∈ plan.additions) : spec.path ≠ package.importPath := by
  rw [importPlan_eq read] at planned
  obtain ⟨added, additions, adds⟩ := ImportPlan.exists_adds planned
  obtain rfl : plan.additions = added := additions
  obtain ⟨need, listed, -⟩ := adds.exists_need member
  have needed : ((file.needed (file.scope table home imports)).find? spec.path).isSome := by
    rw [Dict.mem_entries_iff.1 listed]
    rfl
  rcases isSome_find?_foldl_addNeed.1 needed with none | asked
  · cases none
  · obtain ⟨⟨path, need⟩, found, rfl⟩ := List.mem_map.1 asked
    obtain ⟨finding, inspected, asked⟩ := List.mem_filterMap.1 found
    obtain ⟨identifier, -, rfl⟩ := List.mem_map.1 inspected
    obtain ⟨other, among, same, away⟩ := Scope.need_cases loaded distinct asked
    -- Packages are told apart by their names here, but imported by their paths.
    have different : other ≠ package := by
      rintro rfl
      simp [Scope.isHome, SourceFile.scope, Option.mem_def.1 own] at away
    have symmetric : Std.Symm fun a b : Package => a.importPath ≠ b.importPath :=
      ⟨fun _ _ => Ne.symm⟩
    rw [← same]
    exact distinct.forall among known different

private theorem splice_spellings (scanned : Span.scan file.text = .ok file.spans) :
    let spellings := (file.scope table home imports).spellings plan file.sites
    Edit.splice file.text (Respelling.edits spellings) =
      some (Span.texts (Span.respellFrom (Swap.ofList spellings) 0 file.spans)) := by
  intro spellings
  have once : (spellings.map Prod.fst).Nodup := by
    refine List.pairwise_map.2 ((Scope.spellings_sorted (sites_distinct scanned)).imp ?_)
    rintro a b less same
    rw [same] at less
    exact Nat.lt_irrefl _ less
  have named : ∀ entry ∈ spellings, entry.1 ∈ Span.namesFrom 0 file.spans := by
    rintro ⟨word, spelling⟩ member
    obtain ⟨site, among, -⟩ := Scope.mem_spellings.1 member
    rw [← Site.classify_words]
    exact List.mem_map_of_mem among
  have spliced := Span.splice_choice (Span.text_ne_nil_of_word scanned) once named
  rwa [Span.texts_of_scan scanned] at spliced

end Parts

/-- Qualification does what its specification says, and nothing else. Exactly the identifiers of the
specification are spelled anew, each once and as it says; no edit reaches into the next one, and
the rest of the text stays as it is. The qualifications and the renames are counted, and a file
does not get an import of its own package. -/
theorem qualification_as_specified {config : Config} {table : Table} {home : Option Package}
    {file edited : SourceFile} {result : Qualification}
    (loaded : Table.load config = .ok table)
    (distinct : table.packages.values.Pairwise fun a b => a.importPath ≠ b.importPath)
    (scanned : Span.scan file.text = .ok file.spans)
    (done : file.qualify table home = .ok (edited, result)) :
    ∃ imports plan choice, file.imports = .ok imports ∧ file.importPlan table home = .ok plan ∧
      choice.Pairwise (fun a b => a.1.start < b.1.start) ∧
      (∀ word spelling, (word, spelling) ∈ choice ↔ ∃ site, ⟨word, site⟩ ∈ file.sites ∧
        (file.scope table home imports).Respells plan ⟨word, site⟩ spelling) ∧
      (∃ changed, file.edit (Respelling.edits choice) = .ok (edited, changed)) ∧
      (Respelling.edits choice).Pairwise (fun a b => a.stop ≤ b.start) ∧
      edited.text = Span.texts (Span.respellFrom (Swap.ofList choice) 0 file.spans) ∧
      result.qualified = choice.countP (·.2.qualifier.isSome) ∧
      result.renamed = choice.countP (·.2.qualifier.isNone) ∧
      result.imports = plan.additions ∧
      ∀ package ∈ home, package ∈ table.packages.values →
        ∀ spec ∈ result.imports, spec.path ≠ package.importPath := by
  obtain ⟨plan, planned⟩ := importPlan_of_qualify done
  obtain ⟨imports, read⟩ := imports_of_importPlan planned
  obtain ⟨⟨changed, made⟩, qualified, renamed, additions⟩ := qualify_eq_ok read planned done
  refine ⟨imports, plan, (file.scope table home imports).spellings plan file.sites, read, planned,
    Scope.spellings_sorted (sites_distinct scanned), fun word spelling => ?_, ⟨changed, made⟩, ?_,
    (edit_eq_ok scanned (splice_spellings scanned) made).1, ?_, ?_, additions,
    fun package own known spec member => ?_⟩
  · rw [Scope.mem_spellings]
    exact exists_congr fun site => and_congr_right fun _ =>
      Scope.respelling?_eq_some_iff loaded distinct
  · have apart := Span.editsFrom_apart (file.swap table home imports plan) 0 file.spans
    rwa [← edits_eq scanned] at apart
  · rw [qualified, List.countP_eq_length_filter]
  · rw [renamed, List.countP_eq_length_filter]
  · rw [additions] at member
    exact path_ne_of_mem_additions loaded distinct read planned own known member

def marinaConfig : Config where
  modulePath := "m"
  packages := [⟨none, "a", none⟩, ⟨none, "b", none⟩, ⟨none, "c", none⟩, ⟨none, "d", none⟩]
  symbols := [⟨"Plain", "c", none⟩, ⟨"Tide", "c", some "Ebb"⟩, ⟨"Wave", "d", none⟩,
    ⟨"Foo", "b", some "Bar"⟩, ⟨"Old", "a", some "New"⟩]

/-- The table of this mapping. -/
def marinaTable : Table where
  modulePath := "m"
  packages := Dict.ofList [("a", ⟨"a", "a", "m/a"⟩), ("b", ⟨"b", "b", "m/b"⟩),
    ("c", ⟨"c", "c", "m/c"⟩), ("d", ⟨"d", "d", "m/d"⟩)]
  files := Dict.empty
  symbols := [⟨"Plain", "c", "Plain"⟩, ⟨"Tide", "c", "Ebb"⟩, ⟨"Wave", "d", "Wave"⟩,
    ⟨"Foo", "b", "Bar"⟩, ⟨"Old", "a", "New"⟩]
  excludes := []
  includeTests := true

def marinaFile (name expression : String) : SourceFile :=
  harbourFile ("package a\n\nimport (\n\t. \"m/c\"\n\tq \"m/b\"\n)\n\nvar " ++ name ++ " = " ++
    expression ++ "\n")

/-- A file in which symbols of its own package and of three others are used. -/
def marinaBefore : SourceFile :=
  marinaFile "Old" "Foo + q.Foo + Tide + Plain + Wave"

/-- The same file with its references qualified. -/
def marinaAfter : SourceFile :=
  marinaFile "New" "q.Bar + q.Bar + Ebb + Plain + d.Wave"

/-- What is known about the file. -/
def marinaScope : Scope :=
  marinaBefore.scope marinaTable (marinaTable.package? "a") [⟨some ".", "m/c"⟩, ⟨some "q", "m/b"⟩]

def marinaEdits : List Edit :=
  [⟨45, 48, "New".toList⟩, ⟨51, 54, "q.Bar".toList⟩, ⟨59, 62, "Bar".toList⟩,
    ⟨65, 69, "Ebb".toList⟩, ⟨80, 84, "d.Wave".toList⟩]

private theorem exists_marinaPlan : ∃ plan,
    marinaBefore.importPlan marinaTable (marinaTable.package? "a") = .ok plan ∧
      plan.additions = [⟨none, "m/d"⟩] ∧
      marinaScope.edits plan marinaBefore.sites = marinaEdits ∧
      let spellings := marinaScope.spellings plan marinaBefore.sites
      (spellings.filter (·.2.qualifier.isSome)).length = 2 ∧
        (spellings.filter (·.2.qualifier.isNone)).length = 3 := by
  have view : (marinaBefore.importPlan marinaTable (marinaTable.package? "a")).toOption.map
      (fun plan => (plan.additions, marinaScope.edits plan marinaBefore.sites,
        ((marinaScope.spellings plan marinaBefore.sites).filter (·.2.qualifier.isSome)).length,
        ((marinaScope.spellings plan marinaBefore.sites).filter (·.2.qualifier.isNone)).length)) =
      some ([⟨none, "m/d"⟩], marinaEdits, 2, 3) := by
    decide +kernel
  obtain ⟨plan, planned, seen⟩ := exists_of_view view
  simp only [Prod.mk.injEq] at seen
  exact ⟨plan, planned, seen⟩

private theorem edit_marinaBefore : marinaBefore.edit marinaEdits = .ok (marinaAfter, true) :=
  edit_of_sorted (by decide +kernel) (by decide +kernel) (by decide +kernel) (by decide +kernel)

/-- Five words of the file are spelled anew, two of them with a qualifier, and only the package that
is missing is imported. -/
theorem marina_qualified :
    ∃ result,
      marinaBefore.qualify marinaTable (marinaTable.package? "a") = .ok (marinaAfter, result) ∧
      result.imports = [⟨none, "m/d"⟩] ∧ (∀ spec ∈ result.imports, spec.path ≠ "m/a") ∧
      ∃ plan choice,
        (∀ word spelling, (word, spelling) ∈ choice ↔ ∃ site, ⟨word, site⟩ ∈ marinaBefore.sites ∧
          marinaScope.Respells plan ⟨word, site⟩ spelling) ∧
        marinaAfter.text =
          Span.texts (Span.respellFrom (Swap.ofList choice) 0 marinaBefore.spans) ∧
        choice.countP (·.2.qualifier.isSome) = 2 ∧ choice.countP (·.2.qualifier.isNone) = 3 := by
  obtain ⟨plan, planned, additions, edits, two, three⟩ := exists_marinaPlan
  have loaded : Table.load marinaConfig = .ok marinaTable :=
    Table.load_of_sorted rfl rfl rfl (by decide +kernel) rfl rfl
  have scanned : Span.scan marinaBefore.text = .ok marinaBefore.spans := by decide +kernel
  have read : marinaBefore.imports = .ok [⟨some ".", "m/c"⟩, ⟨some "q", "m/b"⟩] := by
    decide +kernel
  have done := qualify_eq read planned
  rw [← marinaScope] at done
  simp only [edits, edit_marinaBefore, two, three, additions, Except.mapError, Except.map] at done
  obtain ⟨imports, plan', choice, read', -, -, specified, -, -, text, qualified, renamed, -,
    away⟩ := qualification_as_specified loaded (by decide +kernel) scanned done
  obtain rfl : imports = [⟨some ".", "m/c"⟩, ⟨some "q", "m/b"⟩] :=
    Except.ok.inj (read'.symm.trans read)
  have unimported := away ⟨"a", "a", "m/a"⟩ rfl (by decide +kernel)
  exact ⟨_, done, rfl, unimported, plan', choice, specified, text, qualified.symm, renamed.symm⟩

end SourceFile

end Repackage
