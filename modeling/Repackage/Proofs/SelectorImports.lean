import Repackage.Proofs.Qualification

/-!
Which packages a qualified file imports. A package is imported afterwards when it was before or when
some identifier asks for it. A selector of a package that is not imported asks for it, unless its
qualifier stands right behind an ellipsis: the last dot of the ellipsis is then taken for that of a
selector.
-/

set_option autoImplicit false
set_option relaxedAutoImplicit false

namespace Repackage

theorem ImportPlan.Adds.mem_paths_iff {existing added : List Import} {taken : List String}
    {needs : List (String × Need)} (adds : Adds existing taken needs added) {path : String} :
    path ∈ added.map (·.path) ↔ path ∈ needs.map Prod.fst ∧ path ∉ existing.map (·.path) := by
  induction adds with
  | done => simp
  | @reused taken other need needs added imported rest ih =>
    have listed : other ∈ existing.map (·.path) := by
      obtain ⟨spec, found⟩ := Option.isSome_iff_exists.1 imported
      exact List.mem_map.2 ⟨spec, List.mem_of_find?_eq_some found, by
        simpa using List.find?_some found⟩
    rw [ih, List.map_cons, List.mem_cons]
    constructor
    · rintro ⟨needed, absent⟩
      exact ⟨.inr needed, absent⟩
    · rintro ⟨rfl | needed, absent⟩
      · exact absurd listed absent
      · exact ⟨needed, absent⟩
  | @new taken other need needs added missing rest ih =>
    have absent : other ∉ existing.map (·.path) := by
      intro listed
      obtain ⟨spec, member, same⟩ := List.mem_map.1 listed
      simpa [same] using List.find?_eq_none.1 missing spec member
    rw [List.map_cons, List.mem_cons, ih, path_specFor, List.map_cons, List.mem_cons]
    constructor
    · rintro (rfl | ⟨needed, absent⟩)
      · exact ⟨.inl rfl, absent⟩
      · exact ⟨.inr needed, absent⟩
    · rintro ⟨rfl | needed, absent⟩
      · exact .inl rfl
      · exact .inr ⟨needed, absent⟩

namespace Site

private theorem selected_mem_classify {spans : List Span} {before after : List Item}
    {qualifier dot word : Item}
    (listed : items spans = before ++ qualifier :: dot :: word :: after)
    (front : qualifier.isName) (isDot : dot.isMark '.') (named : word.isName) :
    ⟨word.occurrence, .selected (qualifier? (dot :: qualifier :: before.reverse))⟩ ∈
      classify spans := by
  refine mem_classifyFrom_iff.2
    ⟨before ++ [qualifier, dot], word, after, by simp [listed], named, ?_⟩
  have selects : selects (dot :: qualifier :: before.reverse) := by
    simp [selects, isDot, Item.isMark_of_isName front]
  simp [Context.identifier, selects]

end Site

namespace Qualification.Scope

/-- The identifiers that ask for the import of a path. -/
inductive Asks (scope : Scope) (path : String) : Identifier → Prop where
  /-- A reference to a symbol of another package. -/
  | reference {word : Occurrence} {symbol : Symbol} {package : Package}
      (known : symbol ∈ scope.table.symbols ∧ symbol.name = word.name)
      (away : scope.isHome symbol.package = false)
      (owner : package ∈ scope.table.packages.values ∧ package.name = symbol.package)
      (same : package.importPath = path) : Asks scope path ⟨word, .reference⟩
  /-- A name that is selected from a package that no import binds. The package exports the name, or
  has a symbol of this name that gets another one. -/
  | selected {word qualifier : Occurrence} {package : Package}
      (visible : qualifier.name ∉ scope.declared)
      (unbound : ∀ spec ∈ scope.imports, spec.localName ≠ some qualifier.name)
      (known : package ∈ scope.table.packages.values ∧ package.name = qualifier.name)
      (away : scope.isHome package.name = false)
      (offered : scope.table.exports package.name word.name ∨ ∃ symbol ∈ scope.table.symbols,
        symbol.name = word.name ∧ symbol.package = package.name ∧ symbol.isRenamed)
      (same : package.importPath = path) : Asks scope path ⟨word, .selected (some qualifier)⟩

section Needs

variable {config : Config} {scope : Scope}

theorem reference_need_eq_some_iff {word : Occurrence} {entry : String × Need} :
    (scope.reference word).need = some entry ↔
      ∃ symbol, scope.table.symbol? word.name = some symbol ∧
        scope.isHome symbol.package = false ∧ ∃ package,
          scope.table.package? symbol.package = some package ∧
            (package.importPath, ⟨package.name, false⟩) = entry := by
  rw [reference]
  cases scope.table.symbol? word.name with
  | none => simp
  | some symbol =>
    cases home : scope.isHome symbol.package with
    | true => cases renamed : symbol.isRenamed <;> simp [home, renameOf, renamed]
    | false => cases package : scope.table.package? symbol.package <;> simp [home, package]

theorem declaration_need (word : Occurrence) (kind : Declared) :
    (scope.declaration word kind).need = none := by
  rw [declaration]
  split
  · rfl
  · simp only [renameOf]
    split_ifs <;> rfl

theorem selected_need_eq_some_iff {word qualifier : Occurrence} {entry : String × Need} :
    (scope.selected word qualifier).need = some entry ↔
      qualifier.name ∉ scope.declared ∧ ∃ package, scope.packageOf? qualifier.name = some package ∧
        (scope.table.exports package.name word.name ∨ ∃ symbol,
          scope.table.symbol? word.name = some symbol ∧ symbol.package = package.name ∧
            symbol.isRenamed) ∧
        scope.importOf? qualifier.name = none ∧ scope.isHome package.name = false ∧
          (package.importPath, ⟨qualifier.name, true⟩) = entry := by
  rw [selected]
  split_ifs with hidden
  · simp [hidden]
  · cases scope.packageOf? qualifier.name with
    | none => simp
    | some package =>
      -- The name is of use when it is exported or when the filtered symbol is there.
      have offered : (∃ symbol, scope.table.symbol? word.name = some symbol ∧
          symbol.package = package.name ∧ symbol.isRenamed) ↔
          ((scope.table.symbol? word.name).filter fun symbol =>
            symbol.package = package.name ∧ symbol.isRenamed).isSome := by
        rw [Option.isSome_iff_exists]
        simp only [Option.filter_eq_some_iff, decide_eq_true_eq]
      simp only [hidden, not_false_eq_true, true_and, Option.some.injEq, exists_eq_left', offered]
      generalize (scope.table.symbol? word.name).filter _ = renamed
      cases renamed <;> cases scope.table.exports package.name word.name <;>
        cases scope.importOf? qualifier.name <;> cases scope.isHome package.name <;> simp

private theorem asks_iff (loaded : Table.load config = .ok scope.table) {path : String}
    {identifier : Identifier} :
    scope.Asks path identifier ↔ ∃ need, (scope.inspect identifier).need = some (path, need) := by
  constructor
  · intro asks
    cases asks with
    | reference known away owner same =>
      rw [← Table.symbol?_eq_some_iff loaded] at known
      rw [← Table.package?_eq_some_iff loaded] at owner
      exact ⟨_, reference_need_eq_some_iff.2 ⟨_, known, away, _, owner, by rw [same]⟩⟩
    | selected visible unbound known away offered same =>
      rw [← Table.package?_eq_some_iff loaded] at known
      have free := importOf?_eq_none_iff.2 unbound
      refine ⟨_, selected_need_eq_some_iff.2 ⟨visible, _, ?_, ?_, free, away, by rw [same]⟩⟩
      · simpa [packageOf?, free] using known
      · refine offered.imp_right ?_
        rintro ⟨symbol, member, named, rest⟩
        exact ⟨symbol, (Table.symbol?_eq_some_iff loaded).2 ⟨member, named⟩, rest⟩
  · rintro ⟨need, asked⟩
    obtain ⟨word, site⟩ := identifier
    cases site with
    | reference =>
      obtain ⟨symbol, known, away, package, owner, same⟩ := reference_need_eq_some_iff.1 asked
      rw [Table.symbol?_eq_some_iff loaded] at known
      rw [Table.package?_eq_some_iff loaded] at owner
      exact .reference known away owner (congrArg Prod.fst same)
    | declaration kind =>
      rw [inspect, declaration_need] at asked
      cases asked
    | selected qualifier =>
      cases qualifier with
      | none => cases asked
      | some qualifier =>
        obtain ⟨visible, package, resolved, offered, free, away, same⟩ :=
          selected_need_eq_some_iff.1 asked
        rw [packageOf?, free] at resolved
        refine .selected visible (importOf?_eq_none_iff.1 free)
          ((Table.package?_eq_some_iff loaded).1 resolved) away ?_ (congrArg Prod.fst same)
        refine offered.imp_right ?_
        rintro ⟨symbol, known, rest⟩
        obtain ⟨member, named⟩ := (Table.symbol?_eq_some_iff loaded).1 known
        exact ⟨symbol, member, named, rest⟩

end Needs

/-- A name that is selected from a package of the table, between the items of a file. Nothing in the
file hides the package, and the qualifier is not selected itself. -/
structure IsSelector (scope : Scope) (before : List Site.Item) (qualifier dot word : Site.Item)
    (package : Package) : Prop where
  front : qualifier.isName
  isDot : dot.isMark '.'
  named : word.isName
  standsAlone : Site.selects before.reverse = false
  visible : qualifier.occurrence.name ∉ scope.declared
  unbound : ∀ spec ∈ scope.imports, spec.localName ≠ some qualifier.occurrence.name
  known : package ∈ scope.table.packages.values ∧ package.name = qualifier.occurrence.name
  away : scope.isHome package.name = false
  exported : scope.table.exports package.name word.occurrence.name

end Qualification.Scope

namespace SourceFile

open Qualification

section Imported

variable {config : Config} {table : Table} {home : Option Package} {file edited : SourceFile}
  {imports : List Import} {result : Qualification}

private theorem mem_imports_of_qualify (loaded : Table.load config = .ok table)
    (read : file.imports = .ok imports) (done : file.qualify table home = .ok (edited, result))
    {path : String} :
    path ∈ (imports ++ result.imports).map (·.path) ↔ path ∈ imports.map (·.path) ∨
      ∃ identifier ∈ file.sites, (file.scope table home imports).Asks path identifier := by
  obtain ⟨plan, planned⟩ := importPlan_of_qualify done
  obtain ⟨-, -, -, additions⟩ := qualify_eq_ok read planned done
  rw [importPlan_eq read] at planned
  obtain ⟨added, same, adds⟩ := ImportPlan.exists_adds planned
  obtain rfl : plan.additions = added := same
  have asked : path ∈ (file.needed (file.scope table home imports)).entries.map Prod.fst ↔
      ∃ identifier ∈ file.sites, (file.scope table home imports).Asks path identifier := by
    refine Dict.mem_keys_iff.trans ?_
    rw [needed, isSome_find?_foldl_addNeed]
    simp only [Dict.find?_empty, Option.isSome_none, Bool.false_eq_true, false_or,
      List.mem_map, List.mem_filterMap, Prod.exists, exists_and_right, exists_eq_right,
      exists_exists_and_eq_and]
    constructor
    · rintro ⟨need, identifier, member, asked⟩
      exact ⟨identifier, member, (Scope.asks_iff loaded).2 ⟨need, asked⟩⟩
    · rintro ⟨identifier, member, asks⟩
      obtain ⟨need, asked⟩ := (Scope.asks_iff loaded).1 asks
      exact ⟨need, identifier, member, asked⟩
  rw [List.map_append, List.mem_append, additions, adds.mem_paths_iff, asked]
  by_cases old : path ∈ imports.map (·.path) <;> simp [old]

/-- A selector of a package has the package imported, unless its qualifier stands right behind a
dot, which is then the last one of an ellipsis. In that case the package is imported only where it
was before, or where another identifier asks for it. -/
theorem selector_imported_iff (loaded : Table.load config = .ok table)
    (read : file.imports = .ok imports) (done : file.qualify table home = .ok (edited, result))
    {before after : List Site.Item} {qualifier dot word : Site.Item} {package : Package}
    (listed : Site.items file.spans = before ++ qualifier :: dot :: word :: after)
    (selector : (file.scope table home imports).IsSelector before qualifier dot word package) :
    package.importPath ∈ (imports ++ result.imports).map (·.path) ↔
      (∀ item ∈ before.getLast?, item.isMark '.' = false) ∨
        package.importPath ∈ imports.map (·.path) ∨ ∃ identifier ∈ file.sites,
          (file.scope table home imports).Asks package.importPath identifier := by
  rw [mem_imports_of_qualify loaded read done]
  constructor
  · exact .inr
  · rintro (apart | imported)
    · refine .inr ⟨_, Site.selected_mem_classify listed selector.front selector.isDot
        selector.named, ?_⟩
      have qualified : Site.qualifier? (dot :: qualifier :: before.reverse) =
          some qualifier.occurrence := by
        have last : before.getLast?.any (·.isMark '.') = false := by
          cases found : before.getLast? with
          | none => rfl
          | some item => exact apart item found
        simp [Site.qualifier?, selector.front, last]
      rw [qualified]
      exact .selected selector.visible selector.unbound selector.known selector.away
        (.inl selector.exported) rfl
    · exact imported

end Imported

def straitConfig : Config where
  modulePath := "m"
  packages := [⟨none, "a", none⟩, ⟨none, "base", none⟩]
  symbols := [⟨"Option", "base", none⟩]

/-- The table of this mapping. -/
def straitTable : Table where
  modulePath := "m"
  packages := Dict.ofList [("a", ⟨"a", "a", "m/a"⟩), ("base", ⟨"base", "base", "m/base"⟩)]
  files := Dict.empty
  symbols := [⟨"Option", "base", "Option"⟩]
  excludes := []
  includeTests := true

/-- A file with a variadic parameter of a type of the other package. -/
def straitFile : SourceFile :=
  harbourFile "package a\n\nfunc f(options ...base.Option)\n"

private theorem exists_straitPlan : ∃ plan,
    straitFile.importPlan straitTable (straitTable.package? "a") = .ok plan ∧
      plan.additions = [] ∧
      (straitFile.scope straitTable (straitTable.package? "a") []).edits plan
        straitFile.sites = [] := by
  have view : (straitFile.importPlan straitTable (straitTable.package? "a")).toOption.map
      (fun plan => (plan.additions,
        (straitFile.scope straitTable (straitTable.package? "a") []).edits plan
          straitFile.sites)) = some ([], []) := by
    decide +kernel
  obtain ⟨plan, planned, seen⟩ := exists_of_view view
  obtain ⟨additions, edits⟩ := Prod.mk.inj seen
  exact ⟨plan, planned, additions, edits⟩

/-- The parameter's package is not imported, since its name stands behind an ellipsis. -/
theorem strait_not_imported :
    ∃ result : Qualification,
      straitFile.qualify straitTable (straitTable.package? "a") = .ok (straitFile, result) ∧
      ∃ before qualifier dot word after,
        Site.items straitFile.spans = before ++ qualifier :: dot :: word :: after ∧
        (straitFile.scope straitTable (straitTable.package? "a") []).IsSelector before qualifier
          dot word ⟨"base", "base", "m/base"⟩ ∧
        "m/base" ∉ result.imports.map (·.path) := by
  obtain ⟨plan, planned, additions, edits⟩ := exists_straitPlan
  have loaded : Table.load straitConfig = .ok straitTable :=
    Table.load_of_sorted rfl rfl rfl (by decide +kernel) rfl rfl
  have read : straitFile.imports = .ok [] := by decide +kernel
  have done := qualify_eq read planned
  simp only [edits, additions, edit_eq, if_pos, Except.mapError, Except.map] at done
  have listed : Site.items straitFile.spans = (Site.items straitFile.spans).take 8 ++
      ⟨.word, "base".toList, 29, false, true⟩ :: ⟨.other, ".".toList, 33, false, true⟩ ::
        ⟨.word, "Option".toList, 34, false, true⟩ :: (Site.items straitFile.spans).drop 11 := by
    decide +kernel
  have selector : (straitFile.scope straitTable (straitTable.package? "a") []).IsSelector
      ((Site.items straitFile.spans).take 8) ⟨.word, "base".toList, 29, false, true⟩
      ⟨.other, ".".toList, 33, false, true⟩ ⟨.word, "Option".toList, 34, false, true⟩
      ⟨"base", "base", "m/base"⟩ := by
    constructor <;> decide +kernel
  refine ⟨_, done, _, _, _, _, _, listed, selector, fun imported => ?_⟩
  rcases (selector_imported_iff loaded read done listed selector).1 imported with
    apart | old | ⟨identifier, member, asks⟩
  · revert apart
    decide +kernel
  · cases old
  · obtain ⟨need, asked⟩ := (Scope.asks_iff loaded).1 asks
    have silent : ∀ identifier ∈ straitFile.sites, ((straitFile.scope straitTable
        (straitTable.package? "a") []).inspect identifier).need = none := by
      decide +kernel
    rw [silent identifier member] at asked
    cases asked

end SourceFile

end Repackage
