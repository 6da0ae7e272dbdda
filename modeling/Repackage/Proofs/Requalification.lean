import Repackage.Proofs.ImportPlan
import Repackage.Proofs.Sites
import Repackage.Proofs.Table
import Repackage.Qualify

/-!
Qualification of a text that has been qualified. Where the names of symbols, the names that renamed
symbols get and the local names of packages are kept apart, there is nothing left to do.
-/

set_option autoImplicit false
set_option relaxedAutoImplicit false

namespace Repackage

def Table.symbolNames (table : Table) : List String :=
  table.symbols.map (·.name)

def Table.renamedNames (table : Table) : List String :=
  (table.symbols.filter (·.isRenamed)).map (·.exported)

def Table.packageNames (table : Table) : List String :=
  table.packages.values.map (·.name)

def Binding.name? : Binding → Option String
  | .qualified name => some name
  | .dot => none

def ImportPlan.names (plan : ImportPlan) : List String :=
  plan.bindings.values.filterMap Binding.name?

namespace Qualification

def Rewrite.respelling? (plan : ImportPlan) : Rewrite → Option Respelling
  | .rename _ symbol => some ⟨none, symbol.exported.toList⟩
  | .qualify _ symbol importPath =>
    match plan.bindings.find? importPath with
    | some (.qualified name) => some ⟨some name.toList, symbol.exported.toList⟩
    | some .dot => if symbol.isRenamed then some ⟨none, symbol.exported.toList⟩ else none
    | none => none

/-- The word of a rewrite. -/
def Rewrite.word : Rewrite → Occurrence
  | .rename word _ => word
  | .qualify word _ _ => word

private theorem ofList_texts_qualified (qualifier name : String) :
    String.ofList (Token.texts (Respelling.tokens ⟨some qualifier.toList, name.toList⟩)) =
      qualifier ++ "." ++ name := by
  rw [← String.toList_inj]
  simp [Respelling.tokens, Token.texts]

private theorem ofList_texts_bare (name : String) :
    String.ofList (Token.texts (Respelling.tokens ⟨none, name.toList⟩)) = name := by
  rw [← String.toList_inj]
  simp [Respelling.tokens, Token.texts]

private theorem Rewrite.spelling?_eq (plan : ImportPlan) (rewrite : Rewrite) :
    rewrite.spelling? plan = (rewrite.respelling? plan).map fun spelling =>
      (rewrite.word, String.ofList (Token.texts spelling.tokens), spelling.qualifier.isSome) := by
  cases rewrite with
  | rename word symbol => simp [spelling?, respelling?, Rewrite.word, ofList_texts_bare]
  | qualify word symbol importPath =>
    simp only [spelling?, respelling?, Rewrite.word]
    rcases plan.bindings.find? importPath with _ | ⟨name⟩ | _
    · rfl
    · simp [ofList_texts_qualified]
    · cases symbol.isRenamed <;> simp [ofList_texts_bare]

namespace Scope

variable {scope : Scope} {plan : ImportPlan}

def respelling? (scope : Scope) (plan : ImportPlan) (identifier : Identifier) :
    Option Respelling :=
  (scope.inspect identifier).rewrite.bind (Rewrite.respelling? plan)

private theorem word_of_renameOf {word : Occurrence} {symbol : Symbol} {rewrite : Rewrite}
    (found : (renameOf word symbol).rewrite = some rewrite) :
    rewrite = .rename word symbol ∧ symbol.isRenamed := by
  simp only [renameOf] at found
  split_ifs at found with renamed
  cases found
  exact ⟨rfl, renamed⟩

theorem selected_rewrite (scope : Scope) (word qualifier : Occurrence) :
    (scope.selected word qualifier).rewrite =
      if qualifier.name ∈ scope.declared then none
      else (scope.packageOf? qualifier.name).bind fun package =>
        ((scope.table.symbol? word.name).filter fun symbol =>
          symbol.package = package.name ∧ symbol.isRenamed).map (.rename word) := by
  simp only [selected]
  split_ifs with hidden
  · rfl
  · cases scope.packageOf? qualifier.name with
    | none => rfl
    | some package =>
      simp only [Option.bind_some]
      split
      next idle =>
        rw [Option.isNone_iff_eq_none.1 idle.1]
        rfl
      · rfl

private theorem rewrite_cases {identifier : Identifier} {rewrite : Rewrite}
    (found : (scope.inspect identifier).rewrite = some rewrite) :
    ∃ symbol, scope.table.symbol? identifier.word.name = some symbol ∧
      ((rewrite = .rename identifier.word symbol ∧ symbol.isRenamed) ∨
        identifier.site = .reference ∧ ∃ package,
          scope.table.package? symbol.package = some package ∧
          rewrite = .qualify identifier.word symbol package.importPath ∧
          (scope.inspect identifier).need = some (package.importPath, ⟨package.name, false⟩)) := by
  obtain ⟨word, site⟩ := identifier
  cases site with
  | reference =>
    simp only [inspect, reference] at found ⊢
    cases known : scope.table.symbol? word.name with
    | none => simp [known] at found
    | some symbol =>
      simp only [known] at found ⊢
      refine ⟨symbol, rfl, ?_⟩
      split_ifs at found ⊢ with home
      · exact .inl (word_of_renameOf found)
      · cases package : scope.table.package? symbol.package with
        | none => simp [package] at found
        | some package =>
          simp_all
  | declaration kind =>
    simp only [inspect, declaration] at found
    cases known : scope.table.symbol? word.name with
    | none => simp [known] at found
    | some symbol =>
      simp only [known] at found
      refine ⟨symbol, rfl, .inl ?_⟩
      split_ifs at found
      exact word_of_renameOf found
  | selected qualifier =>
    cases qualifier with
    | none => simp [inspect] at found
    | some qualifier =>
      simp only [inspect, selected_rewrite] at found
      split_ifs at found
      obtain ⟨package, -, spelled⟩ := Option.bind_eq_some_iff.1 found
      obtain ⟨symbol, kept, rfl⟩ := Option.map_eq_some_iff.1 spelled
      obtain ⟨known, condition⟩ := Option.filter_eq_some_iff.1 kept
      simp only [decide_eq_true_eq] at condition
      exact ⟨symbol, known, .inl ⟨rfl, condition.2⟩⟩

theorem respelling?_cases {identifier : Identifier} {spelling : Respelling}
    (found : scope.respelling? plan identifier = some spelling) :
    ∃ symbol, scope.table.symbol? identifier.word.name = some symbol ∧
      spelling.name = symbol.exported.toList ∧
      (spelling.qualifier = none ∧ symbol.isRenamed ∨
        identifier.site = .reference ∧ ∃ name ∈ plan.names,
          spelling.qualifier = some name.toList) := by
  obtain ⟨rewrite, rewritten, spelled⟩ := Option.bind_eq_some_iff.1 found
  obtain ⟨symbol, known, ⟨rfl, renamed⟩ | ⟨reference, package, -, rfl, -⟩⟩ :=
    rewrite_cases rewritten
  · cases spelled
    exact ⟨symbol, known, rfl, .inl ⟨rfl, renamed⟩⟩
  · simp only [Rewrite.respelling?] at spelled
    split at spelled
    next name bound =>
      cases spelled
      refine ⟨symbol, known, rfl, .inr ⟨reference, name, ?_, rfl⟩⟩
      exact List.mem_filterMap.2 ⟨_, Dict.mem_values_of_find? bound, rfl⟩
    · split_ifs at spelled with renamed
      cases spelled
      exact ⟨symbol, known, rfl, .inl ⟨rfl, renamed⟩⟩
    · cases spelled

def swap (scope : Scope) (plan : ImportPlan) (sites : List Identifier) : Swap := fun word =>
  (sites.find? (·.word = word)).bind (scope.respelling? plan)

theorem swap_cases {sites : List Identifier} {word : Occurrence} {spelling : Respelling}
    (found : scope.swap plan sites word = some spelling) :
    ∃ identifier ∈ sites, identifier.word = word ∧
      scope.respelling? plan identifier = some spelling := by
  obtain ⟨identifier, first, spelled⟩ := Option.bind_eq_some_iff.1 found
  have same := List.find?_some first
  exact ⟨identifier, List.mem_of_find?_eq_some first, by simpa using same, spelled⟩

private theorem swap_of_mem {sites : List Identifier}
    (distinct : sites.Pairwise fun a b => a.word.start < b.word.start) {identifier : Identifier}
    (member : identifier ∈ sites) :
    scope.swap plan sites identifier.word = scope.respelling? plan identifier := by
  have first : sites.find? (·.word = identifier.word) = some identifier := by
    induction sites with
    | nil => cases member
    | cons head rest ih =>
      obtain ⟨before, distinct⟩ := List.pairwise_cons.1 distinct
      rcases List.mem_cons.1 member with rfl | later
      · simp
      · have other : head.word ≠ identifier.word := by
          intro same
          have order := before identifier later
          rw [same] at order
          omega
        simpa [other] using ih distinct later
  rw [swap, first, Option.bind_some]

end Scope

def localNames (table : Table) (imports : List Import) (plan : ImportPlan) : List String :=
  table.packageNames ++ imports.filterMap Import.localName ++ plan.names

/-- The names of symbols, the names that renamed symbols get and the local names of packages are
three kinds of names, and the local names that the plan chooses can be names. -/
structure KeptApart (table : Table) (imports : List Import) (plan : ImportPlan) : Prop where
  symbols_renamed : table.symbolNames.Disjoint table.renamedNames
  symbols_local : table.symbolNames.Disjoint (localNames table imports plan)
  renamed_local : table.renamedNames.Disjoint (localNames table imports plan)
  identifiers : ∀ name ∈ plan.names, Word.isIdentifier name.toList

section Apart

variable {config : Config} {table : Table} {imports : List Import} {plan : ImportPlan}

private theorem mem_symbolNames_of_symbol? {name : String} {symbol : Symbol}
    (known : table.symbol? name = some symbol) : name ∈ table.symbolNames := by
  obtain ⟨member, rfl⟩ := Table.name_of_symbol? known
  exact List.mem_map_of_mem member

private theorem mem_renamedNames {name : String} {symbol : Symbol}
    (known : table.symbol? name = some symbol) (renamed : symbol.isRenamed) :
    symbol.exported ∈ table.renamedNames :=
  List.mem_map_of_mem (List.mem_filter.2 ⟨(Table.name_of_symbol? known).1, renamed⟩)

private theorem symbol?_eq_none_of_not_mem {name : String} (other : name ∉ table.symbolNames) :
    table.symbol? name = none := by
  cases known : table.symbol? name with
  | none => rfl
  | some symbol => exact absurd (mem_symbolNames_of_symbol? known) other

private theorem not_isRenamed_of_exported (apart : KeptApart table imports plan) {name : String}
    {symbol next : Symbol} (known : table.symbol? name = some symbol)
    (again : table.symbol? symbol.exported = some next) : next.isRenamed = false := by
  cases renamed : symbol.isRenamed with
  | true =>
    exact absurd (mem_renamedNames known renamed)
      (apart.symbols_renamed (mem_symbolNames_of_symbol? again))
  | false =>
    have same : symbol.exported = name := by
      have kept : symbol.name = symbol.exported := by simpa [Symbol.isRenamed] using renamed
      rw [← kept, (Table.name_of_symbol? known).2]
    rw [same, known] at again
    cases again
    exact renamed

private theorem mem_localNames_of_packageOf? (loaded : Table.load config = .ok table)
    {scope : Scope}
    (tabled : scope.table = table) (imported : scope.imports = imports) {name : String}
    {package : Package} (found : scope.packageOf? name = some package) :
    name ∈ localNames table imports plan := by
  simp only [localNames, List.mem_append]
  left
  simp only [Scope.packageOf?] at found
  split at found
  next path bound =>
    right
    simp only [Scope.importOf?, Option.map_eq_some_iff] at bound
    obtain ⟨spec, first, -⟩ := bound
    have named := List.find?_some first
    have member := List.mem_of_find?_eq_some first
    rw [imported, List.mem_reverse] at member
    exact List.mem_filterMap.2 ⟨spec, member, by simpa using named⟩
  next =>
    left
    rw [tabled] at found
    rw [← Table.name_of_package? loaded found]
    exact List.mem_map_of_mem (Dict.mem_values_of_find? found)

end Apart

section Again

variable {config : Config} {scope : Scope} {plan plan' : ImportPlan} {declared : List String}

def Scope.redeclared (scope : Scope) (declared : List String) : Scope :=
  { scope with declared := declared }

private theorem respelling?_of_unknown {identifier : Identifier}
    (unknown : scope.table.symbol? identifier.word.name = none) :
    scope.respelling? plan identifier = none := by
  cases found : scope.respelling? plan identifier with
  | none => rfl
  | some spelling =>
    obtain ⟨symbol, known, -⟩ := Scope.respelling?_cases found
    simp [unknown] at known

private theorem dotted_of_respelling? {needed : Dict Need} {identifier : Identifier}
    {rewrite : Rewrite} (planned : ImportPlan.make scope.imports needed scope.declared = .ok plan)
    (listed : ∀ path need, (scope.inspect identifier).need = some (path, need) →
      (needed.find? path).isSome)
    (kept : scope.respelling? plan identifier = none)
    (found : (scope.inspect identifier).rewrite = some rewrite) :
    ∃ symbol path, rewrite = .qualify identifier.word symbol path ∧ symbol.isRenamed = false ∧
      ImportPlan.isDotted scope.imports path := by
  have unspelled : rewrite.respelling? plan = none := by
    simpa [Scope.respelling?, found] using kept
  obtain ⟨symbol, known, ⟨rfl, renamed⟩ | ⟨reference, package, -, rfl, need⟩⟩ :=
    Scope.rewrite_cases found
  · cases unspelled
  · refine ⟨symbol, package.importPath, rfl, ?_⟩
    obtain ⟨binding, bound⟩ := Option.isSome_iff_exists.1
      (ImportPlan.isSome_find?_of_make planned (listed _ _ need))
    simp only [Rewrite.respelling?, bound] at unspelled
    cases binding with
    | qualified name => cases unspelled
    | dot =>
      refine ⟨by simpa using unspelled, ?_⟩
      exact (ImportPlan.eq_dot_iff_of_make planned bound).1 rfl

private theorem rewrite_of_kept {identifier : Identifier} (other : identifier.site ≠ .reference)
    (kept : scope.respelling? plan identifier = none) :
    (scope.inspect identifier).rewrite = none := by
  cases found : (scope.inspect identifier).rewrite with
  | none => rfl
  | some rewrite =>
    obtain ⟨symbol, -, ⟨rfl, -⟩ | ⟨reference, -⟩⟩ := Scope.rewrite_cases found
    · simp [Scope.respelling?, found, Rewrite.respelling?] at kept
    · exact absurd reference other

def Rewrite.at (word : Occurrence) : Rewrite → Rewrite
  | .rename _ symbol => .rename word symbol
  | .qualify _ symbol importPath => .qualify word symbol importPath

private theorem renameOf_rewrite (word word' : Occurrence) (symbol : Symbol) :
    (Scope.renameOf word' symbol).rewrite =
      (Scope.renameOf word symbol).rewrite.map (·.at word') := by
  cases renamed : symbol.isRenamed <;> simp [Scope.renameOf, renamed, Rewrite.at]

private theorem inspect_redeclared {word word' : Occurrence} {site : Site}
    (same : word'.name = word.name) (unselected : ∀ qualifier, site ≠ .selected qualifier) :
    ((scope.redeclared declared).inspect ⟨word', site⟩).rewrite =
      (scope.inspect ⟨word, site⟩).rewrite.map (·.at word') := by
  have table : (scope.redeclared declared).table = scope.table := rfl
  have isHome (package : String) :
      (scope.redeclared declared).isHome package = scope.isHome package := rfl
  have renameOf := renameOf_rewrite word word'
  cases site with
  | selected qualifier => exact absurd rfl (unselected qualifier)
  | reference =>
    simp only [Scope.inspect, Scope.reference, table, isHome, same]
    cases scope.table.symbol? word.name with
    | none => rfl
    | some symbol =>
      cases home : scope.isHome symbol.package with
      | true => simpa [home] using renameOf symbol
      | false =>
        cases package : scope.table.package? symbol.package <;> simp [home, package, Rewrite.at]
  | declaration kind =>
    simp only [Scope.inspect, Scope.declaration, table, isHome, same]
    cases scope.table.symbol? word.name with
    | none => rfl
    | some symbol =>
      cases home : scope.isHome symbol.package with
      | true =>
        by_cases bound : kind = .packageLevel ∨ kind = .receiver
        · simpa [home, bound] using renameOf symbol
        · simp [home, bound]
      | false => by_cases level : kind = .packageLevel <;> simp [home, level]

private theorem respelling?_redeclared {needed needed' : Dict Need} {declared' : List String}
    {word word' : Occurrence} {site : Site}
    (planned : ImportPlan.make scope.imports needed scope.declared = .ok plan)
    (planned' : ImportPlan.make scope.imports needed' declared' = .ok plan')
    (listed : ∀ path need, (scope.inspect ⟨word, site⟩).need = some (path, need) →
      (needed.find? path).isSome)
    (same : word'.name = word.name) (unselected : ∀ qualifier, site ≠ .selected qualifier)
    (kept : scope.respelling? plan ⟨word, site⟩ = none) :
    (scope.redeclared declared).respelling? plan' ⟨word', site⟩ = none := by
  rw [Scope.respelling?, inspect_redeclared same unselected]
  cases found : (scope.inspect ⟨word, site⟩).rewrite with
  | none => rfl
  | some rewrite =>
    obtain ⟨symbol, path, rfl, plain, dotted⟩ := dotted_of_respelling? planned listed kept found
    simp only [Option.map_some, Option.bind_some, Rewrite.at, Rewrite.respelling?]
    cases bound : plan'.bindings.find? path with
    | none => rfl
    | some binding =>
      obtain rfl := (ImportPlan.eq_dot_iff_of_make planned' bound).2 dotted
      simp [plain]

private theorem respelling?_selected {word word' qualifier qualifier' : Occurrence}
    (same : word'.name = word.name) (also : qualifier'.name = qualifier.name)
    (hidden : ∀ package, scope.packageOf? qualifier.name = some package →
      qualifier.name ∈ scope.declared → qualifier.name ∈ declared)
    (kept : scope.respelling? plan ⟨word, .selected (some qualifier)⟩ = none) :
    (scope.redeclared declared).respelling? plan' ⟨word', .selected (some qualifier')⟩ = none := by
  have selected : ((scope.redeclared declared).selected word' qualifier').rewrite = none := by
    rw [Scope.selected_rewrite, also, same]
    split_ifs with now
    · rfl
    · change (scope.packageOf? qualifier.name).bind _ = none
      cases found : scope.packageOf? qualifier.name with
      | none => rfl
      | some package =>
        have visible : qualifier.name ∉ scope.declared := fun old => now (hidden package found old)
        have unchanged : (scope.selected word qualifier).rewrite = none :=
          rewrite_of_kept (by simp) kept
        rw [Scope.selected_rewrite, if_neg visible, found, Option.bind_some,
          Option.map_eq_none_iff] at unchanged
        rw [Option.bind_some, Option.map_eq_none_iff]
        exact unchanged
  simp [Scope.respelling?, Scope.inspect, selected]

private theorem respelling?_of_plain {identifier : Identifier}
    (other : identifier.site ≠ .reference)
    (plain : ∀ symbol, scope.table.symbol? identifier.word.name = some symbol →
      symbol.isRenamed = false) : scope.respelling? plan identifier = none := by
  cases found : scope.respelling? plan identifier with
  | none => rfl
  | some spelling =>
    obtain ⟨symbol, known, -, ⟨-, renamed⟩ | ⟨reference, -⟩⟩ := Scope.respelling?_cases found
    · simp [plain symbol known] at renamed
    · exact absurd reference other

private theorem respelling?_of_no_package {word qualifier : Occurrence}
    (unknown : scope.packageOf? qualifier.name = none) :
    scope.respelling? plan ⟨word, .selected (some qualifier)⟩ = none := by
  simp [Scope.respelling?, Scope.inspect, Scope.selected_rewrite, unknown]

private theorem symbol?_of_renamed (apart : KeptApart scope.table scope.imports plan)
    {name : String} {symbol : Symbol} (known : scope.table.symbol? name = some symbol)
    (renamed : symbol.isRenamed) : scope.table.symbol? symbol.exported = none := by
  refine symbol?_eq_none_of_not_mem fun member => ?_
  exact apart.symbols_renamed member (mem_renamedNames known renamed)

private theorem name_cases {sites : List Identifier} {word : Occurrence} (start : Nat)
    (bare : (scope.swap plan sites).qualifier? word = none) :
    scope.swap plan sites word = none ∧
        Occurrence.name ⟨start, (scope.swap plan sites).name word⟩ = word.name ∨
      ∃ symbol, scope.table.symbol? word.name = some symbol ∧ symbol.isRenamed ∧
        Occurrence.name ⟨start, (scope.swap plan sites).name word⟩ = symbol.exported := by
  cases found : scope.swap plan sites word with
  | none => exact .inl ⟨rfl, by rw [Swap.name_of_none found]; rfl⟩
  | some spelling =>
    right
    rw [Swap.qualifier?_of_some found] at bare
    obtain ⟨identifier, -, rfl, spelled⟩ := Scope.swap_cases found
    obtain ⟨symbol, known, name, ⟨-, renamed⟩ | ⟨-, _, -, qualified⟩⟩ :=
      Scope.respelling?_cases spelled
    · refine ⟨symbol, known, renamed, ?_⟩
      rw [Swap.name_of_some found, name, Occurrence.name, String.ofList_toList]
    · simp [bare] at qualified

private theorem respelling?_of_becomes (loaded : Table.load config = .ok scope.table)
    (apart : KeptApart scope.table scope.imports plan) {needed needed' : Dict Need}
    {declared' : List String}
    (planned : ImportPlan.make scope.imports needed scope.declared = .ok plan)
    (planned' : ImportPlan.make scope.imports needed' declared' = .ok plan')
    {sites : List Identifier}
    (distinct : sites.Pairwise fun a b => a.word.start < b.word.start)
    (listed : ∀ identifier ∈ sites, ∀ path need,
      (scope.inspect identifier).need = some (path, need) → (needed.find? path).isSome)
    (hidden : ∀ name ∈ localNames scope.table scope.imports plan,
      name ∈ scope.declared → name ∈ declared)
    {identifier : Identifier} (member : identifier ∈ sites) {chunk : List Identifier}
    (becomes : identifier.Becomes (scope.swap plan sites) chunk) :
    ∀ later ∈ chunk, (scope.redeclared declared).respelling? plan' later = none := by
  have swapped : scope.swap plan sites identifier.word = scope.respelling? plan identifier :=
    Scope.swap_of_mem distinct member
  cases becomes with
  | @bare word site site' start bare role =>
    refine List.forall_mem_singleton.2 ?_
    rcases name_cases start bare with ⟨kept, same⟩ | ⟨symbol, known, renamed, exported⟩
    · rw [swapped] at kept
      cases role with
      | reference =>
        exact respelling?_redeclared planned planned' (listed _ member) same (by simp) kept
      | declaration kind =>
        exact respelling?_redeclared planned planned' (listed _ member) same (by simp) kept
      | unqualified => rfl
      | hidden => rfl
      | @selected qualifier place plain =>
        rcases name_cases place plain with ⟨-, also⟩ | ⟨symbol, known, renamed, exported⟩
        · refine respelling?_selected same also (fun package found old => ?_) kept
          exact hidden _ (mem_localNames_of_packageOf? loaded rfl rfl found) old
        · refine respelling?_of_no_package ?_
          rw [exported]
          change scope.packageOf? symbol.exported = none
          cases found : scope.packageOf? symbol.exported with
          | none => rfl
          | some package =>
            exact absurd (mem_localNames_of_packageOf? loaded rfl rfl found)
              (apart.renamed_local (mem_renamedNames known renamed))
    · refine respelling?_of_unknown ?_
      rw [exported]
      exact symbol?_of_renamed apart known renamed
  | @qualified word qualifier outer start last found spelled =>
    obtain ⟨spelling, swap, front⟩ := Option.bind_eq_some_iff.1 found
    rw [swapped] at swap
    obtain ⟨symbol, known, name, ⟨bare, -⟩ | ⟨-, localName, chosen, qualified⟩⟩ :=
      Scope.respelling?_cases swap
    · simp [bare] at front
    · have text : qualifier = localName.toList := by
        rw [front] at qualified
        exact Option.some.inj qualified
      have front : (Occurrence.mk start qualifier).name = localName := by
        rw [Occurrence.name, text, String.ofList_toList]
      have exported : Occurrence.name ⟨last, (scope.swap plan sites).name word⟩ =
          symbol.exported := by
        rw [Swap.name_of_some (swapped.trans swap), name, Occurrence.name, String.ofList_toList]
      refine List.forall_mem_cons.2 ⟨?_, List.forall_mem_singleton.2 ?_⟩
      · refine respelling?_of_unknown (symbol?_eq_none_of_not_mem fun member => ?_)
        rw [front] at member
        exact apart.symbols_local member (List.mem_append_right _ chosen)
      · refine respelling?_of_plain (by simp) fun next again => ?_
        rw [exported] at again
        exact not_isRenamed_of_exported apart known again

end Again

def Scope.spellings (scope : Scope) (plan : ImportPlan) (sites : List Identifier) :
    List (Occurrence × Respelling) :=
  sites.filterMap fun identifier =>
    (scope.respelling? plan identifier).map fun spelling => (identifier.word, spelling)

/-- The edits that write these spellings. -/
def Scope.edits (scope : Scope) (plan : ImportPlan) (sites : List Identifier) : List Edit :=
  (scope.spellings plan sites).map fun (word, spelling) =>
    ⟨word.start, word.stop, Token.texts spelling.tokens⟩

private theorem Scope.word_of_rewrite {scope : Scope} {identifier : Identifier} {rewrite : Rewrite}
    (found : (scope.inspect identifier).rewrite = some rewrite) :
    rewrite.word = identifier.word := by
  obtain ⟨symbol, -, ⟨rfl, -⟩ | ⟨-, package, -, rfl, -⟩⟩ := Scope.rewrite_cases found <;> rfl

private theorem Scope.spellings_eq (scope : Scope) (plan : ImportPlan) (sites : List Identifier) :
    ((sites.map scope.inspect).filterMap (·.rewrite)).filterMap (·.spelling? plan) =
      (scope.spellings plan sites).map fun (word, spelling) =>
        (word, String.ofList (Token.texts spelling.tokens), spelling.qualifier.isSome) := by
  rw [List.filterMap_filterMap, List.filterMap_map, Scope.spellings, List.map_filterMap]
  refine List.filterMap_congr fun identifier _ => ?_
  simp only [Function.comp_apply, Scope.respelling?]
  cases found : (scope.inspect identifier).rewrite with
  | none => rfl
  | some rewrite =>
    simp [Rewrite.spelling?_eq, Scope.word_of_rewrite found, Function.comp_def]

private theorem isSome_find?_addNeed {needed : Dict Need} {entry : String × Need} {path : String} :
    ((addNeed needed entry).find? path).isSome ↔
      (needed.find? path).isSome ∨ path = entry.1 := by
  have inserted : ((needed.insert entry.1 entry.2).find? path).isSome ↔
      (needed.find? path).isSome ∨ path = entry.1 := by
    rw [Dict.find?_insert]
    by_cases same : path = entry.1 <;> simp [same]
  rw [addNeed]
  split
  · exact inserted
  · rw [Dict.insertNew]
    split
    next known =>
      refine ⟨.inl, ?_⟩
      rintro (old | rfl)
      · exact old
      · exact known
    · exact inserted

theorem isSome_find?_foldl_addNeed {entries : List (String × Need)} {needed : Dict Need}
    {path : String} :
    ((entries.foldl addNeed needed).find? path).isSome ↔
      (needed.find? path).isSome ∨ path ∈ entries.map Prod.fst := by
  induction entries generalizing needed with
  | nil => simp
  | cons entry entries ih =>
    rw [List.foldl_cons, ih, isSome_find?_addNeed, List.map_cons, List.mem_cons, or_assoc]

end Qualification

namespace SourceFile

open Qualification

/-- What is known about a file with the given imports before its identifiers are looked at. -/
def scope (file : SourceFile) (table : Table) (home : Option Package) (imports : List Import) :
    Scope :=
  ⟨table, home, imports, declaredNames file.sites⟩

/-- The packages that the identifiers of a file ask for. -/
def needed (file : SourceFile) (scope : Scope) : Dict Need :=
  ((file.sites.map scope.inspect).filterMap (·.need)).foldl addNeed Dict.empty

/-- The import plan on which the qualification of a file rests. -/
def importPlan (file : SourceFile) (table : Table) (home : Option Package) :
    Except Failure ImportPlan :=
  match file.imports with
  | .error cause => .error (.ambiguous cause)
  | .ok imports =>
    let scope := file.scope table home imports
    ImportPlan.make imports (file.needed scope) scope.declared

theorem importPlan_eq {file : SourceFile} {table : Table} {home : Option Package}
    {imports : List Import} (read : file.imports = .ok imports) :
    file.importPlan table home =
      ImportPlan.make imports (file.needed (file.scope table home imports))
        (declaredNames file.sites) := by
  simp only [importPlan, read]
  rfl

theorem importPlan_of_qualify {file edited : SourceFile} {table : Table} {home : Option Package}
    {result : Qualification} (done : file.qualify table home = .ok (edited, result)) :
    ∃ plan, file.importPlan table home = .ok plan := by
  unfold qualify tryQualify at done
  split at done
  · cases done
  next imports read =>
    rw [importPlan_eq read]
    dsimp only at done
    split at done
    · cases done
    next plan planned => exact ⟨plan, planned⟩

/-- A qualification makes the edits that its plan asks for, and counts them. -/
theorem qualify_eq {file : SourceFile} {table : Table} {home : Option Package}
    {imports : List Import} {plan : ImportPlan} (read : file.imports = .ok imports)
    (planned : file.importPlan table home = .ok plan) :
    let scope := file.scope table home imports
    let spellings := scope.spellings plan file.sites
    file.qualify table home =
      ((file.edit (scope.edits plan file.sites)).mapError .ofEditError).map fun done =>
        (done.1,
          { qualified := (spellings.filter (·.2.qualifier.isSome)).length
            renamed := (spellings.filter (·.2.qualifier.isNone)).length
            imports := plan.additions
            warnings := scope.selfImport ++
              (file.sites.map scope.inspect).filterMap (·.warning) }) := by
  intro scope spellings
  simp only [importPlan, read, needed, SourceFile.scope] at planned
  simp only [qualify, tryQualify, edit, read, planned]
  rw [Scope.spellings_eq]
  simp only [List.map_map, List.filter_map, List.filterMap_map, List.length_map, Function.comp_def,
    String.toList_ofList, Option.not_isSome, Scope.edits, SourceFile.scope, scope, spellings]
  generalize file.tryEdit _ = attempt
  obtain ⟨result, left⟩ := attempt
  cases result <;> rfl

theorem qualify_eq_ok {file edited : SourceFile} {table : Table} {home : Option Package}
    {imports : List Import} {plan : ImportPlan} {result : Qualification}
    (read : file.imports = .ok imports) (planned : file.importPlan table home = .ok plan)
    (done : file.qualify table home = .ok (edited, result)) :
    let spellings := (file.scope table home imports).spellings plan file.sites
    (∃ changed, file.edit ((file.scope table home imports).edits plan file.sites) =
        .ok (edited, changed)) ∧
      result.qualified = (spellings.filter (·.2.qualifier.isSome)).length ∧
      result.renamed = (spellings.filter (·.2.qualifier.isNone)).length ∧
      result.imports = plan.additions := by
  intro spellings
  rw [qualify_eq read planned] at done
  cases made : file.edit ((file.scope table home imports).edits plan file.sites) with
  | error e =>
    rw [made] at done
    cases done
  | ok outcome =>
    rw [made] at done
    cases done
    exact ⟨⟨outcome.2, rfl⟩, rfl, rfl, rfl⟩

theorem edit_eq_ok {file edited : SourceFile} {edits : List Edit} {text : Text} {changed : Bool}
    (scanned : Span.scan file.text = .ok file.spans)
    (spliced : Edit.splice file.text edits = some text)
    (done : file.edit edits = .ok (edited, changed)) :
    edited.text = text ∧ Span.scan edited.text = .ok edited.spans := by
  simp only [edit_eq, spliced] at done
  split_ifs at done with none same
  · cases done
    have whole : Edit.splice file.text [] = some file.text := by
      simp [Edit.splice, Edit.spliceFrom, Text.cut?]
    rw [none, whole] at spliced
    exact ⟨Option.some.inj spliced, scanned⟩
  · cases done
    exact ⟨same.symm, scanned⟩
  · cases found : Span.scan text with
    | error cause => simp [withText, found, Except.map] at done
    | ok spans =>
      simp only [withText, found, Except.map, Except.ok.injEq, Prod.mk.injEq] at done
      obtain ⟨rfl, -⟩ := done
      exact ⟨rfl, found⟩

theorem edit_of_sorted {file edited : SourceFile} {edits : List Edit}
    (sorted : edits.Pairwise fun a b => Edit.precedes a b)
    (spliced : Edit.spliceFrom file.text 0 edits = some edited.text)
    (changed : edited.text ≠ file.text) (taken : file.withText edited.text = .ok edited) :
    file.edit edits = .ok (edited, true) := by
  have some : edits ≠ [] := by
    rintro rfl
    exact changed (by simpa [Edit.spliceFrom, Text.cut?] using spliced.symm)
  have whole : Edit.splice file.text edits = .some edited.text := by
    rw [Edit.splice, List.mergeSort_of_pairwise sorted, spliced]
  simp only [edit_eq, some, whole, changed, taken, if_false]

theorem imports_congr {file other : SourceFile}
    (same : Span.firstOf? .importBlock other.spans = Span.firstOf? .importBlock file.spans) :
    other.imports = file.imports := by
  simp only [imports, ImportLayout.ofFile, same]

theorem sites_distinct {file : SourceFile} (scanned : Span.scan file.text = .ok file.spans) :
    file.sites.Pairwise fun a b => a.word.start < b.word.start := by
  have sorted : (Span.namesFrom 0 file.spans).Pairwise fun a b => a.start < b.start :=
    Span.namesFrom_sorted (Span.text_ne_nil_of_word scanned)
  rw [← Site.classify_words, List.pairwise_map] at sorted
  exact sorted

section Swap

variable {config : Config} {table : Table} {home : Option Package} {file : SourceFile}
  {imports : List Import} {plan : ImportPlan}

def swap (file : SourceFile) (table : Table) (home : Option Package) (imports : List Import)
    (plan : ImportPlan) : Swap :=
  (file.scope table home imports).swap plan file.sites

private theorem not_isKeyword_of_mem_sites {identifier : Identifier}
    (member : identifier ∈ file.sites) : Word.isKeyword identifier.word.text = false := by
  have named : identifier.word ∈ Span.namesFrom 0 file.spans := by
    rw [← Site.classify_words]
    exact List.mem_map_of_mem member
  exact (Span.namesFrom_start_le _ named).2

private theorem swap_isValid (loaded : Table.load config = .ok table)
    (identifiers : ∀ name ∈ plan.names, Word.isIdentifier name.toList) :
    (file.swap table home imports plan).IsValid := by
  intro word spelling found
  obtain ⟨identifier, member, rfl, spelled⟩ := Scope.swap_cases found
  refine ⟨not_isKeyword_of_mem_sites member, ?_⟩
  obtain ⟨symbol, known, name, qualifier⟩ := Scope.respelling?_cases spelled
  refine ⟨?_, ?_⟩
  · rw [name]
    exact Table.isIdentifier_of_mem_symbols loaded (Table.name_of_symbol? known).1
  · intro front found
    obtain ⟨bare, -⟩ | ⟨-, chosen, member, qualified⟩ := qualifier
    · simp [bare] at found
    · rw [qualified] at found
      cases found
      exact identifiers chosen member

private theorem swap_references (scanned : Span.scan file.text = .ok file.spans) :
    ∀ identifier ∈ file.sites,
      ((file.swap table home imports plan).qualifier? identifier.word).isSome →
        identifier.site = .reference := by
  intro identifier member qualified
  obtain ⟨front, found⟩ := Option.isSome_iff_exists.1 qualified
  obtain ⟨spelling, swapped, front⟩ := Option.bind_eq_some_iff.1 found
  rw [swap, Scope.swap_of_mem (sites_distinct scanned) member] at swapped
  obtain ⟨symbol, -, -, ⟨bare, -⟩ | ⟨reference, -⟩⟩ := Scope.respelling?_cases swapped
  · simp [bare] at front
  · exact reference

theorem edits_eq (scanned : Span.scan file.text = .ok file.spans) :
    (file.scope table home imports).edits plan file.sites =
      Span.editsFrom (file.swap table home imports plan) 0 file.spans := by
  have names : ∀ word spelling, file.swap table home imports plan word = some spelling →
      Word.isKeyword word.text = false := by
    intro word spelling found
    obtain ⟨identifier, member, rfl, -⟩ := Scope.swap_cases found
    exact not_isKeyword_of_mem_sites member
  rw [Span.editsFrom_eq names, ← Site.classify_words, List.filterMap_map, Scope.edits,
    Scope.spellings, List.map_filterMap]
  refine List.filterMap_congr fun identifier member => ?_
  simp only [Function.comp_apply, swap, Scope.swap_of_mem (sites_distinct scanned) member]
  simp [Function.comp_def]

private theorem spans_of_qualify (loaded : Table.load config = .ok table)
    (scanned : Span.scan file.text = .ok file.spans) {tokens : List Token}
    (lexed : Token.lex file.text = .ok tokens)
    (apart : tokens.IsChain fun a b => a.kind = .number → b.kind ≠ .word)
    (identifiers : ∀ name ∈ plan.names, Word.isIdentifier name.toList)
    (read : file.imports = .ok imports) (planned : file.importPlan table home = .ok plan)
    {once : SourceFile} {result : Qualification}
    (done : file.qualify table home = .ok (once, result)) :
    once.spans = Span.respellFrom (file.swap table home imports plan) 0 file.spans := by
  have valid : (file.swap table home imports plan).IsValid := swap_isValid loaded identifiers
  obtain ⟨⟨changed, edited⟩, -⟩ := qualify_eq_ok read planned done
  rw [edits_eq scanned] at edited
  have spliced := Span.splice_editsFrom (file.swap table home imports plan) file.spans
  rw [Span.texts_of_scan scanned] at spliced
  obtain ⟨text, rescanned⟩ := edit_eq_ok scanned spliced edited
  have again := Span.scan_respellFrom valid lexed (Token.spares_of_isChain apart) scanned
  rw [text, again] at rescanned
  exact (Except.ok.inj rescanned).symm

end Swap

private theorem exists_of_mem_flatten {α β : Type} {relation : α → List β → Prop} {items : List α}
    {chunks : List (List β)} (related : List.Forall₂ relation items chunks) {found : β}
    (member : found ∈ chunks.flatten) :
    ∃ item ∈ items, ∃ chunk, relation item chunk ∧ found ∈ chunk := by
  induction related with
  | nil => cases member
  | @cons item chunk items chunks first rest ih =>
    rcases List.mem_append.1 member with here | later
    · exact ⟨item, List.mem_cons_self, chunk, first, here⟩
    · obtain ⟨other, among, rest⟩ := ih later
      exact ⟨other, List.mem_cons_of_mem _ among, rest⟩

private theorem exists_chunk_of_mem {α β : Type} {relation : α → List β → Prop} {items : List α}
    {chunks : List (List β)} (related : List.Forall₂ relation items chunks) {item : α}
    (member : item ∈ items) : ∃ chunk, relation item chunk ∧ chunk ⊆ chunks.flatten := by
  induction related with
  | nil => cases member
  | @cons head chunk items chunks first rest ih =>
    rcases List.mem_cons.1 member with rfl | later
    · exact ⟨chunk, first, List.subset_append_left _ _⟩
    · obtain ⟨other, becomes, among⟩ := ih later
      exact ⟨other, becomes, List.subset_append_of_subset_right _ among⟩

private theorem declaredNames_of_becomes {scope : Scope} {plan : ImportPlan}
    {sites : List Identifier} {chunks : List (List Identifier)}
    (becomes : List.Forall₂ (Identifier.Becomes (scope.swap plan sites)) sites chunks)
    {name : String} (other : scope.table.symbol? name = none)
    (declared : name ∈ declaredNames sites) : name ∈ declaredNames chunks.flatten := by
  simp only [declaredNames, List.mem_map, List.mem_filter] at declared ⊢
  obtain ⟨identifier, ⟨member, hides⟩, rfl⟩ := declared
  obtain ⟨chunk, became, among⟩ := exists_chunk_of_mem becomes member
  cases became with
  | qualified => cases hides
  | @bare word site site' start bare role =>
    refine ⟨_, ⟨among List.mem_cons_self, ?_⟩, ?_⟩
    · cases role with
      | declaration kind => exact hides
      | _ => cases hides
    · rcases name_cases start bare with ⟨-, same⟩ | ⟨symbol, known, -⟩
      · exact same
      · simp [other] at known

/-- Qualification has nothing to do on its own output. Whatever the mapping and the home package, a
file whose names are kept apart, and in which no word touches a number before it, is not changed by
a second qualification, which rewrites nothing. -/
theorem qualified_text_settled {config : Config} {table : Table} {home : Option Package}
    {file once twice : SourceFile} {tokens : List Token} {imports : List Import}
    {plan : ImportPlan} {first second : Qualification}
    (loaded : Table.load config = .ok table) (scanned : Span.scan file.text = .ok file.spans)
    (lexed : Token.lex file.text = .ok tokens)
    (separate : tokens.IsChain fun a b => a.kind = .number → b.kind ≠ .word)
    (read : file.imports = .ok imports) (planned : file.importPlan table home = .ok plan)
    (apart : KeptApart table imports plan)
    (qualified : file.qualify table home = .ok (once, first))
    (again : once.qualify table home = .ok (twice, second)) :
    twice = once ∧ second.qualified = 0 ∧ second.renamed = 0 := by
  have spans := spans_of_qualify loaded scanned lexed separate apart.identifiers read planned
    qualified
  have valid : (file.swap table home imports plan).IsValid := swap_isValid loaded apart.identifiers
  obtain ⟨chunks, becomes, sites⟩ := Site.classify_respellFrom valid (swap_references scanned)
  rw [← spans] at sites
  have imported : once.imports = .ok imports := by
    rw [← read]
    refine imports_congr ?_
    rw [spans, Span.firstOf?_importBlock_respellFrom _ scanned]
  obtain ⟨plan', planned'⟩ := importPlan_of_qualify again
  obtain ⟨⟨changed, edited⟩, qualifiedCount, renamedCount, -⟩ :=
    qualify_eq_ok imported planned' again
  rw [importPlan_eq read] at planned
  rw [importPlan_eq imported] at planned'
  -- What the later scope knows differs in the declared names only, and of these no local name is
  -- lost.
  have hidden : ∀ name ∈ localNames table imports plan,
      name ∈ declaredNames file.sites → name ∈ declaredNames once.sites := by
    intro name member declared
    have other : table.symbol? name = none :=
      symbol?_eq_none_of_not_mem fun symbol => apart.symbols_local symbol member
    rw [SourceFile.sites, sites]
    exact declaredNames_of_becomes becomes other declared
  have listed : ∀ identifier ∈ file.sites, ∀ path need,
      ((file.scope table home imports).inspect identifier).need = some (path, need) →
        ((file.needed (file.scope table home imports)).find? path).isSome := by
    intro identifier member path need asked
    refine isSome_find?_foldl_addNeed.2 (.inr (List.mem_map.2 ⟨(path, need), ?_, rfl⟩))
    exact List.mem_filterMap.2 ⟨_, List.mem_map_of_mem member, asked⟩
  have settled : (once.scope table home imports).spellings plan' once.sites = [] := by
    refine List.filterMap_eq_nil_iff.2 fun later member => ?_
    rw [Option.map_eq_none_iff]
    rw [SourceFile.sites, sites] at member
    obtain ⟨identifier, among, chunk, became, inside⟩ := exists_of_mem_flatten becomes member
    have quiet : ∀ later ∈ chunk, (once.scope table home imports).respelling? plan' later = none :=
      @respelling?_of_becomes config (file.scope table home imports) plan plan'
        (declaredNames once.sites) loaded apart _ _ _ planned planned' _ (sites_distinct scanned)
        listed hidden _ among _ became
    exact quiet later inside
  rw [Scope.edits, settled] at edited
  rw [settled] at qualifiedCount renamedCount
  refine ⟨?_, qualifiedCount, renamedCount⟩
  simp only [edit_eq, List.map_nil, if_true, Except.ok.injEq, Prod.mk.injEq] at edited
  exact edited.1.symm

/-- A mapping with a symbol that goes to another package, one that is renamed there and one that is
renamed at home. -/
def harbourConfig : Config where
  modulePath := "m"
  packages := [⟨none, "a", none⟩, ⟨none, "b", none⟩]
  symbols := [⟨"Plain", "b", none⟩, ⟨"Foo", "b", some "Bar"⟩, ⟨"Old", "a", some "New"⟩]

/-- The table of this mapping. -/
def harbourTable : Table where
  modulePath := "m"
  packages := Dict.ofList [("a", ⟨"a", "a", "m/a"⟩), ("b", ⟨"b", "b", "m/b"⟩)]
  files := Dict.empty
  symbols := [⟨"Plain", "b", "Plain"⟩, ⟨"Foo", "b", "Bar"⟩, ⟨"Old", "a", "New"⟩]
  excludes := []
  includeTests := true

def harbourFile (text : String) : SourceFile :=
  ⟨"a/x.go", none, "a", text.toList, (Span.scan text.toList).toOption.getD []⟩

/-- A file in which symbols are used bare and selected. -/
def harbourBefore : SourceFile :=
  harbourFile "package a\n\nvar x = Foo + b.Foo + Plain + Old\n"

/-- The same file with its references qualified. -/
def harbourAfter : SourceFile :=
  harbourFile "package a\n\nvar x = b.Bar + b.Bar + b.Plain + New\n"

private theorem load_harbourConfig : Table.load harbourConfig = .ok harbourTable :=
  Table.load_of_sorted rfl rfl rfl (by decide +kernel) rfl rfl

def harbourEdits : List Edit :=
  [⟨19, 22, "b.Bar".toList⟩, ⟨27, 30, "Bar".toList⟩, ⟨33, 38, "b.Plain".toList⟩,
    ⟨41, 44, "New".toList⟩]

private theorem exists_harbourPlan : ∃ plan,
    harbourBefore.importPlan harbourTable (harbourTable.package? "a") = .ok plan ∧
      plan.names = ["b"] ∧
      (harbourBefore.scope harbourTable (harbourTable.package? "a") []).edits plan
        harbourBefore.sites = harbourEdits := by
  have view : (harbourBefore.importPlan harbourTable (harbourTable.package? "a")).toOption.map
      (fun plan => (plan.names,
        (harbourBefore.scope harbourTable (harbourTable.package? "a") []).edits plan
          harbourBefore.sites)) = some (["b"], harbourEdits) := by
    decide +kernel
  obtain ⟨plan, planned, seen⟩ := exists_of_view view
  obtain ⟨names, edits⟩ := Prod.mk.inj seen
  exact ⟨plan, planned, names, edits⟩

private theorem edit_harbourBefore :
    harbourBefore.edit harbourEdits = .ok (harbourAfter, true) :=
  edit_of_sorted (by decide +kernel) (by decide +kernel) (by decide +kernel) (by decide +kernel)

/-- A second qualification leaves the file as the first one made it. -/
theorem harbour_settled :
    ∃ first second,
      harbourBefore.qualify harbourTable (harbourTable.package? "a") = .ok (harbourAfter, first) ∧
        harbourAfter.qualify harbourTable (harbourTable.package? "a") =
          .ok (harbourAfter, second) ∧
        second.qualified = 0 ∧ second.renamed = 0 := by
  obtain ⟨plan, planned, names, edits⟩ := exists_harbourPlan
  have apart : KeptApart harbourTable [] plan := by
    constructor
    · exact List.disjoint_left.2 (by decide +kernel)
    · rw [localNames, names]
      exact List.disjoint_left.2 (by decide +kernel)
    · rw [localNames, names]
      exact List.disjoint_left.2 (by decide +kernel)
    · rw [names]
      decide +kernel
  have scanned : Span.scan harbourBefore.text = .ok harbourBefore.spans := by decide +kernel
  have lexed : Token.lex harbourBefore.text =
      .ok ((Token.lex harbourBefore.text).toOption.getD []) := by decide +kernel
  have read : harbourBefore.imports = .ok [] := by decide +kernel
  have qualified := qualify_eq read planned
  simp only [edits, edit_harbourBefore, Except.mapError, Except.map] at qualified
  have success : (harbourAfter.qualify harbourTable (harbourTable.package? "a")).isOk := by
    decide +kernel
  cases again : harbourAfter.qualify harbourTable (harbourTable.package? "a") with
  | error e => simp [again, Except.isOk, Except.toBool] at success
  | ok done =>
    obtain ⟨twice, second⟩ := done
    obtain ⟨rfl, settled⟩ := qualified_text_settled load_harbourConfig scanned lexed
      (by decide +kernel) read planned apart qualified again
    exact ⟨_, second, qualified, rfl, settled⟩

end SourceFile

end Repackage
