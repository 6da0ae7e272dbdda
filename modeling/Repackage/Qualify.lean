import Repackage.Import.Layout
import Repackage.Import.Plan
import Repackage.Mapping.Table

/-!
Qualification of references. Every identifier is looked at on its own: a bare reference to a symbol
of another package gets that package's local name in front, a symbol of the file's own package is
renamed where it changes its name, and a selector of a package that is not imported yet asks for
the import.
-/

set_option autoImplicit false
set_option relaxedAutoImplicit false

namespace Repackage

/-- What qualification did to a file. -/
structure Qualification where
  qualified : Nat := 0
  renamed : Nat := 0
  /-- The imports that the new references need. -/
  imports : List Import := []
  warnings : List String := []
  deriving DecidableEq

namespace Qualification

/-- A change of one identifier. -/
inductive Rewrite where
  /-- A reference to a symbol of the package with an import path. -/
  | qualify (word : Occurrence) (symbol : Symbol) (importPath : String)
  /-- A name that only changes its spelling. -/
  | rename (word : Occurrence) (symbol : Symbol)
  deriving DecidableEq

/-- What one identifier asks for. -/
structure Finding where
  rewrite : Option Rewrite := none
  /-- A package that is needed, by import path. -/
  need : Option (String × Need) := none
  warning : Option String := none
  deriving DecidableEq

/-- What is known about a file before its identifiers are looked at. -/
structure Scope where
  table : Table
  /-- The package that the file ends up in. -/
  home : Option Package
  /-- The imports of the file. -/
  imports : List Import
  /-- Names declared in the file that would hide an import. -/
  declared : List String

namespace Scope

def isHome (scope : Scope) (package : String) : Bool :=
  scope.home.any (·.name = package)

def importOf? (scope : Scope) (name : String) : Option String :=
  (scope.imports.reverse.find? (·.localName = some name)).map (·.path)

def renameOf (word : Occurrence) (symbol : Symbol) : Finding :=
  if symbol.isRenamed then { rewrite := some (.rename word symbol) } else {}

def reference (scope : Scope) (word : Occurrence) : Finding :=
  match scope.table.symbol? word.name with
  | none => {}
  | some symbol =>
    if scope.isHome symbol.package then renameOf word symbol
    else
      match scope.table.package? symbol.package with
      | none => {}
      | some package =>
        { rewrite := some (.qualify word symbol package.importPath)
          need := some (package.importPath, ⟨package.name, false⟩) }

def declaration (scope : Scope) (word : Occurrence) (kind : Declared) : Finding :=
  match scope.table.symbol? word.name with
  | none => {}
  | some symbol =>
    if scope.isHome symbol.package then
      if kind = .packageLevel ∨ kind = .receiver then renameOf word symbol else {}
    else if kind = .packageLevel then
      { warning := some ("declares '" ++ word.name ++ "', which is mapped to package '" ++
          symbol.package ++ "'") }
    else {}

def packageOf? (scope : Scope) (qualifier : String) : Option Package :=
  match scope.importOf? qualifier with
  | some path => scope.table.packageOfImport? path
  | none => scope.table.package? qualifier

def selected (scope : Scope) (word qualifier : Occurrence) : Finding :=
  if qualifier.name ∈ scope.declared then {}
  else
    match scope.packageOf? qualifier.name with
    | none => {}
    | some package =>
      let renamed := (scope.table.symbol? word.name).filter fun symbol =>
        symbol.package = package.name ∧ symbol.isRenamed
      if renamed.isNone ∧ !scope.table.exports package.name word.name then {}
      else
        { rewrite := renamed.map (.rename word)
          need :=
            if (scope.importOf? qualifier.name).isNone ∧ !scope.isHome package.name then
              some (package.importPath, ⟨qualifier.name, true⟩)
            else none }

def inspect (scope : Scope) (identifier : Identifier) : Finding :=
  match identifier.site with
  | .reference => scope.reference identifier.word
  | .declaration kind => scope.declaration identifier.word kind
  | .selected (some qualifier) => scope.selected identifier.word qualifier
  | .selected none => {}

def selfImport (scope : Scope) : List String :=
  match scope.home with
  | none => []
  | some home =>
    if scope.imports.any (·.path = home.importPath) then
      ["imports its own package \"" ++ home.importPath ++ "\""]
    else []

end Scope

def hidesImports : Site → Bool
  | .declaration kind => kind = .packageLevel || kind = .inner || kind = .receiver
  | _ => false

def declaredNames (sites : List Identifier) : List String :=
  (sites.filter fun identifier => hidesImports identifier.site).map (·.word.name)

def addNeed (needed : Dict Need) (entry : String × Need) : Dict Need :=
  if entry.2.fixed then needed.insert entry.1 entry.2 else needed.insertNew entry.1 entry.2

/-- What a rewrite writes under an import plan, and whether it qualifies. A reference to a package
that is imported with a dot stays bare. -/
def Rewrite.spelling? (plan : ImportPlan) : Rewrite → Option (Occurrence × String × Bool)
  | .rename word symbol => some (word, symbol.exported, false)
  | .qualify word symbol importPath =>
    match plan.bindings.find? importPath with
    | some (.qualified name) => some (word, name ++ "." ++ symbol.exported, true)
    | some .dot => if symbol.isRenamed then some (word, symbol.exported, false) else none
    | none => none

end Qualification

def SourceFile.tryQualify (file : SourceFile) (table : Table) (home : Option Package) :
    Except Failure Qualification × SourceFile :=
  match file.imports with
  | .error cause => (.error (.ambiguous cause), file)
  | .ok imports =>
    let sites := file.sites
    let scope : Qualification.Scope :=
      ⟨table, home, imports, Qualification.declaredNames sites⟩
    let findings := sites.map scope.inspect
    let needed := (findings.filterMap (·.need)).foldl Qualification.addNeed Dict.empty
    match ImportPlan.make imports needed scope.declared with
    | .error e => (.error e, file)
    | .ok plan =>
      let spellings := (findings.filterMap (·.rewrite)).filterMap (·.spelling? plan)
      let edits := spellings.map fun (word, spelling, _) =>
        (⟨word.start, word.stop, spelling.toList⟩ : Edit)
      match file.tryEdit edits with
      | (.error e, left) => (.error (.ofEditError e), left)
      | (.ok _, edited) =>
        (.ok
          { qualified := (spellings.filter (·.2.2)).length
            renamed := (spellings.filter (!·.2.2)).length
            imports := plan.additions
            warnings := scope.selfImport ++ findings.filterMap (·.warning) },
          edited)

def SourceFile.qualify (file : SourceFile) (table : Table) (home : Option Package) :
    Except Failure (SourceFile × Qualification) :=
  succeeded (file.tryQualify table home)

theorem SourceFile.tryQualify_of_error {file : SourceFile} {table : Table} {home : Option Package}
    {failure : Failure} (failed : (file.tryQualify table home).1 = .error failure) :
    (file.tryQualify table home).2 = file := by
  unfold tryQualify at failed ⊢
  cases read : file.imports with
  | error cause => rfl
  | ok imports =>
    rw [read] at failed
    dsimp only at failed ⊢
    split at failed
    · rfl
    · have kept {edits : List Edit} {e : EditError} := @tryEdit_of_error file edits e
      -- The edits decide, and they fail before the file takes anything over.
      split at failed
      · next e left spliced =>
        have same := kept (congrArg Prod.fst spliced)
        rw [spliced] at same
        exact same
      · cases failed

theorem SourceFile.exists_edit_of_qualify {file qualified : SourceFile} {table : Table}
    {home : Option Package} {result : Qualification}
    (done : file.qualify table home = .ok (qualified, result)) :
    ∃ edits changed, file.edit edits = .ok (qualified, changed) := by
  unfold qualify tryQualify at done
  split at done
  · cases done
  · dsimp only at done
    split at done
    · cases done
    · split at done
      · cases done
      · next changed _ spliced =>
        cases done
        exact ⟨_, changed, congrArg succeeded spliced⟩

end Repackage
