import Repackage.Dict
import Repackage.Failure
import Repackage.Import.Basic

/-!
Local names for the packages that a file needs. An import that is there already is used as it is;
a new one takes the package's name, or the nearest name that nothing else in the file has.
-/

set_option autoImplicit false
set_option relaxedAutoImplicit false

namespace Repackage

/-- A package that a file needs. The name is fixed when the file spells it already. -/
structure Need where
  name : String
  fixed : Bool
  deriving DecidableEq

/-- How references to a package are spelled in a file. -/
inductive Binding where
  /-- With a local name and a dot in front. -/
  | qualified (name : String)
  /-- Bare, because the package is imported with a dot. -/
  | dot
  deriving DecidableEq

/-- The bindings of the needed packages by import path, and the imports to add for them. -/
structure ImportPlan where
  bindings : Dict Binding
  additions : List Import

namespace ImportPlan

/-- The first of the numbered names, from a number on, that is not taken. The fuel counts how many
of them are tried before the next one is taken unseen. -/
def numberedName (name : String) (taken : List String) : Nat → Nat → String
  | 0, n => name ++ toString n
  | fuel + 1, n =>
    if name ++ toString n ∈ taken then numberedName name taken fuel (n + 1)
    else name ++ toString n

def parentWord (path : String) : String :=
  match (Text.splitOn '/' path.toList).reverse with
  | _ :: parent :: _ => String.ofList (parent.filter Text.isWordChar)
  | _ => ""

/-- A local name for a package that is not taken: its own name, its name after that of its parent
directory, or its name with a number. -/
def pickName (path name : String) (taken : List String) : String :=
  if name ∉ taken then name
  else if parentWord path ≠ "" ∧ parentWord path ++ name ∉ taken then parentWord path ++ name
  else numberedName name taken taken.length 2

def reuse (spec : Import) (need : Need) : Option Binding :=
  match spec.name with
  | none => some (.qualified need.name)
  | some name =>
    if name = "_" then none
    else if name = "." then some .dot
    else some (.qualified name)

/-- The import of a path under a local name, which is written only where it differs from the
conventional one. -/
def specFor (path name : String) : Import :=
  if name = Import.defaultName path then ⟨none, path⟩ else ⟨some name, path⟩

def planFrom (existing : List Import) (plan : ImportPlan) (taken : List String) :
    List (String × Need) → Except Failure ImportPlan
  | [] => .ok plan
  | (path, need) :: needs =>
    match existing.find? (·.path = path) with
    | some spec =>
      match reuse spec need with
      | none =>
        .error (.conflict ("\"" ++ path ++
          "\" is imported for side effects only but its symbols are referenced"))
      | some binding =>
        planFrom existing { plan with bindings := plan.bindings.insert path binding } taken needs
    | none =>
      let name := if need.fixed then need.name else pickName path need.name taken
      planFrom existing
        ⟨plan.bindings.insert path (.qualified name), plan.additions ++ [specFor path name]⟩
        (name :: taken) needs

/-- Plans the imports of a file from those it has, the packages it needs by import path, and the
names it declares. -/
def make (existing : List Import) (needed : Dict Need) (declared : List String) :
    Except Failure ImportPlan :=
  planFrom existing ⟨.empty, []⟩ (existing.filterMap Import.localName ++ declared) needed.entries

end ImportPlan

end Repackage
