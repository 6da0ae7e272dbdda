import Repackage.Token

/-!
The outline of a source text: the tokens before the package clause, the clause, the tokens up to
the import declarations, those declarations, and everything after them.
-/

set_option autoImplicit false
set_option relaxedAutoImplicit false

namespace Repackage

/-- The regions of a source text, in order. -/
structure Outline where
  /-- White space and comments before the package clause. -/
  header : List Token
  /-- The package clause before its name: the keyword, then white space and comments. -/
  clauseStart : List Token
  /-- The name of the package. -/
  name : Token
  /-- White space, comments and semicolons between the clause and the first import. -/
  gap : List Token
  /-- The consecutive import declarations with what lies between them; empty without imports. -/
  imports : List Token
  /-- Everything else. -/
  body : List Token
  deriving DecidableEq

namespace Outline

def separates (token : Token) : Bool :=
  !token.isSignificant || token.isMark ';'

def isGap (token : Token) : Bool :=
  !token.isSignificant

/-- How many tokens the part of an import declaration after its keyword takes: a group up to its
first closing parenthesis, or an optional name or dot and a literal. -/
def importExtent (tokens : List Token) : Option Nat :=
  let before := (tokens.takeWhile isGap).length
  match tokens.dropWhile isGap with
  | [] => none
  | head :: rest =>
    if head.isMark '(' then
      let inside := (rest.takeWhile fun token => !token.isMark ')').length
      if inside < rest.length then some (before + inside + 2) else none
    else if head.kind = .word ∨ head.isMark '.' then
      match rest.dropWhile isGap with
      | [] => none
      | path :: _ =>
        if path.kind = .literal then some (before + (rest.takeWhile isGap).length + 2) else none
    else if head.kind = .literal then some (before + 1)
    else none

/-- Splits the tokens after the package clause into the gap before the imports, the imports and the
rest. The first token stands on the given line. -/
def splitImports (line : Nat) (tokens : List Token) :
    Except ScanError (List Token × List Token × List Token) :=
  match _found : tokens.dropWhile separates with
  | [] => .ok ([], [], tokens)
  | keyword :: rest =>
    if keyword.isWord "import" then
      let start := line + Token.newlines (tokens.takeWhile separates)
      match importExtent rest with
      | none => .error (.malformedImport start)
      | some n =>
        match splitImports (start + Token.newlines (keyword :: rest.take n)) (rest.drop n) with
        | .error e => .error e
        | .ok (between, more, body) =>
          .ok (tokens.takeWhile separates, keyword :: rest.take n ++ between ++ more, body)
    else .ok ([], [], tokens)
termination_by tokens.length
decreasing_by
  have lengths := congrArg List.length _found
  have bound := (List.dropWhile_sublist separates (l := tokens)).length_le
  simp only [List.length_drop, List.length_cons] at lengths ⊢
  omega

def ofTokens (tokens : List Token) : Except ScanError Outline :=
  match tokens.dropWhile isGap with
  | [] => .error .missingPackageClause
  | keyword :: afterKeyword =>
    if keyword.isWord "package" then
      match afterKeyword.dropWhile isGap with
      | [] => .error .missingPackageClause
      | name :: rest =>
        if name.kind = .word then
          let header := tokens.takeWhile isGap
          let clauseStart := keyword :: afterKeyword.takeWhile isGap
          match splitImports (1 + Token.newlines (header ++ clauseStart)) rest with
          | .error e => .error e
          | .ok (gap, imports, body) => .ok ⟨header, clauseStart, name, gap, imports, body⟩
        else .error .missingPackageClause
    else .error .missingPackageClause

def tokens (outline : Outline) : List Token :=
  outline.header ++ outline.clauseStart ++ outline.name :: outline.gap ++ outline.imports ++
    outline.body

end Outline

end Repackage
