import Repackage.Import.Basic
import Repackage.SourceFile

/-!
Where the imports of a source file stand.
-/

set_option autoImplicit false
set_option relaxedAutoImplicit false

namespace Repackage

/-- An import at its place, from its name or path to the end of its path. -/
structure PlacedImport where
  spec : Import
  start : Nat
  stop : Nat
  deriving DecidableEq

/-- The imports of a file, and the offsets of the parentheses of its first group. -/
structure ImportLayout where
  specs : List PlacedImport
  group : Option (Nat × Nat)
  deriving DecidableEq

namespace ImportLayout

/-- What has been read of an import block. -/
structure Reading where
  specs : List PlacedImport := []
  opened : Option Nat := none
  closed : Option Nat := none
  depth : Nat := 0
  /-- The name before the next path, with its place. -/
  name : Option (String × Nat) := none
  deriving DecidableEq

def unquote (literal : Text) : String :=
  let isQuote := fun c : Char => c == '"' || c == '\x60'
  String.ofList ((literal.dropWhile isQuote).reverse.dropWhile isQuote).reverse

def Reading.step (reading : Reading) (located : Token.Located) : Option Reading :=
  let token := located.token
  match token.kind with
  | .word =>
    if token.text = "import".toList then some { reading with name := none }
    else some { reading with name := some (String.ofList token.text, located.start) }
  | .literal =>
    let placed : PlacedImport :=
      match reading.name with
      | some (name, start) => ⟨⟨some name, unquote token.text⟩, start, located.stop⟩
      | none => ⟨⟨none, unquote token.text⟩, located.start, located.stop⟩
    some { reading with specs := reading.specs ++ [placed], name := none }
  | .mark =>
    if token.text = ['.'] ∧ reading.name = none then
      some { reading with name := some (".", located.start) }
    else if token.text = ['('] then
      some { reading with
        depth := reading.depth + 1, opened := reading.opened.or (some located.start) }
    else if token.text = [')'] then
      some { reading with
        depth := reading.depth - 1, closed := reading.closed.or (some located.start) }
    else if token.text = [';'] then some { reading with name := none }
    else none
  | _ => none

def Reading.run (reading : Reading) : List Token.Located → Except ScanError Reading
  | [] => .ok reading
  | located :: rest =>
    match reading.step located with
    | none => .error (.malformedImport located.line)
    | some reading => reading.run rest

def ofBlock (block : Span.Located) : Except ScanError ImportLayout :=
  match Token.lex block.span.text with
  | .error e => .error e
  | .ok tokens =>
    let significant :=
      (Token.locateFrom block.start block.line tokens).filter (·.token.isSignificant)
    match Reading.run {} significant with
    | .error e => .error e
    | .ok reading =>
      if reading.depth = 0 then
        .ok ⟨reading.specs, reading.opened.bind fun start =>
          reading.closed.map fun stop => (start, stop)⟩
      else .error (.malformedImport block.line)

def ofFile (file : SourceFile) : Except ScanError (Option ImportLayout) :=
  match Span.firstOf? .importBlock file.spans with
  | none => .ok none
  | some block => (ofBlock block).map some

end ImportLayout

def SourceFile.imports (file : SourceFile) : Except ScanError (List Import) :=
  (ImportLayout.ofFile file).map fun
    | none => []
    | some layout => layout.specs.map (·.spec)

end Repackage
