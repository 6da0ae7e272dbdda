import Repackage.Data.Basic
import Repackage.Mapping.Table
import Repackage.SourceFile
import Repackage.Text.Quoted

/-!
Listings of a mapping and of the spans of a source file, as lines for people and as data. Fields of
data stand in alphabetical order.
-/

set_option autoImplicit false
set_option relaxedAutoImplicit false

namespace Repackage

namespace Table

def packageLine (package : Package) : String :=
  "  " ++ String.ofList (Text.padRight 12 package.name.toList) ++ " " ++
    (if package.dir = "" then "." else package.dir) ++ "  (" ++ package.importPath ++ ")"

def symbolLine (symbol : Symbol) : String :=
  "  " ++ symbol.name ++ " -> " ++ symbol.package ++
    if symbol.isRenamed then "." ++ symbol.exported else ""

def lines (table : Table) : List String :=
  ["valid mapping"] ++
  (if table.modulePath = "" then [] else ["module: " ++ table.modulePath]) ++
  ["packages:"] ++ table.packages.values.map packageLine ++
  (if table.files.entries.isEmpty then []
    else "files:" :: table.files.entries.map fun (path, package) =>
      "  " ++ path ++ " -> " ++ package) ++
  (if table.symbols.isEmpty then []
    else "symbols (precedence order):" :: table.symbols.map symbolLine)

def toData (table : Table) (exclude : List String) : Data :=
  .object [
    ("exclude", .array (exclude.map .string)),
    ("files", .array (table.files.entries.map fun (path, package) =>
      .object [("package", .string package), ("path", .string path)])),
    ("include_tests", .bool table.includeTests),
    ("module", .string table.modulePath),
    ("packages", .array (table.packages.values.map fun package =>
      .object [("dir", .string package.dir), ("import_path", .string package.importPath),
        ("name", .string package.name)])),
    ("symbols", .array (table.symbols.map fun symbol =>
      .object [("exported", .string symbol.exported), ("package", .string symbol.package),
        ("symbol", .string symbol.name)])),
    ("valid", .bool true)]

end Table

def Span.Kind.tag : Span.Kind → String
  | .packageClause => "package_clause"
  | .importBlock => "import_block"
  | .literal => "string_literal"
  | .comment => "comment"
  | .word => "identifier"
  | .other => "other"

def Span.Kind.label : Span.Kind → String
  | .packageClause => "PackageClause"
  | .importBlock => "ImportBlock"
  | .literal => "StringLiteral"
  | .comment => "Comment"
  | .word => "Identifier"
  | .other => "Other"

def Declared.tag : Declared → String
  | .packageLevel => "package_level"
  | .method => "method"
  | .receiver => "receiver"
  | .field => "field"
  | .key => "key"
  | .inner => "local"

def Declared.label : Declared → String
  | .packageLevel => "PackageLevel"
  | .method => "Method"
  | .receiver => "Receiver"
  | .field => "Field"
  | .key => "Key"
  | .inner => "Local"

def Site.label : Site → String
  | .reference => "reference"
  | .selected _ => "selected"
  | .declaration kind => "declaration (" ++ kind.label ++ ")"

def Site.toData : Site → Data
  | .reference => .object [("site", .string "reference")]
  | .selected qualifier =>
    .object [("qualifier", Data.orNull
      (fun word : Occurrence => .array [.nat word.start, .nat word.stop]) qualifier),
      ("site", .string "selected")]
  | .declaration kind =>
    .object [("kind", .string kind.tag), ("site", .string "declaration")]

def Span.Located.toData (located : Span.Located) : Data :=
  .object [("end", .nat located.stop), ("kind", .string located.span.kind.tag),
    ("start", .nat located.start)]

def Identifier.toData (identifier : Identifier) : Data :=
  .object [("end", .nat identifier.word.stop), ("site", identifier.site.toData),
    ("start", .nat identifier.word.start)]

namespace SourceFile

/-- A span on a line: its line number, its class and its text, which is quoted unless it is an
identifier with a role. -/
def spanLine (located : Span.Located) (site : Option Site) : String :=
  let start := Text.padLeft 5 (toString located.line).toList ++ "  ".toList ++
    Text.padRight 14 located.span.kind.label.toList ++ [' ']
  String.ofList
    (match site with
    | some site =>
      start ++ Text.padRight 24 located.span.text ++ ' ' :: site.label.toList
    | none => start ++ Text.quoted located.span.text)

/-- The spans that are not blank, each on a line. The next identifier is taken when its span comes
up. -/
def spanLines : List Span.Located → List Identifier → List String
  | [], _ => []
  | located :: rest, sites =>
    if located.span.isBlank then spanLines rest sites
    else
      match sites with
      | identifier :: others =>
        if located.span.kind = .word ∧ identifier.word.start = located.start then
          spanLine located (some identifier.site) :: spanLines rest others
        else spanLine located none :: spanLines rest sites
      | [] => spanLine located none :: spanLines rest []

def lines (file : SourceFile) : List String :=
  ("package " ++ file.package) :: spanLines (Span.locate file.spans) file.sites

def toData (file : SourceFile) : Data :=
  .object [("package", .string file.package), ("path", .string file.path),
    ("sites", .array (file.sites.map Identifier.toData)),
    ("spans", .array ((Span.locate file.spans).map Span.Located.toData))]

end SourceFile

end Repackage
