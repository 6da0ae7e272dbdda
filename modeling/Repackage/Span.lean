import Repackage.Outline

/-!
Classified spans of a source text. The spans of a text are consecutive, non-empty and concatenate
to it; offsets are byte offsets.
-/

set_option autoImplicit false
set_option relaxedAutoImplicit false

namespace Repackage

/-- The classes of spans. -/
inductive Span.Kind where
  /-- The package clause from its keyword to the name. -/
  | packageClause
  /-- Consecutive import declarations, single or grouped. -/
  | importBlock
  /-- A string, rune or raw string literal with its quotes. -/
  | literal
  /-- A line or block comment. -/
  | comment
  /-- An identifier or a keyword. -/
  | word
  /-- White space, punctuation and numbers. -/
  | other
  deriving DecidableEq

/-- A class with the characters it was read from. -/
structure Span where
  kind : Span.Kind
  text : Text
  deriving DecidableEq

namespace Span

def ofToken (token : Token) : Span :=
  let kind : Kind :=
    match token.kind with
    | .word => .word
    | .literal => .literal
    | .comment => .comment
    | .blank | .number | .mark => .other
  ⟨kind, token.text⟩

def isBlank (span : Span) : Bool :=
  span.kind == .other && span.text.all Text.isBlank

def ofOutline (outline : Outline) : List Span :=
  outline.header.map ofToken ++
    ⟨.packageClause, Token.texts outline.clauseStart ++ outline.name.text⟩ ::
    outline.gap.map ofToken ++
    (if outline.imports = [] then [] else [⟨.importBlock, Token.texts outline.imports⟩]) ++
    outline.body.map ofToken

def scan (text : Text) : Except ScanError (List Span) :=
  match Token.lex text with
  | .error e => .error e
  | .ok tokens => (Outline.ofTokens tokens).map ofOutline

def texts (spans : List Span) : Text :=
  spans.flatMap Span.text

/-- A span with the byte offset and the line at which it starts. -/
structure Located where
  start : Nat
  line : Nat
  span : Span

def Located.stop (located : Located) : Nat :=
  located.start + Text.byteSize located.span.text

def locateFrom (start line : Nat) : List Span → List Located
  | [] => []
  | span :: spans =>
    ⟨start, line, span⟩ ::
      locateFrom (start + Text.byteSize span.text) (line + Text.newlines span.text) spans

def locate (spans : List Span) : List Located :=
  locateFrom 0 1 spans

def firstOf? (kind : Kind) (spans : List Span) : Option Located :=
  (locate spans).find? fun located => located.span.kind = kind

end Span

end Repackage
