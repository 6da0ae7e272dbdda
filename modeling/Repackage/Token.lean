import Repackage.Word

/-!
Tokens of Go source text. The tokens of a text are consecutive and non-empty, and their texts
concatenate to it: each step decides how many characters after the next one belong to its token,
and goes on with what is left.
-/

set_option autoImplicit false
set_option relaxedAutoImplicit false

namespace Repackage

/-- Tokens that need an end mark of their own. -/
inductive Delimited where
  | blockComment
  | stringLiteral
  | runeLiteral
  | rawString
  deriving DecidableEq

def Delimited.description : Delimited → String
  | .blockComment => "block comment"
  | .stringLiteral => "string literal"
  | .runeLiteral => "rune literal"
  | .rawString => "raw string literal"

/-- Why a text cannot be classified. Lines are counted from one. -/
inductive ScanError where
  /-- A literal or comment that starts on the line has no end. -/
  | unterminated (what : Delimited) (line : Nat)
  /-- The first significant tokens are not `package` and a name. -/
  | missingPackageClause
  /-- The import declaration that starts on the line has no end or is no list of imports. -/
  | malformedImport (line : Nat)
  deriving DecidableEq

def ScanError.message : ScanError → String
  | .unterminated what line => "line " ++ toString line ++ ": unterminated " ++ what.description
  | .missingPackageClause => "no package clause found"
  | .malformedImport line => "line " ++ toString line ++ ": malformed import declaration"

/-- The lexical classes. -/
inductive Token.Kind where
  /-- An identifier or a keyword. -/
  | word
  /-- A string, rune or raw string literal with its quotes. -/
  | literal
  /-- A line comment without its line end, or a block comment. -/
  | comment
  /-- White space. -/
  | blank
  /-- A numeric literal. -/
  | number
  /-- Any other single character. -/
  | mark
  deriving DecidableEq

/-- A lexical class with the characters it was read from. -/
structure Token where
  kind : Token.Kind
  text : Text
  deriving DecidableEq

namespace Token

def isSignificant (token : Token) : Bool :=
  token.kind != .blank && token.kind != .comment

def isMark (c : Char) (token : Token) : Bool :=
  token.kind == .mark && token.text == [c]

def isWord (word : String) (token : Token) : Bool :=
  token.kind == .word && token.text == word.toList

/-- How many characters after the opening quote a quoted literal takes, its closing quote included.
A backslash takes the character after it along; a bare line end leaves the literal open. -/
def quotedLength (quote : Char) : Text → Option Nat
  | [] => none
  | c :: cs =>
    if c = '\n' then none
    else if c = '\\' then
      match cs with
      | [] => none
      | _ :: rest => (quotedLength quote rest).map (· + 2)
    else if c = quote then some 1
    else (quotedLength quote cs).map (· + 1)

def rawLength : Text → Option Nat
  | [] => none
  | c :: cs => if c = '\x60' then some 1 else (rawLength cs).map (· + 1)

def commentLength : Text → Option Nat
  | [] => none
  | c :: cs =>
    if c = '*' ∧ cs.head? = some '/' then some 2 else (commentLength cs).map (· + 1)

/-- Whether a character goes on with a number whose last character is given. A sign does so only
directly after the exponent letter, which is `p` in a hexadecimal number and `e` in any other. -/
def continuesNumber (hexadecimal : Bool) (last c : Char) : Bool :=
  Text.isAsciiAlphanumeric c || c == '_' || c == '.' ||
    ((c == '+' || c == '-') &&
      if hexadecimal then last == 'p' || last == 'P' else last == 'e' || last == 'E')

def numberLength (hexadecimal : Bool) (last : Char) : Text → Nat
  | [] => 0
  | c :: cs =>
    if continuesNumber hexadecimal last c then numberLength hexadecimal c cs + 1 else 0

def isHexadecimal (c : Char) (second : Option Char) : Bool :=
  c == '0' && (second == some 'x' || second == some 'X')

/-- The class of the token that starts with `c`, and how many of the characters after `c` belong to
it. -/
def extent (c : Char) (cs : Text) : Except Delimited (Kind × Nat) :=
  if c = '/' ∧ cs.head? = some '/' then
    .ok (.comment, (cs.takeWhile (· ≠ '\n')).length)
  else if c = '/' ∧ cs.head? = some '*' then
    match commentLength cs.tail with
    | some n => .ok (.comment, n + 1)
    | none => .error .blockComment
  else if Text.isBlank c then
    .ok (.blank, (cs.takeWhile Text.isBlank).length)
  else if c = '"' then
    match quotedLength '"' cs with
    | some n => .ok (.literal, n)
    | none => .error .stringLiteral
  else if c = '\'' then
    match quotedLength '\'' cs with
    | some n => .ok (.literal, n)
    | none => .error .runeLiteral
  else if c = '\x60' then
    match rawLength cs with
    | some n => .ok (.literal, n)
    | none => .error .rawString
  else if Text.isWordStart c then
    .ok (.word, (cs.takeWhile Text.isWordChar).length)
  else if c.isDigit || (c == '.' && cs.head?.any Char.isDigit) then
    .ok (.number, numberLength (isHexadecimal c cs.head?) c cs)
  else
    .ok (.mark, 0)

def lexFrom (line : Nat) : Text → Except ScanError (List Token)
  | [] => .ok []
  | c :: cs =>
    match extent c cs with
    | .error what => .error (.unterminated what line)
    | .ok (kind, n) =>
      match lexFrom (line + Text.newlines (c :: cs.take n)) (cs.drop n) with
      | .error e => .error e
      | .ok rest => .ok (⟨kind, c :: cs.take n⟩ :: rest)
termination_by text => text.length
decreasing_by simp only [List.length_drop, List.length_cons]; omega

def lex (text : Text) : Except ScanError (List Token) :=
  lexFrom 1 text

def texts (tokens : List Token) : Text :=
  tokens.flatMap Token.text

def newlines (tokens : List Token) : Nat :=
  Text.newlines (texts tokens)

/-- A token with the byte offset and the line at which it starts. -/
structure Located where
  start : Nat
  line : Nat
  token : Token
  deriving DecidableEq

def Located.stop (located : Located) : Nat :=
  located.start + Text.byteSize located.token.text

def locateFrom (start line : Nat) : List Token → List Located
  | [] => []
  | token :: tokens =>
    ⟨start, line, token⟩ ::
      locateFrom (start + Text.byteSize token.text) (line + Text.newlines token.text) tokens

theorem texts_lexFrom {line : Nat} {text : Text} {tokens : List Token}
    (read : lexFrom line text = .ok tokens) : texts tokens = text := by
  fun_induction lexFrom line text generalizing tokens with
  | case1 line =>
    cases read
    rfl
  | case2 line c cs what failed => cases read
  | case3 line c cs kind n found e failed ih => cases read
  | case4 line c cs kind n found rest lexed ih =>
    cases read
    have tail := ih lexed
    simp only [texts, List.flatMap_cons] at tail ⊢
    simp [tail]

end Token

end Repackage
