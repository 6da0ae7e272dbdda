import Repackage.Data.Json
import Repackage.Data.Toml.Moment
import Repackage.Data.Toml.Number

/-!
The TOML form of data documents, read into its statements: assignments, table headers and headers
of array tables.
-/

set_option autoImplicit false
set_option relaxedAutoImplicit false

namespace Repackage.Data.Toml

/-- A statement of a document. Keys are lists of names, more than one for a dotted key. -/
inductive Statement where
  | assign (key : List String) (value : Data)
  | table (key : List String)
  | arrayTable (key : List String)

def isSpace (c : Char) : Bool :=
  c == ' ' || c == '\t'

def skipSpace (text : Text) : Text :=
  text.dropWhile isSpace

/-- Characters that may stand as themselves in comments and strings: no control characters but the
tab. -/
def isPlain (c : Char) : Bool :=
  c == '\t' || (0x20 ≤ c.toNat && c.toNat != 0x7f)

def lineEnd? : Text → Option Nat
  | c :: cs =>
    if c = '\n' then some 1
    else if c = '\r' ∧ cs.head? = some '\n' then some 2
    else none
  | [] => none

def skipComment? : Text → Option Text
  | '#' :: rest =>
    match lineEnd? (rest.dropWhile isPlain), rest.dropWhile isPlain with
    | none, _ :: _ => none
    | _, rest => some rest
  | text => some text

def endLine? (text : Text) : Option Text :=
  match skipComment? (skipSpace text) with
  | none => none
  | some [] => some []
  | some rest => (lineEnd? rest).map rest.drop

def escaped? : Text → Option (Char × Nat)
  | [] => none
  | c :: rest =>
    let scalar := fun count : Nat =>
      match Json.hexNumber? count rest with
      | none => none
      | some n =>
        if n < 0xd800 ∨ (0xe000 ≤ n ∧ n < 0x110000) then some (Char.ofNat n, count + 1) else none
    if c = 'u' then scalar 4
    else if c = 'U' then scalar 8
    else if c = '"' ∨ c = '\\' then some (c, 1)
    else if c = 'b' then some ('\x08', 1)
    else if c = 'f' then some ('\x0c', 1)
    else if c = 'n' then some ('\n', 1)
    else if c = 'r' then some ('\r', 1)
    else if c = 't' then some ('\t', 1)
    else none

def basic? : Text → Option (Text × Text)
  | [] => none
  | c :: cs =>
    if c = '"' then some ([], cs)
    else if c = '\\' then
      match escaped? cs with
      | none => none
      | some (char, n) => (basic? (cs.drop n)).map fun read => (char :: read.1, read.2)
    else if isPlain c then (basic? cs).map fun read => (c :: read.1, read.2)
    else none
termination_by text => text.length
decreasing_by all_goals simp only [List.length_drop, List.length_cons]; omega

def literal? : Text → Option (Text × Text)
  | [] => none
  | c :: cs =>
    if c = '\'' then some ([], cs)
    else if isPlain c then (literal? cs).map fun read => (c :: read.1, read.2)
    else none

/-- Whether a run of quotes at the front closes a string over several lines. Up to two quotes before
the closing three belong to the string. The result is how many do, and the text after the run. -/
def closing? (quote : Char) (text : Text) : Option (Nat × Text) :=
  let run := (text.takeWhile (· = quote)).length
  if run < 3 then none else some (min (run - 3) 2, text.drop (min run 5))

/-- A basic string over several lines after its opening quotes, and the text after it. A backslash
at the end of a line takes the line end and the blanks after it away; the flag says that such blanks
are being skipped. -/
def multilineBasic? (skipping : Bool) : Text → Option (Text × Text)
  | [] => none
  | c :: cs =>
    match lineEnd? (c :: cs) with
    | some n =>
      if skipping then multilineBasic? true (cs.drop (n - 1))
      else (multilineBasic? false (cs.drop (n - 1))).map fun read => ('\n' :: read.1, read.2)
    | none =>
      if skipping ∧ isSpace c then multilineBasic? true cs
      else if c = '"' then
        match closing? '"' (c :: cs) with
        | some (kept, rest) => some (List.replicate kept '"', rest)
        | none => (multilineBasic? false cs).map fun read => (c :: read.1, read.2)
      else if c = '\\' then
        if (lineEnd? (skipSpace cs)).isSome then multilineBasic? true cs
        else
          match escaped? cs with
          | none => none
          | some (char, n) =>
            (multilineBasic? false (cs.drop n)).map fun read => (char :: read.1, read.2)
      else if isPlain c then (multilineBasic? false cs).map fun read => (c :: read.1, read.2)
      else none
termination_by text => text.length
decreasing_by all_goals simp only [List.length_drop, List.length_cons]; omega

def multilineLiteral? : Text → Option (Text × Text)
  | [] => none
  | c :: cs =>
    match lineEnd? (c :: cs) with
    | some n => (multilineLiteral? (cs.drop (n - 1))).map fun read => ('\n' :: read.1, read.2)
    | none =>
      if c = '\'' then
        match closing? '\'' (c :: cs) with
        | some (kept, rest) => some (List.replicate kept '\'', rest)
        | none => (multilineLiteral? cs).map fun read => (c :: read.1, read.2)
      else if isPlain c then (multilineLiteral? cs).map fun read => (c :: read.1, read.2)
      else none
termination_by text => text.length
decreasing_by all_goals simp only [List.length_drop, List.length_cons]; omega

def dropLineEnd (text : Text) : Text :=
  text.drop ((lineEnd? text).getD 0)

def string? (text : Text) : Option (Text × Text) :=
  match text with
  | '"' :: '"' :: '"' :: rest => multilineBasic? false (dropLineEnd rest)
  | '\'' :: '\'' :: '\'' :: rest => multilineLiteral? (dropLineEnd rest)
  | '"' :: rest => basic? rest
  | '\'' :: rest => literal? rest
  | _ => none

def isBare (c : Char) : Bool :=
  Text.isAsciiAlphanumeric c || c == '_' || c == '-'

def keyName? (text : Text) : Option (String × Text) :=
  match text with
  | '"' :: rest => (basic? rest).map fun read => (String.ofList read.1, read.2)
  | '\'' :: rest => (literal? rest).map fun read => (String.ofList read.1, read.2)
  | _ =>
    if (text.takeWhile isBare).isEmpty then none
    else some (String.ofList (text.takeWhile isBare), text.dropWhile isBare)

def depthLimit : Nat :=
  79

def key? : Nat → Text → Option (List String × Text)
  | 0, _ => none
  | names + 1, text =>
    match keyName? (skipSpace text) with
    | none => none
    | some (name, rest) =>
      match skipSpace rest with
      | '.' :: rest => (key? names rest).map fun read => (name :: read.1, read.2)
      | rest => some ([name], rest)

def skipLines? : Nat → Text → Option Text
  | 0, _ => none
  | fuel + 1, text =>
    match skipComment? (skipSpace text) with
    | none => none
    | some rest =>
      match lineEnd? rest with
      | some n => skipLines? fuel (rest.drop n)
      | none => some rest

/-- Puts a value under a key. The names before the last one lead through objects, which are made
where they are missing. -/
def place (value : Data) : List String → List (String × Data) → List (String × Data)
  | [], fields => fields
  | [name], fields => fields ++ [(name, value)]
  | name :: names, fields =>
    match fields.lookup name with
    | some (.object inner) =>
      fields.map fun field =>
        if field.1 = name then (name, .object (place value names inner)) else field
    | _ => fields ++ [(name, .object (place value names []))]

/-- The object with the given values under their keys. A value is never added to, so no key may
start with another one. -/
def assemble? (assignments : List (List String × Data)) : Option Data :=
  if (assignments.map Prod.fst).Pairwise fun a b => ¬a <+: b ∧ ¬b <+: a then
    some (.object (assignments.foldl (fun fields (key, value) => place value key fields) []))
  else none

def readPart (text rest : Text) : String :=
  String.ofList (text.take (text.length - rest.length))

def scalar? (text : Text) : Option (Data × Text) :=
  match moment? text with
  | some rest => some (.moment (readPart text rest), rest)
  | none => (number? text).map fun rest => (.number (readPart text rest), rest)

mutual

/-- A value at the front of a text, and the text after it. The fuel bounds the calls in depth, the
levels how deep arrays and inline tables may be nested. -/
def value? : Nat → Nat → Text → Option (Data × Text)
  | 0, _, _ => none
  | fuel + 1, levels, text =>
    match text with
    | '[' :: rest =>
      match levels with
      | 0 => none
      | levels + 1 => (items? fuel levels rest).map fun read => (.array read.1, read.2)
    | '\x7b' :: rest =>
      match levels with
      | 0 => none
      | levels + 1 =>
        match skipSpace rest with
        | '\x7d' :: rest => some (.object [], rest)
        | rest =>
          match fields? fuel levels rest with
          | none => none
          | some (fields, rest) => (assemble? fields).map fun object => (object, rest)
    | 't' :: rest => (Json.after? "rue" rest).map fun rest => (.bool true, rest)
    | 'f' :: rest => (Json.after? "alse" rest).map fun rest => (.bool false, rest)
    | '"' :: _ | '\'' :: _ =>
      (string? text).map fun read => (.string (String.ofList read.1), read.2)
    | _ => scalar? text

def items? : Nat → Nat → Text → Option (List Data × Text)
  | 0, _, _ => none
  | fuel + 1, levels, text =>
    match skipLines? (text.length + 1) text with
    | none => none
    | some (']' :: rest) => some ([], rest)
    | some rest =>
      match value? fuel levels rest with
      | none => none
      | some (item, rest) =>
        match skipLines? (rest.length + 1) rest with
        | some (']' :: rest) => some ([item], rest)
        | some (',' :: rest) => (items? fuel levels rest).map fun read => (item :: read.1, read.2)
        | _ => none

def fields? : Nat → Nat → Text → Option (List (List String × Data) × Text)
  | 0, _, _ => none
  | fuel + 1, levels, text =>
    match key? depthLimit text with
    | some (key, '=' :: rest) =>
      match value? fuel levels (skipSpace rest) with
      | none => none
      | some (value, rest) =>
        match skipSpace rest with
        | '\x7d' :: rest => some ([(key, value)], rest)
        | ',' :: rest =>
          (fields? fuel levels rest).map fun read => ((key, value) :: read.1, read.2)
        | _ => none
    | _ => none

end

def header? (closing : String) (text : Text) : Option (List String × Text) :=
  match key? depthLimit text with
  | none => none
  | some (key, rest) => (Json.after? closing rest).map fun rest => (key, rest)

def statement? (text : Text) : Option (Statement × Text) :=
  match text with
  | '[' :: '[' :: rest => (header? "]]" rest).map fun read => (.arrayTable read.1, read.2)
  | '[' :: rest => (header? "]" rest).map fun read => (.table read.1, read.2)
  | _ =>
    match key? depthLimit text with
    | some (key, '=' :: rest) =>
      (value? (2 * rest.length + 2) depthLimit (skipSpace rest)).map fun read =>
        (.assign key read.1, read.2)
    | _ => none

def statements? : Nat → Text → Option (List Statement)
  | 0, _ => none
  | fuel + 1, text =>
    match skipComment? (skipSpace text) with
    | none => none
    | some [] => some []
    | some rest =>
      match lineEnd? rest with
      | some n => statements? fuel (rest.drop n)
      | none =>
        match statement? rest with
        | none => none
        | some (statement, rest) =>
          match endLine? rest with
          | none => none
          | some rest => (statements? fuel rest).map (statement :: ·)

def parse? (text : Text) : Option (List Statement) :=
  let text :=
    match text with
    | '\ufeff' :: rest => rest
    | _ => text
  statements? (text.length + 1) text

def assignments : List Statement → List (List String × Data)
  | .assign key value :: rest => (key, value) :: assignments rest
  | _ => []

/-- The array tables of a document in order, each with its name and content. Other tables are
refused. -/
def arrayTables? : List Statement → Option (List (String × Data))
  | [] => some []
  | .assign _ _ :: rest => arrayTables? rest
  | .arrayTable [name] :: rest => do
    let table ← assemble? (assignments rest)
    return (name, table) :: (← arrayTables? rest)
  | _ => none

/-- The data of a document whose only tables are array tables at the top. A name cannot be both
assigned and given to array tables. -/
def document? (statements : List Statement) : Option Data := do
  let tables ← arrayTables? statements
  let names := (tables.map Prod.fst).eraseDups
  let named := fun name : String => (tables.filter (·.1 = name)).map Prod.snd
  assemble? (assignments statements ++ names.map fun name => ([name], .array (named name)))

end Repackage.Data.Toml
