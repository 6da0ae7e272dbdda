import Repackage.Data.Basic

/-!
The JSON form of data documents: a reader that accepts exactly the grammar of the format, and
printers with and without line breaks.
-/

set_option autoImplicit false
set_option relaxedAutoImplicit false

namespace Repackage.Data.Json

def hexDigit (n : Nat) : Char :=
  if n < 10 then Char.ofNat (48 + n) else Char.ofNat (87 + n)

def escapeChar (c : Char) : Text :=
  if c = '"' then ['\\', '"']
  else if c = '\\' then ['\\', '\\']
  else if c = '\n' then ['\\', 'n']
  else if c = '\r' then ['\\', 'r']
  else if c = '\t' then ['\\', 't']
  else if c = '\x08' then ['\\', 'b']
  else if c = '\x0c' then ['\\', 'f']
  else if c.toNat < 0x20 then
    ['\\', 'u', '0', '0', hexDigit (c.toNat / 16), hexDigit (c.toNat % 16)]
  else [c]

def quote (value : String) : String :=
  String.ofList ('"' :: (value.toList.flatMap escapeChar ++ ['"']))

mutual

def compact : Data → String
  | .null => "null"
  | .bool value => if value then "true" else "false"
  | .number digits => digits
  | .moment written => quote written
  | .string value => quote value
  | .array items => "[" ++ compactItems items ++ "]"
  | .object fields => "\x7b" ++ compactFields fields ++ "\x7d"

def compactItems : List Data → String
  | [] => ""
  | [item] => compact item
  | item :: items => compact item ++ "," ++ compactItems items

def compactFields : List (String × Data) → String
  | [] => ""
  | [(name, value)] => quote name ++ ":" ++ compact value
  | (name, value) :: fields => quote name ++ ":" ++ compact value ++ "," ++ compactFields fields

end

def indent (depth : Nat) : String :=
  String.ofList (List.replicate (2 * depth) ' ')

mutual

def prettyAt (depth : Nat) : Data → String
  | .null => "null"
  | .bool value => if value then "true" else "false"
  | .number digits => digits
  | .moment written => quote written
  | .string value => quote value
  | .array [] => "[]"
  | .array (item :: items) =>
    "[\n" ++ prettyItems (depth + 1) (item :: items) ++ "\n" ++ indent depth ++ "]"
  | .object [] => "\x7b\x7d"
  | .object (field :: fields) =>
    "\x7b\n" ++ prettyFields (depth + 1) (field :: fields) ++ "\n" ++ indent depth ++ "\x7d"

def prettyItems (depth : Nat) : List Data → String
  | [] => ""
  | [item] => indent depth ++ prettyAt depth item
  | item :: items => indent depth ++ prettyAt depth item ++ ",\n" ++ prettyItems depth items

def prettyFields (depth : Nat) : List (String × Data) → String
  | [] => ""
  | [(name, value)] => indent depth ++ quote name ++ ": " ++ prettyAt depth value
  | (name, value) :: fields =>
    indent depth ++ quote name ++ ": " ++ prettyAt depth value ++ ",\n" ++
      prettyFields depth fields

end

def pretty (data : Data) : String :=
  prettyAt 0 data

def isSpace (c : Char) : Bool :=
  c == ' ' || c == '\t' || c == '\n' || c == '\r'

def skipSpace (text : Text) : Text :=
  text.dropWhile isSpace

def hexValue? (c : Char) : Option Nat :=
  if '0' ≤ c ∧ c ≤ '9' then some (c.toNat - 48)
  else if 'a' ≤ c ∧ c ≤ 'f' then some (c.toNat - 87)
  else if 'A' ≤ c ∧ c ≤ 'F' then some (c.toNat - 55)
  else none

def hexNumber? (count : Nat) (text : Text) : Option Nat :=
  if text.length < count then none
  else
    (text.take count).foldl (fun number c => do return (← number) * 16 + (← hexValue? c)) (some 0)

def escapedUnit? : Text → Option (Nat × Nat)
  | [] => none
  | c :: rest =>
    if c = 'u' then (hexNumber? 4 rest).map fun unit => (unit, 5)
    else if c = '"' ∨ c = '\\' ∨ c = '/' then some (c.toNat, 1)
    else if c = 'b' then some (0x08, 1)
    else if c = 'f' then some (0x0c, 1)
    else if c = 'n' then some (0x0a, 1)
    else if c = 'r' then some (0x0d, 1)
    else if c = 't' then some (0x09, 1)
    else none

def stringUnits? : Text → Option (List Nat × Text)
  | [] => none
  | c :: cs =>
    if c = '"' then some ([], cs)
    else if c = '\\' then
      match escapedUnit? cs with
      | none => none
      | some (unit, n) =>
        (stringUnits? (cs.drop n)).map fun read => (unit :: read.1, read.2)
    else if c.toNat < 0x20 then none
    else (stringUnits? cs).map fun read => (c.toNat :: read.1, read.2)
termination_by text => text.length
decreasing_by all_goals simp only [List.length_drop, List.length_cons]; omega

def isHighSurrogate (unit : Nat) : Bool :=
  0xd800 ≤ unit && unit < 0xdc00

def isLowSurrogate (unit : Nat) : Bool :=
  0xdc00 ≤ unit && unit < 0xe000

/-- The characters that code units spell. Two halves of a surrogate pair make one character; a
half alone spells none. -/
def charsOfUnits? : List Nat → Option Text
  | [] => some []
  | high :: low :: rest =>
    if isHighSurrogate high then
      if isLowSurrogate low then
        (charsOfUnits? rest).map
          (Char.ofNat (0x10000 + (high - 0xd800) * 0x400 + (low - 0xdc00)) :: ·)
      else none
    else if isLowSurrogate high then none
    else (charsOfUnits? (low :: rest)).map (Char.ofNat high :: ·)
  | [unit] => if isHighSurrogate unit || isLowSurrogate unit then none else some [Char.ofNat unit]

def stringAfterQuote? (text : Text) : Option (String × Text) := do
  let (units, rest) ← stringUnits? text
  let chars ← charsOfUnits? units
  return (String.ofList chars, rest)

def digits? (text : Text) : Option (Text × Text) :=
  if (text.takeWhile Char.isDigit).isEmpty then none
  else some (text.takeWhile Char.isDigit, text.dropWhile Char.isDigit)

def whole? (text : Text) : Option (Text × Text) :=
  match text with
  | '0' :: rest => some (['0'], rest)
  | _ => digits? text

def fraction? (text : Text) : Option (Text × Text) :=
  match text with
  | '.' :: rest => (digits? rest).map fun read => ('.' :: read.1, read.2)
  | _ => some ([], text)

def exponent? (text : Text) : Option (Text × Text) :=
  match text with
  | c :: rest =>
    if c = 'e' ∨ c = 'E' then
      match rest with
      | sign :: more =>
        if sign = '+' ∨ sign = '-' then
          (digits? more).map fun read => (c :: sign :: read.1, read.2)
        else (digits? rest).map fun read => (c :: read.1, read.2)
      | [] => none
    else some ([], text)
  | [] => some ([], [])

def number? (text : Text) : Option (Text × Text) := do
  let (sign, unsigned) : Text × Text :=
    match text with
    | '-' :: rest => (['-'], rest)
    | _ => ([], text)
  let (whole, rest) ← whole? unsigned
  let (fraction, rest) ← fraction? rest
  let (exponent, rest) ← exponent? rest
  return (sign ++ whole ++ fraction ++ exponent, rest)

def after? (word : String) (text : Text) : Option Text :=
  if word.toList.isPrefixOf text then some (text.drop word.toList.length) else none

mutual

def value? : Nat → Text → Option (Data × Text)
  | 0, _ => none
  | fuel + 1, text =>
    match skipSpace text with
    | [] => none
    | c :: rest =>
      if c = '\x7b' then
        match skipSpace rest with
        | '\x7d' :: rest => some (.object [], rest)
        | rest => (fields? fuel rest).map fun read => (.object read.1, read.2)
      else if c = '[' then
        match skipSpace rest with
        | ']' :: rest => some (.array [], rest)
        | rest => (items? fuel rest).map fun read => (.array read.1, read.2)
      else if c = '"' then (stringAfterQuote? rest).map fun read => (.string read.1, read.2)
      else if c = 't' then (after? "rue" rest).map fun rest => (.bool true, rest)
      else if c = 'f' then (after? "alse" rest).map fun rest => (.bool false, rest)
      else if c = 'n' then (after? "ull" rest).map fun rest => (.null, rest)
      else (number? (c :: rest)).map fun read => (.number (String.ofList read.1), read.2)

def items? : Nat → Text → Option (List Data × Text)
  | 0, _ => none
  | fuel + 1, text =>
    match value? fuel text with
    | none => none
    | some (item, rest) =>
      match skipSpace rest with
      | ']' :: rest => some ([item], rest)
      | ',' :: rest => (items? fuel rest).map fun read => (item :: read.1, read.2)
      | _ => none

def fields? : Nat → Text → Option (List (String × Data) × Text)
  | 0, _ => none
  | fuel + 1, text =>
    match skipSpace text with
    | '"' :: rest =>
      match stringAfterQuote? rest with
      | none => none
      | some (name, rest) =>
        match skipSpace rest with
        | ':' :: rest =>
          match value? fuel rest with
          | none => none
          | some (value, rest) =>
            match skipSpace rest with
            | '\x7d' :: rest => some ([(name, value)], rest)
            | ',' :: rest =>
              (fields? fuel rest).map fun read => ((name, value) :: read.1, read.2)
            | _ => none
        | _ => none
    | _ => none

end

/-- The document that a text spells; blanks may stand around it and nothing else. Each step of the
reader takes at least one character for every two calls, which bounds the depth of calls. -/
def parse? (text : Text) : Option Data :=
  match value? (2 * text.length + 2) text with
  | none => none
  | some (data, rest) => if (skipSpace rest).isEmpty then some data else none

end Repackage.Data.Json
