import Repackage.Glob.Pattern
import Repackage.Path

/-!
Glob patterns for paths. A star and a question mark also match slashes; two stars between slashes
stand for any number of directories. Matching works on the bytes of a path.
-/

set_option autoImplicit false
set_option relaxedAutoImplicit false

namespace Repackage.Glob

/-- A part of a glob. -/
inductive Part where
  | literal (c : Char)
  /-- Any one byte. -/
  | anyOne
  /-- Any bytes. -/
  | anyRun
  /-- Two stars at the front: any number of directories before the rest. -/
  | leading
  /-- Two stars at the end: anything below the directory before them. -/
  | trailing
  /-- Two stars between slashes: any number of directories in between. -/
  | inside
  | charClass (negated : Bool) (ranges : List (Char × Char))
  | alternatives (branches : List (List Part))

/-- Why a text is no glob. -/
inductive Problem where
  | danglingEscape
  | unclosedClass
  | invalidRange (first last : Char)
  | unopenedGroup
  | unclosedGroup
  deriving DecidableEq

def Problem.message : Problem → String
  | .danglingEscape => "dangling '\\'"
  | .unclosedClass => "unclosed character class; missing ']'"
  | .invalidRange first last =>
    "invalid range; '" ++ first.toString ++ "' > '" ++ last.toString ++ "'"
  | .unopenedGroup =>
    "unopened alternate group; missing '\x7b' (maybe escape '\x7d' with '[\x7d]'?)"
  | .unclosedGroup =>
    "unclosed alternate group; missing '\x7d' (maybe escape '\x7b' with '[\x7b]'?)"

def Problem.messageAbout (problem : Problem) (text : String) : String :=
  "error parsing glob '" ++ text ++ "': " ++ problem.message

/-- The parts of the branch that is being read, last first, and for each group around it the
branches read before it and the parts before the group, last first. -/
structure Reading where
  parts : List Part := []
  groups : List (List (List Part) × List Part) := []

namespace Reading

def push (reading : Reading) (part : Part) : Reading :=
  { reading with parts := part :: reading.parts }

def openGroup (reading : Reading) : Reading :=
  ⟨[], ([], reading.parts) :: reading.groups⟩

def comma (reading : Reading) : Reading :=
  match reading.groups with
  | [] => reading.push (.literal ',')
  | (branches, outer) :: groups => ⟨[], (branches ++ [reading.parts.reverse], outer) :: groups⟩

def closeGroup (reading : Reading) : Option Reading :=
  match reading.groups with
  | [] => none
  | (branches, outer) :: groups =>
    some ⟨.alternatives (branches ++ [reading.parts.reverse]) :: outer, groups⟩

def replaceLast (reading : Reading) (part : Part) : Reading :=
  match reading.parts with
  | .leading :: _ | .trailing :: _ => reading
  | _ :: parts => { reading with parts := part :: parts }
  | [] => reading.push part

/-- Reads two stars between the character before them and the text after them. The flag says
whether a slash after them is read along. -/
def doubleStar (reading : Reading) (previous : Option Char) (rest : Text) : Reading × Bool :=
  let twoRuns := (reading.push .anyRun).push .anyRun
  let inGroup := !reading.groups.isEmpty
  if reading.parts.isEmpty then
    match rest with
    | [] => (reading.push .leading, false)
    | c :: _ => if c = '/' then (reading.push .leading, true) else (twoRuns, false)
  else if previous = some '/' ∨ (inGroup ∧ (previous = some ',' ∨ previous = some '\x7b')) then
    match rest with
    | [] => (reading.replaceLast .trailing, false)
    | c :: _ =>
      if c = '/' then (reading.replaceLast .inside, true)
      else if inGroup ∧ (c = ',' ∨ c = '\x7d') then (reading.replaceLast .trailing, false)
      else (twoRuns, false)
  else (twoRuns, false)

end Reading

def extendLast (ranges : List (Char × Char)) (c : Char) : Except Problem (List (Char × Char)) :=
  match ranges.getLast? with
  | none => .ok [(c, c)]
  | some (first, _) =>
    if c < first then .error (.invalidRange first c) else .ok (ranges.dropLast ++ [(first, c)])

/-- The ranges of a class up to its closing bracket, and how many characters they take. The flags
say whether the class has just been opened, and whether a hyphen has opened a range. -/
def classRanges (atStart inRange : Bool) (ranges : List (Char × Char)) :
    Text → Except Problem (List (Char × Char) × Nat)
  | [] => .error .unclosedClass
  | c :: cs =>
    if c = ']' ∧ !atStart then
      .ok (if inRange then ranges ++ [('-', '-')] else ranges, 1)
    else if c = '-' ∧ !atStart ∧ !inRange then
      (classRanges false true ranges cs).map fun read => (read.1, read.2 + 1)
    else if inRange then
      match extendLast ranges c with
      | .error problem => .error problem
      | .ok ranges => (classRanges false false ranges cs).map fun read => (read.1, read.2 + 1)
    else
      (classRanges false false (ranges ++ [(c, c)]) cs).map fun read => (read.1, read.2 + 1)

/-- A class after its opening bracket: whether it is negated, its ranges, and how many characters it
takes. -/
def readClass (text : Text) : Except Problem (Bool × List (Char × Char) × Nat) :=
  match text with
  | [] => .error .unclosedClass
  | c :: cs =>
    if c = '!' ∨ c = '^' then
      (classRanges true false [] cs).map fun read => (true, read.1, read.2 + 1)
    else (classRanges true false [] text).map fun read => (false, read.1, read.2)

def readFrom (reading : Reading) (previous : Option Char) : Text → Except Problem Reading
  | [] => .ok reading
  | c :: cs =>
    if c = '?' then readFrom (reading.push .anyOne) (some c) cs
    else if c = '*' then
      if cs.head? = some '*' then
        let read := reading.doubleStar previous cs.tail
        if read.2 then readFrom read.1 (some '/') (cs.drop 2)
        else readFrom read.1 (some '*') (cs.drop 1)
      else readFrom (reading.push .anyRun) (some c) cs
    else if c = '[' then
      match readClass cs with
      | .error problem => .error problem
      | .ok (negated, ranges, n) =>
        readFrom (reading.push (.charClass negated ranges)) (some ']') (cs.drop n)
    else if c = '\x7b' then readFrom reading.openGroup (some c) cs
    else if c = '\x7d' then
      match reading.closeGroup with
      | none => .error .unopenedGroup
      | some reading => readFrom reading (some c) cs
    else if c = ',' then readFrom reading.comma (some c) cs
    else if c = '\\' then
      match cs.head? with
      | none => .error .danglingEscape
      | some d => readFrom (reading.push (.literal d)) (some d) (cs.drop 1)
    else readFrom (reading.push (.literal c)) (some c) cs
termination_by text => text.length
decreasing_by all_goals simp only [List.length_drop, List.length_cons]; omega

def charBytes (c : Char) : List UInt8 :=
  String.utf8EncodeChar c

/-- The byte ranges of a range of characters. Of a character with several bytes, each byte counts on
its own, so a range runs from the last byte of its start to the first byte of its end. -/
def byteRanges (range : Char × Char) : List (UInt8 × UInt8) :=
  let single := fun byte : UInt8 => (byte, byte)
  let first := charBytes range.1
  if range.1 = range.2 then first.map single
  else
    match first.getLast?, charBytes range.2 with
    | some low, high :: rest => first.dropLast.map single ++ (low, high) :: rest.map single
    | _, _ => []

def slash : Pattern :=
  .byte 0x2f

mutual

def Part.pattern? : Part → Option Pattern
  | .literal c => some (.bytes (charBytes c))
  | .anyOne => some .anyByte
  | .anyRun => some .anything
  | .leading => some (.either (.either .nothing slash) (.seq .anything slash))
  | .trailing => some (.seq slash .anything)
  | .inside => some (.either slash (.seq slash (.seq .anything slash)))
  | .charClass negated ranges => some (.one ⟨negated, ranges.flatMap byteRanges⟩)
  | .alternatives branches => branchesPattern? branches

def partsPattern? : List Part → Option Pattern
  | [] => none
  | part :: parts =>
    match part.pattern?, partsPattern? parts with
    | none, rest => rest
    | some first, none => some first
    | some first, some rest => some (.seq first rest)

def branchesPattern? : List (List Part) → Option Pattern
  | [] => none
  | branch :: branches =>
    match partsPattern? branch, branchesPattern? branches with
    | none, rest => rest
    | some first, none => some first
    | some first, some rest => some (.either first rest)

end

def Part.isLiteral (condition : Char → Bool) : Part → Bool
  | .literal c => condition c
  | _ => false

def endsInExtension : List Part → Bool
  | .literal c :: parts => c == '.' || (c != '/' && endsInExtension parts)
  | _ => false

/-- Whether a glob asks for a file name or for the extension of one. A glob that only fixes how a
path ends, over several components or with several dots, asks for neither. -/
def asksForName (parts : List Part) : Bool :=
  let isFixed := fun ending : List Part => ending.all (·.isLiteral fun _ => true)
  let inComponent := fun ending : List Part => ending.all (·.isLiteral (· != '/'))
  let isExtension := fun ending : List Part =>
    match ending with
    | .literal '.' :: letters => letters.all (·.isLiteral fun c => c != '.' && c != '/')
    | _ => false
  match parts with
  | .leading :: .anyRun :: ending | .anyRun :: ending =>
    if isFixed ending then isExtension ending else endsInExtension parts.reverse
  | .leading :: ending =>
    if isFixed ending then inComponent ending else endsInExtension parts.reverse
  | _ => !isFixed parts && endsInExtension parts.reverse

end Glob

/-- A path pattern. -/
structure Glob where
  pattern : Glob.Pattern
  /-- Whether only a path that names a file can match. -/
  needsName : Bool

namespace Glob

def parse (text : Text) : Except Problem Glob :=
  match readFrom {} none text with
  | .error problem => .error problem
  | .ok ⟨_, _ :: _⟩ => .error .unclosedGroup
  | .ok ⟨[.leading], []⟩ => .ok ⟨.anything, false⟩
  | .ok ⟨parts, []⟩ =>
    .ok ⟨(partsPattern? parts.reverse).getD .nothing, asksForName parts.reverse⟩

def accepts (glob : Glob) (path : String) : Bool :=
  glob.pattern.accepts (path.toList.flatMap charBytes) &&
    !(glob.needsName && Path.fileName path == "..")

end Glob

end Repackage
