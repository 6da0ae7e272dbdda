import Repackage.Workers

/-!
The arguments of the command line.
-/

set_option autoImplicit false
set_option relaxedAutoImplicit false

namespace Repackage

/-- How results are written. -/
inductive OutputFormat where
  | text
  | json
  deriving DecidableEq

/-- What the command line asks for. -/
inductive Command where
  | version
  /-- Moves files and rewrites references according to a mapping. -/
  | migrate (root mapping : String) (options : PoolOptions)
  /-- Checks a mapping and lists it. -/
  | check (mapping : String)
  /-- Lists the classified spans of a file. -/
  | scan (file : String)
  deriving DecidableEq

/-- A command with the options that every command takes. -/
structure Invocation where
  format : OutputFormat
  quiet : Bool
  command : Command
  deriving DecidableEq

namespace Invocation

/-- What has been read of the arguments. -/
structure Reading where
  format : OutputFormat := .text
  quiet : Bool := false
  version : Bool := false
  /-- The name of the command. -/
  name : Option String := none
  /-- The argument without a name. -/
  operand : Option String := none
  mapping : Option String := none
  options : PoolOptions := {}
  deriving DecidableEq

def format? (name : String) : Option OutputFormat :=
  if name = "text" then some .text else if name = "json" then some .json else none

def inlineValue? (name argument : String) : Option String :=
  let start := (name ++ "=").toList
  if start.isPrefixOf argument.toList then
    some (String.ofList (argument.toList.drop start.length))
  else none

def isVerbosity (argument : String) : Bool :=
  argument == "--verbose" ||
    match argument.toList with
    | '-' :: 'v' :: rest => rest.all (· == 'v')
    | _ => false

def count? (value : String) : Option Nat :=
  let digits :=
    match value.toList with
    | '+' :: digits => digits
    | digits => digits
  let number := digits.foldl (fun number c => number * 10 + (c.toNat - 48)) 0
  if !digits.isEmpty && digits.all Char.isDigit && number < 0x10000000000000000 then some number
  else none

namespace Reading

def isIn (reading : Reading) (commands : List String) : Bool :=
  reading.name.any commands.contains

def setValue (reading : Reading) (name value : String) : Option Reading :=
  if name = "--output" then (format? value).map fun format => { reading with format := format }
  else if name = "--mapping" ∧ reading.isIn ["migrate", "check"] then
    some { reading with mapping := some value }
  else if name = "--jobs" ∧ reading.isIn ["migrate"] then
    (count? value).map fun jobs => { reading with options := { reading.options with jobs := jobs } }
  else none

def setFlag (reading : Reading) (name : String) : Option Reading :=
  if name = "--quiet" then some { reading with quiet := true }
  else if isVerbosity name then some reading
  else if name = "--dry-run" ∧ reading.isIn ["migrate"] then
    some { reading with options := { reading.options with dryRun := true } }
  else if name = "--fail-on-conflict" ∧ reading.isIn ["migrate"] then
    some { reading with options := { reading.options with failOnConflict := true } }
  else none

def setWord (reading : Reading) (word : String) : Option Reading :=
  match reading.name, reading.operand with
  | none, _ => some { reading with name := some word }
  | some _, none => some { reading with operand := some word }
  | some _, some _ => none

def setSingle (reading : Reading) (argument : String) : Option Reading :=
  match ["--output", "--mapping", "--jobs"].findSome? fun name =>
      (inlineValue? name argument).map fun value => (name, value) with
  | some (name, value) => reading.setValue name value
  | none =>
    if argument.toList.head? = some '-' ∧ argument ≠ "-" then reading.setFlag argument
    else reading.setWord argument

def asksForVersion (reading : Reading) (argument : String) : Bool :=
  (argument == "--version" || argument == "-V") && reading.name.isNone

/-- Reads arguments from left to right, up to one that asks for the version. After two hyphens
nothing is an option any more. -/
def readAll (reading : Reading) : List String → Option Reading
  | [] => some reading
  | argument :: rest =>
    if reading.asksForVersion argument then some { reading with version := true }
    else if argument = "--" then
      if reading.name.isNone then none else rest.foldlM setWord reading
    else if argument = "--output" ∨ argument = "--mapping" ∨ argument = "--jobs" then
      match rest with
      | [] => none
      | value :: rest =>
        (reading.setValue argument value).bind fun reading => reading.readAll rest
    else (reading.setSingle argument).bind fun reading => reading.readAll rest

def command? (reading : Reading) : Option Command :=
  if reading.version then some .version
  else
    match reading.name, reading.operand, reading.mapping with
    | some "migrate", some root, some mapping => some (.migrate root mapping reading.options)
    | some "check", none, some mapping => some (.check mapping)
    | some "scan", some file, none => some (.scan file)
    | _, _, _ => none

end Reading

def parse? (arguments : List String) : Option Invocation :=
  match Reading.readAll {} arguments with
  | none => none
  | some reading => reading.command?.map fun command => ⟨reading.format, reading.quiet, command⟩

end Invocation

end Repackage
