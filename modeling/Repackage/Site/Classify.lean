import Repackage.Site.Basic

/-!
Classification of identifiers. The significant items are read from left to right with a context
that counts open braces and parentheses and remembers which of them opened a declaration group, a
struct or interface body, or a receiver list. No grammar beyond that is needed.
-/

set_option autoImplicit false
set_option relaxedAutoImplicit false

namespace Repackage.Site

/-- What an opening bracket that follows directly would open. -/
inductive Pending where
  | nothing
  | receiver
  | group
  | body
  deriving DecidableEq

/-- The nesting at a place of the text. -/
structure Context where
  braces : Nat := 0
  parens : Nat := 0
  /-- Parenthesis and brace depth of the open declaration groups, innermost first. -/
  groups : List (Nat × Nat) := []
  /-- Brace depth of the open struct and interface bodies, innermost first. -/
  bodies : List Nat := []
  /-- Parenthesis depth of the open receiver list. -/
  receiver : Option Nat := none
  pending : Pending := .nothing
  /-- What the next identifier declares. -/
  expect : Option Declared := none
  /-- What the identifier after a directly following comma declares. -/
  continues : Option Declared := none
  /-- Between `case` and the next colon. -/
  inCase : Bool := false
  deriving DecidableEq

def defines : List Item → Bool
  | colon :: equals :: _ => colon.isMark ':' && equals.isMark '=' && equals.touches
  | _ => false

def definesList : List Item → Bool
  | comma :: name :: rest =>
    if comma.isMark ',' && name.isName then definesList rest else defines (comma :: name :: rest)
  | rest => defines rest

/-- Whether the items before an identifier, nearest first, make it the selected half of a selector.
A dot directly after another dot ends an ellipsis and selects nothing. -/
def selects : List Item → Bool
  | dot :: rest => dot.isMark '.' && !rest.head?.any (·.isMark '.')
  | [] => false

def qualifier? : List Item → Option Occurrence
  | _ :: word :: rest =>
    if word.isName && !rest.head?.any (·.isMark '.') then some word.occurrence else none
  | _ => none

namespace Context

def declaredAt (braces : Nat) : Declared :=
  if braces = 0 then .packageLevel else .inner

def keyword (context : Context) (previous : Option Item) (word : Text) (next : Option Item) :
    Context :=
  let context : Context := { context with expect := none, continues := none }
  if word = "func".toList then
    let inExpression : Bool := previous.any fun item =>
      item.isMark '=' || item.isMark ',' || item.isMark '(' || item.isMark '[' || item.isMark ':'
    if context.braces = 0 ∧ context.parens = 0 ∧ !inExpression then
      if next.any (·.isMark '(') then { context with pending := .receiver }
      else if next.any Item.isName then { context with expect := some .packageLevel }
      else context
    else context
  else if word = "type".toList ∨ word = "var".toList ∨ word = "const".toList then
    if next.any (·.isMark '(') then { context with pending := .group }
    else if next.any Item.isName then
      { context with expect := some (declaredAt context.braces) }
    else context
  else if word = "struct".toList ∨ word = "interface".toList then
    if next.any (·.isMark '\x7b') then { context with pending := .body } else context
  else if word = "case".toList then { context with inCase := true }
  else context

def openParen (context : Context) : Context :=
  let depth := context.parens + 1
  match context.pending with
  | .receiver =>
    { context with parens := depth, receiver := some depth, pending := .nothing }
  | .group =>
    { context with
      parens := depth, groups := (depth, context.braces) :: context.groups, pending := .nothing }
  | _ => { context with parens := depth, pending := .nothing }

def closeParen (context : Context) : Context :=
  let closesReceiver := context.receiver = some context.parens
  let groups :=
    if context.groups.head? = some (context.parens, context.braces) then context.groups.tail
    else context.groups
  { context with
    parens := context.parens - 1
    groups := groups
    receiver := if closesReceiver then none else context.receiver
    expect := if closesReceiver then some .method else none
    pending := .nothing }

def openBrace (context : Context) : Context :=
  let depth := context.braces + 1
  { context with
    braces := depth
    bodies := if context.pending = .body then depth :: context.bodies else context.bodies
    pending := .nothing }

def closeBrace (context : Context) : Context :=
  { context with
    braces := context.braces - 1
    bodies :=
      if context.bodies.head? = some context.braces then context.bodies.tail else context.bodies
    pending := .nothing }

def punctuation (context : Context) (text : Text) : Context :=
  if text = [','] then { context with expect := context.continues, continues := none }
  else
    let context : Context := { context with expect := none, continues := none }
    if text = ['('] then context.openParen
    else if text = [')'] then context.closeParen
    else if text = ['\x7b'] then context.openBrace
    else if text = ['\x7d'] then context.closeBrace
    else if text = [':'] then { context with inCase := false, pending := .nothing }
    else { context with pending := .nothing }

def passOver (context : Context) : Context :=
  { context with expect := none, continues := none, pending := .nothing }

def passOn (context : Context) (kind : Declared) (next : Option Item) : Context :=
  if next.any (·.isMark ',') then { context with continues := some kind } else context

def startsGroupLine (context : Context) (previous : Option Item) (startsLine : Bool) : Bool :=
  context.groups.head? == some (context.parens, context.braces) && startsLine &&
    !previous.any Item.continuesExpression

/-- Whether an identifier in this context names a field. The name of an embedded type is followed
by the end of its line or body, a tag, or a dot. -/
def namesField (context : Context) (startsLine : Bool) (next : Option Item) : Bool :=
  context.bodies.head? == some context.braces && startsLine &&
    next.any fun item =>
      !item.startsLine && item.kind != .literal && !item.isMark '.' && !item.isMark ';' &&
        !item.isMark '\x7d'

def isKey (context : Context) (previous : Option Item) (after : List Item) : Bool :=
  !context.inCase && context.braces > 0 && after.head?.any (·.isMark ':') && !defines after &&
    previous.any fun item => item.isMark '\x7b' || item.isMark ','

def identifier (context : Context) (before : List Item) (item : Item) (after : List Item) :
    Site × Context :=
  let previous := before.head?
  let next := after.head?
  let context : Context := { context with continues := none, pending := .nothing }
  if selects before then (.selected (qualifier? before), { context with expect := none })
  else if context.receiver.isSome then (.declaration .receiver, context)
  else
    match context.expect with
    | some kind => (.declaration kind, { context with expect := none }.passOn kind next)
    | none =>
      let startsLine := item.startsLine ||
        previous.any fun item => item.isMark ';' || item.isMark '(' || item.isMark '\x7b'
      if context.startsGroupLine previous startsLine then
        let kind := declaredAt context.braces
        (.declaration kind, context.passOn kind next)
      else if context.namesField startsLine next then
        (.declaration .field, context.passOn .field next)
      else if context.isKey previous after then (.declaration .key, context)
      else if definesList after then (.declaration .inner, context)
      else (.reference, context)

/-- Reads an item between the items before it, nearest first, and the items after it. An identifier
gets a role. -/
def read (context : Context) (before : List Item) (item : Item) (after : List Item) :
    Option Site × Context :=
  match item.kind with
  | .word =>
    if Word.isKeyword item.text then
      (none, context.keyword before.head? item.text after.head?)
    else
      let (site, next) := context.identifier before item after
      (some site, next)
  | .other => (none, context.punctuation item.text)
  | _ => (none, context.passOver)

end Context

/-- Classifies the identifiers among the items from a place on; the items before it stand nearest
first. -/
def classifyFrom (context : Context) (before : List Item) : List Item → List Identifier
  | [] => []
  | item :: after =>
    match context.read before item after with
    | (some site, next) => ⟨item.occurrence, site⟩ :: classifyFrom next (item :: before) after
    | (none, next) => classifyFrom next (item :: before) after

def classify (spans : List Span) : List Identifier :=
  classifyFrom {} [] (items spans)

end Repackage.Site
