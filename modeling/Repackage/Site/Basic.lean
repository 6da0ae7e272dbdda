import Repackage.Span

/-!
The role of each identifier in a source text, and the significant items from which the role is
read.
-/

set_option autoImplicit false
set_option relaxedAutoImplicit false

namespace Repackage

/-- A word at a place of a text. -/
structure Occurrence where
  start : Nat
  text : Text
  deriving DecidableEq

def Occurrence.stop (word : Occurrence) : Nat :=
  word.start + Text.byteSize word.text

def Occurrence.name (word : Occurrence) : String :=
  String.ofList word.text

/-- What a declaration site declares. -/
inductive Declared where
  /-- A name after `func`, `type`, `var` or `const` outside function bodies. -/
  | packageLevel
  /-- A method name after a receiver list. -/
  | method
  /-- A word inside a receiver list. -/
  | receiver
  /-- A struct field or an interface method. -/
  | field
  /-- A key of a composite literal. -/
  | key
  /-- A name bound by `:=` or declared inside a function body. -/
  | inner
  deriving DecidableEq

/-- The role of an identifier. -/
inductive Site where
  | reference
  /-- The name after the dot of a selector; the qualifier is the word before the dot when it stands
  alone. -/
  | selected (qualifier : Option Occurrence)
  | declaration (kind : Declared)
  deriving DecidableEq

/-- An identifier with its role. -/
structure Identifier where
  word : Occurrence
  site : Site
  deriving DecidableEq

namespace Site

/-- A span that is neither white space nor a comment, with what the classification needs to know
about its surroundings. -/
structure Item where
  kind : Span.Kind
  text : Text
  start : Nat
  /-- A line end lies between the item and the one before it. -/
  startsLine : Bool
  /-- Nothing lies between the item and the one before it. -/
  touches : Bool
  deriving DecidableEq

namespace Item

def isMark (c : Char) (item : Item) : Bool :=
  item.kind == .other && item.text == [c]

def isName (item : Item) : Bool :=
  item.kind == .word && !Word.isKeyword item.text

def occurrence (item : Item) : Occurrence :=
  ⟨item.start, item.text⟩

/-- Whether a line end after the item cannot end a declaration: it is an operator, a separator or
an opening bracket of an index. -/
def continuesExpression (item : Item) : Bool :=
  item.kind == .other &&
    ["=", "+", "-", "*", "/", "%", "&", "|", "^", "<", ">", ",", "[", ":"].any
      fun mark => mark.toList == item.text

end Item

/-- The significant items among located spans. The flags say whether a line end was seen since the
last item, and whether nothing at all was. -/
def itemsFrom (newline adjacent : Bool) : List Span.Located → List Item
  | [] => []
  | located :: rest =>
    let span := located.span
    if span.kind = .comment ∨ span.isBlank then
      itemsFrom (newline || span.text.contains '\n') false rest
    else ⟨span.kind, span.text, located.start, newline, adjacent⟩ :: itemsFrom false true rest

def items (spans : List Span) : List Item :=
  itemsFrom true false (Span.locate spans)

end Site

end Repackage
