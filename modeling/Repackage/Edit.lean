import Repackage.Text.Basic

/-!
Edits of a text. A batch of edits is put in order of place and spliced in one pass; an edit that
starts before the end of the one kept before it is left out.
-/

set_option autoImplicit false
set_option relaxedAutoImplicit false

namespace Repackage

/-- Replaces the text between two byte offsets; nothing is replaced when they are equal. -/
structure Edit where
  start : Nat
  stop : Nat
  replacement : Text
  deriving DecidableEq

namespace Edit

def insertAt (offset : Nat) (text : Text) : Edit :=
  ⟨offset, offset, text⟩

def precedes (a b : Edit) : Bool :=
  a.start < b.start || (a.start == b.start && a.stop ≤ b.stop)

/-- Splices ordered edits into the text from an offset on. There is no result when an edit or the
offset lies outside the text or inside a character. -/
def spliceFrom (text : Text) (offset : Nat) : List Edit → Option Text
  | [] => (Text.cut? offset text).map (·.2)
  | edit :: edits =>
    if edit.start < offset then spliceFrom text offset edits
    else
      match Text.slice? text offset edit.start, spliceFrom text edit.stop edits with
      | some kept, some rest => some (kept ++ edit.replacement ++ rest)
      | _, _ => none

def splice (text : Text) (edits : List Edit) : Option Text :=
  spliceFrom text 0 (edits.mergeSort precedes)

end Edit

end Repackage
