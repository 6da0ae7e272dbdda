import Repackage.Text.Alphabetic
import Repackage.Text.Blank
import Repackage.Text.Numeric

/-!
Texts as lists of characters. An offset into a text counts the bytes of its UTF-8 form, so a text
can be cut only at offsets that fall between two characters.
-/

set_option autoImplicit false
set_option relaxedAutoImplicit false

namespace Repackage

abbrev Text := List Char

namespace Text

def isWordChar (c : Char) : Bool :=
  isAlphabetic c || isNumeric c || c == '_'

def isWordStart (c : Char) : Bool :=
  isAlphabetic c || c == '_'

def isAsciiAlphanumeric (c : Char) : Bool :=
  c.isAlpha || c.isDigit

def byteSize : Text → Nat
  | [] => 0
  | c :: cs => c.utf8Size + byteSize cs

/-- The two parts of a text before and after a byte offset. There are none when the offset lies
beyond the end or inside a character. -/
def cut? : Nat → Text → Option (Text × Text)
  | 0, cs => some ([], cs)
  | _ + 1, [] => none
  | n + 1, c :: cs =>
    if c.utf8Size ≤ n + 1 then
      (cut? (n + 1 - c.utf8Size) cs).map fun parts => (c :: parts.1, parts.2)
    else none

/-- The part of a text from one byte offset to another, when both fall between characters and are
in order. -/
def slice? (text : Text) (start stop : Nat) : Option Text :=
  if start ≤ stop then do
    let (_, rest) ← cut? start text
    let (middle, _) ← cut? (stop - start) rest
    return middle
  else none

def newlines (text : Text) : Nat :=
  text.count '\n'

/-- The line, counted from one, of a byte offset. An offset beyond the end is taken as the end; an
offset inside a character is on no line. -/
def lineAt? (text : Text) (offset : Nat) : Option Nat :=
  (cut? (min offset (byteSize text)) text).map fun parts => newlines parts.1 + 1

def find? (mark : Text) : Text → Option Nat
  | [] => if mark = [] then some 0 else none
  | c :: cs =>
    if mark.isPrefixOf (c :: cs) then some 0
    else (find? mark cs).map (· + c.utf8Size)

def trim (text : Text) : Text :=
  ((text.dropWhile isBlank).reverse.dropWhile isBlank).reverse

def splitOn (separator : Char) : Text → List Text
  | [] => [[]]
  | c :: cs =>
    if c = separator then [] :: splitOn separator cs
    else
      match splitOn separator cs with
      | [] => [[c]]
      | part :: parts => (c :: part) :: parts

def joinWith (separator : Char) : List Text → Text
  | [] => []
  | [part] => part
  | part :: parts => part ++ separator :: joinWith separator parts

def padRight (width : Nat) (text : Text) : Text :=
  text ++ List.replicate (width - text.length) ' '

def padLeft (width : Nat) (text : Text) : Text :=
  List.replicate (width - text.length) ' ' ++ text

theorem byteSize_append (a b : Text) : byteSize (a ++ b) = byteSize a + byteSize b := by
  induction a with
  | nil => simp [byteSize]
  | cons c cs ih => simp [byteSize, ih, Nat.add_assoc]

/-- A text is cut in two exactly at the size of its first part. -/
theorem cut?_byteSize (a b : Text) : cut? (byteSize a) (a ++ b) = some (a, b) := by
  induction a with
  | nil => simp [byteSize, cut?]
  | cons c cs ih =>
    have positive := c.utf8Size_pos
    obtain ⟨n, hn⟩ : ∃ n, byteSize (c :: cs) = n + 1 :=
      ⟨byteSize (c :: cs) - 1, by simp only [byteSize]; omega⟩
    have bound : c.utf8Size ≤ n + 1 := by simp only [byteSize] at hn; omega
    have rest : n + 1 - c.utf8Size = byteSize cs := by simp only [byteSize] at hn; omega
    rw [hn, List.cons_append, cut?, if_pos bound, rest, ih]
    rfl

theorem eq_append_of_cut? {text before after : Text} {offset : Nat}
    (cut : cut? offset text = some (before, after)) :
    text = before ++ after ∧ offset = byteSize before := by
  fun_induction cut? offset text generalizing before with
  | case1 text =>
    cases cut
    exact ⟨rfl, rfl⟩
  | case2 n => cases cut
  | case3 n c cs fits ih =>
    obtain ⟨⟨front, back⟩, inner, same⟩ := Option.map_eq_some_iff.1 cut
    cases same
    obtain ⟨rfl, size⟩ := ih inner
    refine ⟨rfl, ?_⟩
    simp only [byteSize]
    omega
  | case4 n c cs inside => cases cut

theorem newlines_append (a b : Text) : newlines (a ++ b) = newlines a + newlines b :=
  List.count_append

theorem lineAt?_byteSize (before after : Text) :
    lineAt? (before ++ after) (byteSize before) = some (newlines before + 1) := by
  have bound : min (byteSize before) (byteSize (before ++ after)) = byteSize before := by
    rw [byteSize_append]
    omega
  rw [lineAt?, bound, cut?_byteSize]
  rfl

theorem splitOn_ne_nil (separator : Char) (text : Text) : splitOn separator text ≠ [] := by
  cases text with
  | nil => simp [splitOn]
  | cons c cs =>
    rw [splitOn]
    split
    · simp
    · split <;> simp

end Text

end Repackage
