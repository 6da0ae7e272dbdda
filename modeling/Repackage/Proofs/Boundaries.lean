import Mathlib.Data.List.TakeWhile
import Mathlib.Tactic.SplitIfs
import Repackage.Edit
import Repackage.Span

/-!
Offsets between characters. A text can be cut where the texts before and after an offset are whole
texts; between two such offsets in order there is a part of the text, and edits that replace such
parts can always be spliced in.
-/

set_option autoImplicit false
set_option relaxedAutoImplicit false

namespace Repackage

/-- What stands in two lists in a row stands in the first or in the second. -/
theorem append_cases {α : Type} {first second before after : List α} {a : α}
    (split : first ++ second = before ++ a :: after) :
    (∃ rest, first = before ++ a :: rest ∧ after = rest ++ second) ∨
      ∃ rest, before = first ++ rest ∧ second = rest ++ a :: after := by
  rcases List.append_eq_append_iff.1 split with ⟨rest, rfl, tail⟩ | ⟨rest, rfl, tail⟩
  · exact .inr ⟨rest, rfl, tail⟩
  · cases rest with
    | nil => exact .inr ⟨[], by simp, tail.symm⟩
    | cons head rest =>
      obtain ⟨rfl, rfl⟩ := List.cons.inj tail
      exact .inl ⟨rest, rfl, rfl⟩

theorem exists_of_not_mem {α : Type} {first second before after : List α} {a : α}
    (absent : a ∉ first) (split : first ++ second = before ++ a :: after) :
    ∃ rest, before = first ++ rest ∧ second = rest ++ a :: after := by
  rcases append_cases split with ⟨rest, rfl, -⟩ | behind
  · exact absurd (List.mem_append_right _ List.mem_cons_self) absent
  · exact behind

namespace Text

def IsBoundary (text : Text) (offset : Nat) : Prop :=
  ∃ before after, text = before ++ after ∧ offset = byteSize before

theorem isBoundary_zero (text : Text) : IsBoundary text 0 :=
  ⟨[], text, rfl, rfl⟩

theorem isBoundary_byteSize (before after : Text) :
    IsBoundary (before ++ after) (byteSize before) :=
  ⟨before, after, rfl, rfl⟩

theorem eq_nil_of_byteSize {text : Text} (empty : byteSize text = 0) : text = [] := by
  cases text with
  | nil => rfl
  | cons c cs =>
    have positive := c.utf8Size_pos
    rw [byteSize] at empty
    omega

theorem slice?_byteSize (before middle after : Text) :
    slice? (before ++ middle ++ after) (byteSize before) (byteSize (before ++ middle)) =
      some middle := by
  have size : byteSize (before ++ middle) - byteSize before = byteSize middle := by
    rw [byteSize_append]
    omega
  have bound : byteSize before ≤ byteSize (before ++ middle) := by
    rw [byteSize_append]
    omega
  rw [slice?, if_pos bound, List.append_assoc, cut?_byteSize]
  simp [size, cut?_byteSize]

theorem IsBoundary.exists_behind {before rest : Text} {offset : Nat}
    (boundary : IsBoundary (before ++ rest) offset) (behind : byteSize before ≤ offset) :
    ∃ middle after, rest = middle ++ after ∧ offset = byteSize (before ++ middle) := by
  obtain ⟨front, after, same, rfl⟩ := boundary
  rcases List.append_eq_append_iff.1 same with ⟨middle, rfl, rfl⟩ | ⟨extra, rfl, rfl⟩
  · exact ⟨middle, after, rfl, rfl⟩
  · -- The offset would be the smaller one, so the two are equal.
    rw [byteSize_append] at behind
    obtain rfl : extra = [] := eq_nil_of_byteSize (by omega)
    exact ⟨[], rest, rfl, by simp⟩

theorem exists_between {text : Text} {start stop : Nat} (first : IsBoundary text start)
    (second : IsBoundary text stop) (ordered : start ≤ stop) :
    ∃ before middle after, text = before ++ middle ++ after ∧ start = byteSize before ∧
      stop = byteSize (before ++ middle) := by
  obtain ⟨before, rest, rfl, rfl⟩ := first
  obtain ⟨middle, after, rfl, rfl⟩ := second.exists_behind ordered
  exact ⟨before, middle, after, (List.append_assoc _ _ _).symm, rfl, rfl⟩

theorem exists_slice {text : Text} {start stop : Nat} (first : IsBoundary text start)
    (second : IsBoundary text stop) (ordered : start ≤ stop) :
    ∃ middle, slice? text start stop = some middle := by
  obtain ⟨before, middle, after, rfl, rfl, rfl⟩ := exists_between first second ordered
  exact ⟨middle, slice?_byteSize before middle after⟩

private theorem isBoundary_iff {text : Text} {offset : Nat} :
    IsBoundary text offset ↔ (cut? offset text).isSome := by
  constructor
  · rintro ⟨before, after, rfl, rfl⟩
    rw [cut?_byteSize, Option.isSome_some]
  · intro found
    obtain ⟨⟨before, after⟩, cut⟩ := Option.isSome_iff_exists.1 found
    obtain ⟨whole, size⟩ := eq_append_of_cut? cut
    exact ⟨before, after, whole, size⟩

instance (text : Text) (offset : Nat) : Decidable (IsBoundary text offset) :=
  decidable_of_iff _ isBoundary_iff.symm

theorem isBoundary_of_slice? {text middle : Text} {start stop : Nat}
    (sliced : slice? text start stop = some middle) :
    start ≤ stop ∧ IsBoundary text start ∧ IsBoundary text stop := by
  unfold slice? at sliced
  split_ifs at sliced with ordered
  obtain ⟨⟨before, rest⟩, first, cut⟩ := Option.bind_eq_some_iff.1 sliced
  obtain ⟨⟨found, after⟩, second, -⟩ := Option.bind_eq_some_iff.1 cut
  obtain ⟨rfl, rfl⟩ := eq_append_of_cut? first
  obtain ⟨rfl, size⟩ := eq_append_of_cut? second
  refine ⟨ordered, isBoundary_byteSize before _, before ++ found, after, by simp, ?_⟩
  rw [byteSize_append]
  omega

private theorem cut?_append {offset : Nat} {a : Text} (fits : offset ≤ byteSize a) (b : Text) :
    cut? offset (a ++ b) = (cut? offset a).map fun parts => (parts.1, parts.2 ++ b) := by
  induction a generalizing offset with
  | nil =>
    obtain rfl : offset = 0 := Nat.le_zero.1 fits
    simp [cut?]
  | cons c cs ih =>
    cases offset with
    | zero => simp [cut?]
    | succ n =>
      rw [byteSize] at fits
      rw [List.cons_append, cut?, cut?]
      split_ifs with whole
      · rw [ih (by omega), Option.map_map, Option.map_map]
        rfl
      · rfl

theorem slice?_append {start stop : Nat} {a : Text} (fits : stop ≤ byteSize a) (b : Text) :
    slice? (a ++ b) start stop = slice? a start stop := by
  unfold slice?
  split_ifs with ordered
  · rw [cut?_append (by omega)]
    cases cut : cut? start a with
    | none => rfl
    | some parts =>
      obtain ⟨before, rest⟩ := parts
      obtain ⟨rfl, rfl⟩ := eq_append_of_cut? cut
      rw [byteSize_append] at fits
      have inner := @cut?_append (stop - byteSize before) rest (by omega) b
      simp only [Option.map_some, Option.bind_eq_bind, Option.bind_some, inner]
      cases cut? (stop - byteSize before) rest <;> rfl
  · rfl

theorem exists_line {text : Text} (newline : '\n' ∈ text) :
    ∃ rest, text = text.takeWhile (· ≠ '\n') ++ '\n' :: rest := by
  have parts := List.takeWhile_append_dropWhile (p := fun c => decide (c ≠ '\n')) (l := text)
  cases found : text.dropWhile (· ≠ '\n') with
  | nil =>
    rw [found, List.append_nil] at parts
    have all := List.takeWhile_eq_self_iff.1 parts '\n' newline
    simp at all
  | cons c rest =>
    have stops := List.head?_dropWhile_not (fun c => decide (c ≠ '\n')) text
    rw [found] at stops parts
    obtain rfl : c = '\n' := by simpa using stops
    exact ⟨rest, parts.symm⟩

end Text

namespace Edit

/-- Whether an edit replaces a part of a text. -/
def Fits (text : Text) (edit : Edit) : Prop :=
  edit.start ≤ edit.stop ∧ Text.IsBoundary text edit.start ∧ Text.IsBoundary text edit.stop

instance (text : Text) (edit : Edit) : Decidable (edit.Fits text) :=
  inferInstanceAs (Decidable (_ ∧ _ ∧ _))

private theorem exists_spliceFrom {text : Text} {offset : Nat} {edits : List Edit}
    (boundary : Text.IsBoundary text offset) (fits : ∀ edit ∈ edits, edit.Fits text) :
    ∃ result, spliceFrom text offset edits = some result := by
  induction edits generalizing offset with
  | nil =>
    obtain ⟨before, after, rfl, rfl⟩ := boundary
    exact ⟨after, by simp [spliceFrom, Text.cut?_byteSize]⟩
  | cons edit edits ih =>
    obtain ⟨⟨-, start, stop⟩, later⟩ := List.forall_mem_cons.1 fits
    by_cases behind : edit.start < offset
    · obtain ⟨result, spliced⟩ := ih boundary later
      exact ⟨result, by simp [spliceFrom, behind, spliced]⟩
    · obtain ⟨kept, sliced⟩ := Text.exists_slice boundary start (by omega)
      obtain ⟨rest, spliced⟩ := ih stop later
      exact ⟨kept ++ edit.replacement ++ rest, by simp [spliceFrom, behind, sliced, spliced]⟩

theorem exists_splice {text : Text} {edits : List Edit} (fits : ∀ edit ∈ edits, edit.Fits text) :
    ∃ result, splice text edits = some result := by
  refine exists_spliceFrom (Text.isBoundary_zero text) fun edit member => fits edit ?_
  exact List.mem_mergeSort.1 member

theorem splice_singleton (before replaced after replacement : Text) :
    splice (before ++ replaced ++ after)
        [⟨Text.byteSize before, Text.byteSize (before ++ replaced), replacement⟩] =
      some (before ++ replacement ++ after) := by
  have kept : Text.slice? (before ++ replaced ++ after) 0 (Text.byteSize before) = some before := by
    rw [List.append_assoc]
    exact Text.slice?_byteSize [] before (replaced ++ after)
  simp [splice, spliceFrom, kept, Text.cut?_byteSize, -List.append_assoc]

end Edit

namespace Token

theorem texts_cons (token : Token) (tokens : List Token) :
    texts (token :: tokens) = token.text ++ texts tokens := rfl

theorem texts_append (a b : List Token) : texts (a ++ b) = texts a ++ texts b := by
  simp [texts]

theorem locateFrom_append (start line : Nat) (a b : List Token) :
    locateFrom start line (a ++ b) = locateFrom start line a ++
      locateFrom (start + Text.byteSize (texts a)) (line + Text.newlines (texts a)) b := by
  induction a generalizing start line with
  | nil => rfl
  | cons token tokens ih =>
    rw [List.cons_append, locateFrom, ih, locateFrom, texts_cons, Text.byteSize_append,
      Text.newlines_append, ← Nat.add_assoc, ← Nat.add_assoc, List.cons_append]

theorem behind_of_byteSize_lt {a b c d : List Token} {x y : Token}
    (same : a ++ x :: b = c ++ y :: d) (different : x ≠ y)
    (ends : Text.byteSize (texts c) < Text.byteSize (texts (a ++ [x]))) :
    ∃ between, a = c ++ y :: between ∧ d = between ++ x :: b := by
  rcases append_cases same with ⟨rest, rfl, after⟩ | ⟨rest, rfl, tail⟩
  · exact ⟨rest, rfl, after⟩
  · cases rest with
    | nil => exact absurd (List.cons.inj tail).1 different
    | cons first rest =>
      obtain ⟨rfl, -⟩ := List.cons.inj tail
      have longer : a ++ x :: rest = a ++ [x] ++ rest := by simp
      rw [longer, texts_append (a ++ [x]), Text.byteSize_append] at ends
      omega

theorem mem_locateFrom {start line : Nat} {tokens : List Token} {located : Located}
    (member : located ∈ locateFrom start line tokens) :
    ∃ before after, tokens = before ++ located.token :: after ∧
      located.start = start + Text.byteSize (texts before) ∧
      located.line = line + Text.newlines (texts before) := by
  induction tokens generalizing start line with
  | nil => cases member
  | cons token tokens ih =>
    rcases List.mem_cons.1 member with rfl | later
    · exact ⟨[], tokens, rfl, rfl, rfl⟩
    · obtain ⟨before, after, rfl, offset, row⟩ := ih later
      refine ⟨token :: before, after, rfl, ?_, ?_⟩
      · rw [offset, texts_cons, Text.byteSize_append]
        omega
      · rw [row, texts_cons, Text.newlines_append]
        omega

theorem slice?_of_mem_locateFrom {before after : Text} {tokens : List Token} {located : Located}
    (member : located ∈ locateFrom (Text.byteSize before) (Text.newlines before + 1) tokens) :
    Text.slice? (before ++ texts tokens ++ after) located.start located.stop =
        some located.token.text ∧
      Text.lineAt? (before ++ texts tokens ++ after) located.start = some located.line := by
  obtain ⟨front, back, rfl, start, line⟩ := mem_locateFrom member
  have parts : before ++ texts (front ++ located.token :: back) ++ after =
      before ++ texts front ++ located.token.text ++ (texts back ++ after) := by
    simp [texts]
  have stop : located.stop = Text.byteSize (before ++ texts front ++ located.token.text) := by
    rw [Located.stop, start, Text.byteSize_append, Text.byteSize_append]
  rw [← Text.byteSize_append] at start
  constructor
  · rw [parts, start, stop, Text.slice?_byteSize]
  · rw [parts, start, line, List.append_assoc, Text.lineAt?_byteSize, Text.newlines_append]
    congr 1
    omega

end Token

namespace Span

theorem texts_cons (span : Span) (spans : List Span) :
    texts (span :: spans) = span.text ++ texts spans := rfl

theorem texts_append (a b : List Span) : texts (a ++ b) = texts a ++ texts b := by
  simp [texts]

theorem mem_locateFrom {start line : Nat} {spans : List Span} {located : Located}
    (member : located ∈ locateFrom start line spans) :
    ∃ before after, spans = before ++ located.span :: after ∧
      located.start = start + Text.byteSize (texts before) ∧
      located.line = line + Text.newlines (texts before) := by
  induction spans generalizing start line with
  | nil => cases member
  | cons span spans ih =>
    rcases List.mem_cons.1 member with rfl | later
    · exact ⟨[], spans, rfl, rfl, rfl⟩
    · obtain ⟨before, after, rfl, offset, row⟩ := ih later
      refine ⟨span :: before, after, rfl, ?_, ?_⟩
      · rw [offset, texts_cons, Text.byteSize_append]
        omega
      · rw [row, texts_cons, Text.newlines_append]
        omega

theorem slice?_of_mem_locate {spans : List Span} {located : Located}
    (member : located ∈ locate spans) :
    Text.slice? (texts spans) located.start located.stop = some located.span.text ∧
      Text.lineAt? (texts spans) located.start = some located.line := by
  obtain ⟨front, back, rfl, start, line⟩ := mem_locateFrom member
  have parts : texts (front ++ located.span :: back) =
      texts front ++ located.span.text ++ texts back := by
    simp [texts]
  have stop : located.stop = Text.byteSize (texts front ++ located.span.text) := by
    rw [Located.stop, start, Text.byteSize_append, Nat.zero_add]
  rw [Nat.zero_add] at start
  constructor
  · rw [parts, start, stop, Text.slice?_byteSize]
  · rw [parts, start, line, List.append_assoc, Text.lineAt?_byteSize, Nat.add_comm]

end Span

end Repackage
