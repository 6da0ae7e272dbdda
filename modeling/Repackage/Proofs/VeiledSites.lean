import Repackage.Proofs.Requalification

/-!
Roles of identifiers where no literal can be read. The classification looks into no literal and
takes offsets as they are, so its outcome is that for the text with the literals veiled and all
places moved.
-/

set_option autoImplicit false
set_option relaxedAutoImplicit false

namespace Repackage

/-- A word at a moved place. -/
def Occurrence.moved (move : Nat → Nat) (word : Occurrence) : Occurrence :=
  ⟨move word.start, word.text⟩

/-- A role whose qualifier stands at a moved place. -/
def Site.moved (move : Nat → Nat) : Site → Site
  | .reference => .reference
  | .selected qualifier => .selected (qualifier.map (·.moved move))
  | .declaration kind => .declaration kind

/-- An identifier at a moved place. -/
def Identifier.moved (move : Nat → Nat) (identifier : Identifier) : Identifier :=
  ⟨identifier.word.moved move, identifier.site.moved move⟩

namespace Site

def Item.veiled (move : Nat → Nat) (item : Item) : Item :=
  { item with
    start := move item.start
    text := if item.kind = .literal then [] else item.text }

section Items

variable {move : Nat → Nat} {item : Item}

@[simp] theorem Item.veiled_kind : (item.veiled move).kind = item.kind := rfl

@[simp] theorem Item.veiled_startsLine : (item.veiled move).startsLine = item.startsLine := rfl

private theorem Item.veiled_text (read : item.kind ≠ .literal) : (item.veiled move).text =
    item.text :=
  if_neg read

@[simp] theorem Item.veiled_mark? : (item.veiled move).mark? = item.mark? := by
  by_cases other : item.kind = .other
  · simp [mark?, veiled, other]
  · simp [mark?, other]

@[simp] theorem Item.veiled_isMark (c : Char) : (item.veiled move).isMark c = item.isMark c := by
  rw [isMark_eq, isMark_eq, veiled_mark?]

@[simp] theorem Item.veiled_continuesExpression :
    (item.veiled move).continuesExpression = item.continuesExpression := by
  rw [continuesExpression_eq, continuesExpression_eq item, veiled_mark?]

@[simp] theorem Item.veiled_isName : (item.veiled move).isName = item.isName := by
  by_cases word : item.kind = .word
  · simp [isName, veiled, word]
  · have other : (item.kind == .word) = false := by simpa using word
    simp [isName, other]

private theorem Item.veiled_occurrence (isName : item.isName) :
    (item.veiled move).occurrence = item.occurrence.moved move := by
  have word := kind_of_isName isName
  simp [occurrence, veiled, word, Occurrence.moved]

variable (move) (items : List Item)

@[simp] theorem defines_veiled : defines (items.map (·.veiled move)) = defines items := by
  cases items with
  | nil => rfl
  | cons colon rest =>
    simp only [List.map_cons, defines_cons, Item.veiled_isMark, List.head?_map, Option.any_map]
    rfl

@[simp] theorem definesList_veiled :
    definesList (items.map (·.veiled move)) = definesList items := by
  fun_induction definesList items with
  | case1 comma name rest named ih => simpa [definesList, named] using ih
  | case2 comma name rest other =>
    have same := defines_veiled move (comma :: name :: rest)
    simpa [definesList, other] using same
  | case3 rest short =>
    have same := defines_veiled move rest
    cases rest with
    | nil => exact same
    | cons comma rest =>
      cases rest with
      | nil => exact same
      | cons name rest => exact absurd rfl (short comma name rest)

@[simp] theorem selects_veiled : selects (items.map (·.veiled move)) = selects items := by
  cases items with
  | nil => rfl
  | cons dot rest => simp [selects, Option.any_map]

private theorem qualifier?_veiled :
    qualifier? (items.map (·.veiled move)) = (qualifier? items).map (·.moved move) := by
  cases items with
  | nil => rfl
  | cons dot before =>
    rw [List.map_cons, qualifier?_cons, qualifier?_cons]
    cases before with
    | nil => rfl
    | cons word rest =>
      cases named : word.isName with
      | false => simp [standalone?, named]
      | true =>
        simp only [standalone?, List.map_cons, List.head?_map, Option.any_map,
          Item.veiled_isName, Item.veiled_isMark, named, Item.veiled_occurrence named]
        split_ifs <;> rfl

end Items

namespace Context

variable (move : Nat → Nat) (context : Context)

@[simp] theorem keyword_veiled (previous next : Option Item) (word : Text) :
    context.keyword (previous.map (·.veiled move)) word (next.map (·.veiled move)) =
      context.keyword previous word next := by
  simp only [keyword, Option.any_map, Item.veiled_isMark, Item.veiled_isName]

@[simp] theorem passOn_veiled (kind : Declared) (next : Option Item) :
    context.passOn kind (next.map (·.veiled move)) = context.passOn kind next := by
  simp only [passOn, Option.any_map, Item.veiled_isMark]

@[simp] theorem startsGroupLine_veiled (previous : Option Item) (startsLine : Bool) :
    context.startsGroupLine (previous.map (·.veiled move)) startsLine =
      context.startsGroupLine previous startsLine := by
  simp only [startsGroupLine, Option.any_map, Item.veiled_continuesExpression]

@[simp] theorem namesField_veiled (startsLine : Bool) (next : Option Item) :
    context.namesField startsLine (next.map (·.veiled move)) =
      context.namesField startsLine next := by
  simp only [namesField, Option.any_map, Item.veiled_isMark, Item.veiled_kind,
    Item.veiled_startsLine]

@[simp] theorem isKey_veiled (previous : Option Item) (after : List Item) :
    context.isKey (previous.map (·.veiled move)) (after.map (·.veiled move)) =
      context.isKey previous after := by
  simp only [isKey, List.head?_map, Option.any_map, Item.veiled_isMark,
    defines_veiled]

private theorem identifier_veiled (before : List Item) (item : Item) (after : List Item) :
    context.identifier (before.map (·.veiled move)) (item.veiled move)
        (after.map (·.veiled move)) =
      ((context.identifier before item after).1.moved move,
        (context.identifier before item after).2) := by
  cases selected : selects before with
  | true => simp only [identifier, selects_veiled, selected, qualifier?_veiled]; rfl
  | false =>
    cases received : context.receiver.isSome with
    | true => simp only [identifier, selects_veiled, selected, received]; rfl
    | false =>
      cases expected : context.expect with
      | some kind =>
        simp only [identifier, selects_veiled, selected, received, expected, List.head?_map,
          passOn_veiled]
        rfl
      | none =>
        simp only [identifier, selects_veiled, selected, received, expected, Bool.false_eq_true,
          if_false, List.head?_map, passOn_veiled, startsGroupLine_veiled, namesField_veiled,
          isKey_veiled, definesList_veiled, Item.veiled_startsLine, Option.any_map,
          Item.veiled_isMark]
        split_ifs <;> rfl

private theorem read_veiled (before : List Item) (item : Item) (after : List Item) :
    context.read (before.map (·.veiled move)) (item.veiled move) (after.map (·.veiled move)) =
      ((context.read before item after).1.map (·.moved move),
        (context.read before item after).2) := by
  cases kind : item.kind with
  | word =>
    have text : (item.veiled move).text = item.text := Item.veiled_text (by simp [kind])
    simp only [read, Item.veiled_kind, kind, text, List.head?_map, keyword_veiled,
      identifier_veiled]
    split_ifs <;> rfl
  | other =>
    have text : (item.veiled move).text = item.text := Item.veiled_text (by simp [kind])
    simp only [read, Item.veiled_kind, kind, text, Option.map_none]
  | _ => simp only [read, Item.veiled_kind, kind, Option.map_none]

end Context

private theorem classifyFrom_veiled (move : Nat → Nat) (context : Context)
    (before after : List Item) :
    classifyFrom context (before.map (·.veiled move)) (after.map (·.veiled move)) =
      (classifyFrom context before after).map (·.moved move) := by
  induction after generalizing context before with
  | nil => rfl
  | cons item after ih =>
    have read := Context.read_veiled move context before item after
    cases named : item.isName with
    | false =>
      have silent : (context.read before item after).1 = none := read_silent named
      have veiled : (context.read (before.map (·.veiled move)) (item.veiled move)
          (after.map (·.veiled move))).1 = none := by rw [read, silent]; rfl
      rw [classifyFrom_of_silent silent, List.map_cons, classifyFrom_of_silent veiled, read]
      exact ih _ (item :: before)
    | true =>
      have veiled : (item.veiled move).isName := Item.veiled_isName.trans named
      rw [classifyFrom_of_isName named, List.map_cons, classifyFrom_of_isName veiled,
        Context.identifier_veiled, Item.veiled_occurrence named, List.map_cons]
      exact congrArg _ (ih _ (item :: before))

end Site

namespace Span

/-- Whether two spans tell the classification the same. They can be two literals, or two comments
that hold a line end or not. -/
structure Alike (a b : Span) : Prop where
  kind : b.kind = a.kind
  text : a.kind ≠ .literal → a.kind ≠ .comment → b.text = a.text
  newline : a.kind = .comment → b.text.contains '\n' = a.text.contains '\n'

theorem Alike.refl (span : Span) : Alike span span :=
  ⟨rfl, fun _ _ => rfl, fun _ => rfl⟩

theorem Alike.isBlank {a b : Span} (alike : Alike a b) : b.isBlank = a.isBlank := by
  by_cases other : a.kind = .other
  · rw [Span.isBlank, Span.isBlank, alike.kind, alike.text (by simp [other]) (by simp [other])]
  · have kind : (a.kind == .other) = false := by simpa using other
    rw [Span.isBlank, Span.isBlank, alike.kind, kind, Bool.false_and, Bool.false_and]

/-- Whether two located spans tell the classification the same, at places that are moved to the
same one. -/
structure Located.Alike (move move' : Nat → Nat) (a b : Located) : Prop where
  start : move' b.start = move a.start
  span : a.span.Alike b.span

private theorem alike_locateFrom {move move' : Nat → Nat} {start start' : Nat} (line line' : Nat)
    {spans : List Span} (moved : ∀ offset ≤ Text.byteSize (texts spans),
      move' (start' + offset) = move (start + offset)) :
    List.Forall₂ (Located.Alike move move') (locateFrom start line spans)
      (locateFrom start' line' spans) := by
  induction spans generalizing start start' line line' with
  | nil => exact .nil
  | cons span spans ih =>
    rw [texts_cons, Text.byteSize_append] at moved
    refine .cons ⟨moved 0 (Nat.zero_le _), .refl span⟩ (ih _ _ fun offset bound => ?_)
    rw [Nat.add_assoc, Nat.add_assoc]
    exact moved _ (by omega)

end Span

namespace Site

variable {move move' : Nat → Nat}

private theorem itemsFrom_alike {spans others : List Span.Located}
    (alike : List.Forall₂ (Span.Located.Alike move move') spans others) (newline adjacent : Bool) :
    (itemsFrom newline adjacent others).map (·.veiled move') =
      (itemsFrom newline adjacent spans).map (·.veiled move) := by
  induction alike generalizing newline adjacent with
  | nil => rfl
  | @cons a b spans others first rest ih =>
    obtain ⟨start, same⟩ := first
    rw [itemsFrom, itemsFrom]
    by_cases comment : a.span.kind = .comment
    · have also : b.span.kind = .comment := same.kind.trans comment
      simp only [comment, also, true_or, if_true, same.newline comment, ih]
    · by_cases blank : a.span.isBlank
      · have other : a.span.kind = .other := by
          simp only [Span.isBlank, Bool.and_eq_true, beq_iff_eq] at blank
          exact blank.1
        have text := same.text (by simp [other]) comment
        simp only [same.isBlank, blank, or_true, if_true, text, ih]
      · have veil : Item.veiled move' ⟨b.span.kind, b.span.text, b.start, newline, adjacent⟩ =
            Item.veiled move ⟨a.span.kind, a.span.text, a.start, newline, adjacent⟩ := by
          simp only [Item.veiled, start, same.kind]
          split_ifs with literal
          · rfl
          · rw [same.text literal comment]
        simp only [same.kind] at veil
        simp only [same.kind, same.isBlank, comment, blank, or_self, Bool.false_eq_true, if_false,
          List.map_cons, ih, veil]

theorem classify_alike {before after : List Span} {a b : Span} (alike : a.Alike b)
    (front : ∀ offset ≤ Text.byteSize (Span.texts before), move' offset = move offset)
    (rear : ∀ offset ≤ Text.byteSize (Span.texts after),
      move' (Text.byteSize (Span.texts before) + Text.byteSize b.text + offset) =
        move (Text.byteSize (Span.texts before) + Text.byteSize a.text + offset)) :
    (classify (before ++ b :: after)).map (·.moved move') =
      (classify (before ++ a :: after)).map (·.moved move) := by
  have located : List.Forall₂ (Span.Located.Alike move move') (Span.locate (before ++ a :: after))
      (Span.locate (before ++ b :: after)) := by
    rw [Span.locate, Span.locate, Span.locateFrom_append, Span.locateFrom_append]
    refine List.rel_append (Span.alike_locateFrom 1 1 (by simpa using front)) (.cons ⟨?_, alike⟩ ?_)
    · simpa using front _ le_rfl
    · exact Span.alike_locateFrom _ _ (by simpa using rear)
  have same := itemsFrom_alike located true false
  rw [classify, classify, ← classifyFrom_veiled, ← classifyFrom_veiled, items, items, same]
  rfl

end Site

end Repackage
