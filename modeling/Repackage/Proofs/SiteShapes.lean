import Repackage.Proofs.VeiledSites

/-!
Roles from the shape of a text. Of an item the classification reads the class, the text if it is
punctuation, a number or a keyword, whether it can be a name, whether it starts a line, and whether
it is an equals sign that touches the colon before it. Where two texts agree on that, item by item,
their identifiers have the same roles.
-/

set_option autoImplicit false
set_option relaxedAutoImplicit false

namespace Repackage

namespace Site

/-- Whether two items have the same shape. Names, literals and the regions before the declarations
may be spelled differently. -/
structure Item.Alike (a b : Item) : Prop where
  kind : a.kind = b.kind
  /-- Punctuation and numbers are spelled the same. -/
  other : a.kind = .other → a.text = b.text
  isName : a.isName = b.isName
  /-- Keywords are spelled the same. -/
  keyword : a.kind = .word → a.isName = false → a.text = b.text
  startsLine : a.startsLine = b.startsLine

/-- Whether two texts have the same shape: item by item, and where an equals sign follows a colon
it touches the colon in both or in none. -/
structure SameShape (items others : List Item) : Prop where
  alike : List.Forall₂ Item.Alike items others
  touches : ∀ k, ∀ colon ∈ items[k]?, ∀ equals ∈ items[k + 1]?, ∀ equals' ∈ others[k + 1]?,
    colon.isMark ':' → equals.isMark '=' → equals.touches = equals'.touches

instance (a b : Item) : Decidable (a.Alike b) :=
  decidable_of_iff (a.kind = b.kind ∧ (a.kind = .other → a.text = b.text) ∧ a.isName = b.isName ∧
      (a.kind = .word → a.isName = false → a.text = b.text) ∧ a.startsLine = b.startsLine)
    ⟨fun ⟨kind, other, isName, keyword, line⟩ => ⟨kind, other, isName, keyword, line⟩,
      fun ⟨kind, other, isName, keyword, line⟩ => ⟨kind, other, isName, keyword, line⟩⟩

instance (items others : List Item) : Decidable (SameShape items others) :=
  decidable_of_iff (List.Forall₂ Item.Alike items others ∧
      ∀ k < items.length, ∀ colon ∈ items[k]?, ∀ equals ∈ items[k + 1]?,
        ∀ equals' ∈ others[k + 1]?, colon.isMark ':' → equals.isMark '=' →
          equals.touches = equals'.touches)
    ⟨fun ⟨alike, touches⟩ => ⟨alike, fun k colon found =>
        touches k (List.getElem?_eq_some_iff.1 found).1 colon found⟩,
      fun ⟨alike, touches⟩ => ⟨alike, fun k _ => touches k⟩⟩

/-- Whether two roles are the same, with qualifiers that belong together. -/
inductive Matches (together : Occurrence → Occurrence → Prop) : Site → Site → Prop
  | reference : Matches together .reference .reference
  | selected : Matches together (.selected none) (.selected none)
  | qualified {word word' : Occurrence} (qualifiers : together word word') :
    Matches together (.selected (some word)) (.selected (some word'))
  | declaration (kind : Declared) : Matches together (.declaration kind) (.declaration kind)

end Site

/-- Whether two identifiers belong together and have the same role. -/
structure Identifier.Matches (together : Occurrence → Occurrence → Prop) (a b : Identifier) :
    Prop where
  word : together a.word b.word
  site : a.site.Matches together b.site

namespace Site

variable {together : Occurrence → Occurrence → Prop}

namespace Item.Alike

variable {a b : Item}

theorem mark? (alike : a.Alike b) : a.mark? = b.mark? := by
  by_cases other : a.kind = .other
  · simp [Item.mark?, ← alike.kind, other, alike.other other]
  · simp [Item.mark?, ← alike.kind, other]

theorem isMark (alike : a.Alike b) (c : Char) : a.isMark c = b.isMark c := by
  rw [isMark_eq, isMark_eq, alike.mark?]

theorem continuesExpression (alike : a.Alike b) :
    a.continuesExpression = b.continuesExpression := by
  rw [continuesExpression_eq, continuesExpression_eq b, alike.mark?]

end Item.Alike

section Neighbours

variable {items others : List Item}

private theorem head?_any (reads : Item → Bool) (alike : List.Forall₂ Item.Alike items others)
    (same : ∀ a b : Item, a.Alike b → reads a = reads b) :
    items.head?.any reads = others.head?.any reads := by
  cases alike with
  | nil => rfl
  | cons first rest => exact same _ _ first

private theorem head?_isMark (alike : List.Forall₂ Item.Alike items others) (c : Char) :
    items.head?.any (·.isMark c) = others.head?.any (·.isMark c) :=
  head?_any _ alike fun _ _ same => same.isMark c

theorem SameShape.tail {item other : Item} (same : SameShape (item :: items) (other :: others)) :
    SameShape items others := by
  obtain ⟨-, alike⟩ := List.forall₂_cons.1 same.alike
  exact ⟨alike, fun k => same.touches (k + 1)⟩

private theorem SameShape.defines_eq (same : SameShape items others) : defines items = defines
    others := by
  obtain ⟨alike, touches⟩ := same
  cases alike with
  | nil => rfl
  | @cons colon colon' items others first rest =>
    rw [defines_cons, defines_cons, first.isMark]
    cases rest with
    | nil => rfl
    | @cons equals equals' items others second rest =>
      rw [List.head?_cons, List.head?_cons, Option.any_some, Option.any_some, second.isMark]
      cases isColon : colon'.isMark ':' with
      | false => rfl
      | true =>
        cases isEquals : equals'.isMark '=' with
        | false => rfl
        | true =>
          rw [touches 0 colon rfl equals rfl equals' rfl ((first.isMark ':').trans isColon)
            ((second.isMark '=').trans isEquals)]

private theorem SameShape.definesList_eq (same : SameShape items others) :
    definesList items = definesList others := by
  fun_induction definesList items generalizing others with
  | case1 comma name rest listed ih =>
    have whole := same
    obtain ⟨alike, -⟩ := same
    cases alike with
    | @cons _ comma' _ others first after =>
      cases after with
      | @cons _ name' _ others second after =>
        rw [first.isMark, second.isName] at listed
        rw [ih whole.tail.tail, definesList, if_pos listed]
  | case2 comma name rest unlisted =>
    rw [same.defines_eq]
    obtain ⟨alike, -⟩ := same
    cases alike with
    | @cons _ comma' _ others first after =>
      cases after with
      | @cons _ name' _ others second after =>
        rw [first.isMark, second.isName] at unlisted
        rw [definesList, if_neg unlisted]
  | case3 items short =>
    rw [same.defines_eq]
    obtain ⟨alike, -⟩ := same
    cases alike with
    | nil => rfl
    | cons first after =>
      cases after with
      | nil => rfl
      | cons second after => exact absurd rfl (short _ _ _)

private theorem selects_eq (behind : List.Forall₂ Item.Alike items others) :
    selects items = selects others := by
  cases behind with
  | nil => rfl
  | cons dot rest => rw [selects, selects, dot.isMark, head?_isMark rest]

end Neighbours

/-- Whether two items belong together and have the same shape. -/
structure Item.Matches (together : Occurrence → Occurrence → Prop) (a b : Item) : Prop
    extends Item.Alike a b where
  place : together a.occurrence b.occurrence

private theorem alike_of_matches {items others : List Item}
    (behind : List.Forall₂ (Item.Matches together) items others) :
    List.Forall₂ Item.Alike items others :=
  behind.imp fun _ _ pair => pair.toAlike

section Reading

variable {before before' after after' : List Item}

private theorem selected_matches (behind : List.Forall₂ (Item.Matches together) before before') :
    Matches together (.selected (qualifier? before)) (.selected (qualifier? before')) := by
  cases behind with
  | nil => exact .selected
  | cons dot rest =>
    rw [qualifier?_cons, qualifier?_cons]
    cases rest with
    | nil => exact .selected
    | cons word rest =>
      rw [standalone?, standalone?, word.isName, head?_isMark (alike_of_matches rest)]
      split_ifs
      · exact .qualified word.place
      · exact .selected

private theorem keyword_eq (behind : List.Forall₂ Item.Alike before before')
    (ahead : List.Forall₂ Item.Alike after after') (context : Context) (word : Text) :
    context.keyword before.head? word after.head? =
      context.keyword before'.head? word after'.head? := by
  have inExpression := head?_any (fun item => item.isMark '=' || item.isMark ',' ||
    item.isMark '(' || item.isMark '[' || item.isMark ':') behind
    fun a b same => by simp only [same.isMark]
  have isName := head?_any _ ahead fun _ _ same => same.isName
  simp only [Context.keyword, inExpression, isName, head?_isMark ahead]

private theorem identifier_matches (behind : List.Forall₂ (Item.Matches together) before before')
    {item item' : Item} (same : item.Alike item') (ahead : SameShape after after')
    (context : Context) :
    (context.identifier before item after).1.Matches together
        (context.identifier before' item' after').1 ∧
      (context.identifier before item after).2 = (context.identifier before' item' after').2 := by
  have past := alike_of_matches behind
  have passOn (context : Context) (kind : Declared) :
      context.passOn kind after.head? = context.passOn kind after'.head? := by
    rw [Context.passOn, Context.passOn, head?_isMark ahead.alike]
  have opens := head?_any (fun item => item.isMark ';' || item.isMark '(' || item.isMark '\x7b')
    past fun a b same => by simp only [same.isMark]
  have continued := head?_any _ past fun _ _ same => same.continuesExpression
  have field := head?_any (fun item => !item.startsLine && item.kind != .literal &&
    !item.isMark '.' && !item.isMark ';' && !item.isMark '\x7d') ahead.alike
    fun a b same => by simp only [same.isMark, same.kind, same.startsLine]
  have keyed := head?_any (fun item => item.isMark '\x7b' || item.isMark ',') past
    fun a b same => by simp only [same.isMark]
  cases selected : selects before with
  | true =>
    simp only [Context.identifier, ← selects_eq past, selected, if_true, and_true]
    exact selected_matches behind
  | false =>
    cases received : context.receiver.isSome with
    | true =>
      simp only [Context.identifier, ← selects_eq past, selected, received, Bool.false_eq_true,
        if_false, if_true, and_true]
      exact .declaration _
    | false =>
      cases expected : context.expect with
      | some kind =>
        simp only [Context.identifier, ← selects_eq past, selected, received, expected,
          Bool.false_eq_true, if_false, passOn, and_true]
        exact .declaration _
      | none =>
        simp only [Context.identifier, ← selects_eq past, selected, received, expected,
          Bool.false_eq_true, if_false, passOn, opens, continued, field, keyed, same.startsLine,
          Context.startsGroupLine, Context.namesField, Context.isKey, head?_isMark ahead.alike,
          ahead.defines_eq, ahead.definesList_eq]
        split_ifs
        · exact ⟨.declaration _, trivial⟩
        · exact ⟨.declaration _, trivial⟩
        · exact ⟨.declaration _, trivial⟩
        · exact ⟨.declaration _, trivial⟩
        · exact ⟨.reference, trivial⟩

private theorem read_eq_of_silent (behind : List.Forall₂ Item.Alike before before')
    {item item' : Item} (same : item.Alike item') (ahead : List.Forall₂ Item.Alike after after')
    (silent : item.isName = false) (context : Context) :
    (context.read before item after).2 = (context.read before' item' after').2 := by
  cases kind : item.kind with
  | word =>
    have text := same.keyword kind silent
    have keyword := Item.isKeyword_of_word silent kind
    simp only [Context.read, ← same.kind, kind, ← text, keyword, if_true,
      keyword_eq behind ahead]
  | other => simp only [Context.read, ← same.kind, kind, ← same.other kind]
  | _ => simp only [Context.read, ← same.kind, kind]

end Reading

private theorem classifyFrom_matches {before before' after after' : List Item}
    (behind : List.Forall₂ (Item.Matches together) before before')
    (ahead : List.Forall₂ (Item.Matches together) after after') (shape : SameShape after after')
    (context : Context) :
    List.Forall₂ (Identifier.Matches together) (classifyFrom context before after)
      (classifyFrom context before' after') := by
  induction ahead generalizing context before before' with
  | nil => exact .nil
  | @cons item item' after after' first rest ih =>
    have further := behind.cons first
    cases named : item.isName with
    | false =>
      have named' : item'.isName = false := first.isName.symm.trans named
      rw [classifyFrom_of_silent (read_silent named), classifyFrom_of_silent (read_silent named'),
        read_eq_of_silent (alike_of_matches behind) first.toAlike (alike_of_matches rest) named]
      exact ih further shape.tail _
    | true =>
      have named' : item'.isName := first.isName.symm.trans named
      obtain ⟨site, next⟩ := identifier_matches behind first.toAlike shape.tail context
      rw [classifyFrom_of_isName named, classifyFrom_of_isName named', next]
      exact .cons ⟨first.place, site⟩ (ih further shape.tail _)

/-- Whether two words are the items at one position of two texts. -/
def IsSamePlace (items others : List Item) (word word' : Occurrence) : Prop :=
  (word, word') ∈ (items.map Item.occurrence).zip (others.map Item.occurrence)

/-- The roles in a text are a matter of its shape: in texts of the same shape, the identifiers are
the items at the same positions, with the same roles, and qualified by the items at the same
positions. -/
theorem roles_of_sameShape {spans others : List Span}
    (same : SameShape (items spans) (items others)) :
    List.Forall₂ (Identifier.Matches (IsSamePlace (items spans) (items others)))
      (classify spans) (classify others) := by
  obtain ⟨lengths, pairs⟩ := List.forall₂_iff_zip.1 same.alike
  have matched : List.Forall₂ (Item.Matches (IsSamePlace (items spans) (items others)))
      (items spans) (items others) := by
    refine List.forall₂_iff_zip.2 ⟨lengths, fun {a b} member => ⟨pairs member, ?_⟩⟩
    rw [IsSamePlace, List.zip_map]
    exact List.mem_map_of_mem member
  exact classifyFrom_matches .nil matched same {}

/-- A method with a short variable declaration, in two spellings. -/
def estuaryText (first : Bool) : Text :=
  if first then
    ("package a\n\nfunc (s *Shelf) Add(b Book) \x7b\n" ++
      "\tn, err := s.put(b.id, \"id\")\n\x7d\n").toList
  else
    ("package row // a\nfunc(r *Row)Push(t T)\x7b// n\n" ++
      " k , ok :=r.set( t . at , ' ')\n\n\x7d").toList

/-- The spans of this text. -/
def estuarySpans (first : Bool) : List Span :=
  (Span.scan (estuaryText first)).toOption.getD []

theorem estuary_roles :
    (∀ first, Span.scan (estuaryText first) = .ok (estuarySpans first)) ∧
      SameShape (items (estuarySpans true)) (items (estuarySpans false)) ∧
      List.Forall₂ (Identifier.Matches
          (IsSamePlace (items (estuarySpans true)) (items (estuarySpans false))))
        (classify (estuarySpans true)) (classify (estuarySpans false)) := by
  have scanned : ∀ first, Span.scan (estuaryText first) = .ok (estuarySpans first) := by
    decide +kernel
  have same : SameShape (items (estuarySpans true)) (items (estuarySpans false)) := by
    decide +kernel
  exact ⟨scanned, same, roles_of_sameShape same⟩

end Site

end Repackage
