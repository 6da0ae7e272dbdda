import Repackage.Command.Listing
import Repackage.Proofs.Plan
import Repackage.Proofs.Slices
import Repackage.Proofs.SpanTiling

/-!
Identifiers and the spans that they were read from. Every word that can be a name is exactly one
identifier, in the order of the text; a qualifier is such a word too, with nothing but a dot and
blanks between it and the name; and a listing that takes up the next identifier when its span comes
up gets to the end of both.
-/

set_option autoImplicit false
set_option relaxedAutoImplicit false

namespace Repackage

namespace Span

/-- Whether a span is a word that can be a name. -/
def isName (span : Span) : Bool :=
  span.kind == .word && !Word.isKeyword span.text

/-- The place of a span. -/
def Located.occurrence (located : Located) : Occurrence :=
  ⟨located.start, located.span.text⟩

/-- Whether a word stands before a name with a dot between them, and besides it only white space and
comments. -/
def Qualifies (spans : List Located) (qualifier name : Occurrence) : Prop :=
  ∃ before word gap dot blanks selected after,
    spans = before ++ word :: (gap ++ dot :: (blanks ++ selected :: after)) ∧
      qualifier = word.occurrence ∧ word.span.isName ∧ dot.span = ⟨.other, ['.']⟩ ∧
      name = selected.occurrence ∧ selected.span.isName ∧
      ∀ located ∈ gap ++ blanks, located.span.IsGap

private theorem namesFrom_eq (start line : Nat) (spans : List Span) :
    namesFrom start spans =
      ((locateFrom start line spans).filter (·.span.isName)).map Located.occurrence := by
  induction spans generalizing start line with
  | nil => rfl
  | cons span spans ih =>
    rw [namesFrom, locateFrom]
    split_ifs with name
    · rw [List.filter_cons_of_pos (by simp [isName, name]), List.map_cons, ← ih]
      rfl
    · rw [List.filter_cons_of_neg (by simpa [isName] using name), ← ih]

end Span

namespace Site

section Items

variable {newline adjacent : Bool} {spans : List Span.Located} {item : Item}
  {before after rest : List Item}

private theorem exists_of_itemsFrom_cons (read : itemsFrom newline adjacent spans = item :: rest) :
    ∃ gap located behind, spans = gap ++ located :: behind ∧
      (∀ blank ∈ gap, blank.span.IsGap) ∧ item.occurrence = located.occurrence ∧
      item.kind = located.span.kind ∧ rest = itemsFrom false true behind := by
  induction spans generalizing newline adjacent with
  | nil => cases read
  | cons located spans ih =>
    rw [itemsFrom] at read
    split_ifs at read with skipped
    · obtain ⟨gap, found, behind, rfl, gaps, same⟩ := ih read
      exact ⟨located :: gap, found, behind, rfl,
        List.forall_mem_cons.2 ⟨skipped.symm, gaps⟩, same⟩
    · obtain ⟨rfl, rfl⟩ := List.cons.inj read
      exact ⟨[], located, spans, rfl, by simp, rfl, rfl, rfl⟩

private theorem exists_of_itemsFrom_append
    (read : itemsFrom newline adjacent spans = before ++ after) :
    ∃ front back newline adjacent, spans = front ++ back ∧
      itemsFrom newline adjacent back = after := by
  induction before generalizing newline adjacent spans with
  | nil => exact ⟨[], spans, newline, adjacent, rfl, read⟩
  | cons item before ih =>
    obtain ⟨gap, located, behind, rfl, -, -, -, rest⟩ := exists_of_itemsFrom_cons read
    obtain ⟨front, back, newline, adjacent, rfl, same⟩ := ih rest.symm
    exact ⟨gap ++ located :: front, back, newline, adjacent, by simp, same⟩

private theorem isName_of_item {located : Span.Located}
    (same : item.occurrence = located.occurrence)
    (kind : item.kind = located.span.kind) : item.isName = located.span.isName := by
  have text : item.text = located.span.text := congrArg Occurrence.text same
  rw [Item.isName, Span.isName, kind, text]

end Items

private theorem classify_occurrences (spans : List Span) :
    (classify spans).map (·.word) =
      ((Span.locate spans).filter (·.span.isName)).map Span.Located.occurrence := by
  rw [classify_words, Span.namesFrom_eq 0 1, Span.locate]

private theorem qualifies_of_mem_classify {spans : List Span} {identifier : Identifier}
    (member : identifier ∈ classify spans) {qualifier : Occurrence}
    (qualified : identifier.site = .selected (some qualifier)) :
    Span.Qualifies (Span.locate spans) qualifier identifier.word := by
  obtain ⟨front, item, rest, split, named, rfl⟩ := mem_classifyFrom_iff.1 member
  obtain ⟨dot, word, earlier, behind, isDot, wordNamed, rfl⟩ := exists_of_qualified qualified
  have parts : front = earlier.reverse ++ [word, dot] := by
    rw [List.append_nil] at behind
    rw [← front.reverse_reverse, behind]
    simp
  have whole : itemsFrom true false (Span.locate spans) =
      earlier.reverse ++ word :: dot :: item :: rest := by
    refine split.trans ?_
    rw [parts]
    simp
  obtain ⟨before, back, newline, adjacent, located, read⟩ := exists_of_itemsFrom_append whole
  obtain ⟨first, word', behind, rfl, -, wordPlace, wordKind, rest₁⟩ :=
    exists_of_itemsFrom_cons read
  obtain ⟨gap, dot', behind, rfl, gaps, dotPlace, dotKind, rest₂⟩ :=
    exists_of_itemsFrom_cons rest₁.symm
  obtain ⟨blanks, selected, after, rfl, white, place, kind, -⟩ :=
    exists_of_itemsFrom_cons rest₂.symm
  refine ⟨before ++ first, word', gap, dot', blanks, selected, after, by simp [located],
    wordPlace, ?_, ?_, place, ?_, List.forall_mem_append.2 ⟨gaps, white⟩⟩
  · rwa [← isName_of_item wordPlace wordKind]
  · obtain ⟨other, mark⟩ : dot.kind = .other ∧ dot.text = ['.'] := by
      simpa [Item.isMark] using isDot
    have text : dot.text = dot'.span.text := congrArg Occurrence.text dotPlace
    rw [← dotKind.symm.trans other, ← text.symm.trans mark]
  · rwa [← isName_of_item place kind]

end Site

namespace SourceFile

/-- What a listing shows: the spans that are not blank, each with the identifier that was taken up
for it, and the identifiers that were never taken up. -/
structure Pairing where
  shown : List (Span.Located × Option Identifier)
  left : List Identifier

def Pairing.add (located : Span.Located) (identifier : Option Identifier) (pairing : Pairing) :
    Pairing :=
  ⟨(located, identifier) :: pairing.shown, pairing.left⟩

/-- Pairs spans with identifiers, each of which is taken up when its span comes up. -/
def pair : List Span.Located → List Identifier → Pairing
  | [], sites => ⟨[], sites⟩
  | located :: rest, sites =>
    if located.span.isBlank then pair rest sites
    else
      match sites with
      | [] => (pair rest []).add located none
      | identifier :: others =>
        if located.span.kind = .word ∧ identifier.word.start = located.start then
          (pair rest others).add located (some identifier)
        else (pair rest sites).add located none

section Pair

variable {located : Span.Located} {rest : List Span.Located} {identifier : Identifier}
  {sites : List Identifier}

private theorem pair_blank (blank : located.span.isBlank = true) :
    pair (located :: rest) sites = pair rest sites := by
  cases sites <;> simp [pair, blank]

private theorem pair_taken (visible : located.span.isBlank = false)
    (taken : located.span.kind = .word ∧ identifier.word.start = located.start) :
    pair (located :: rest) (identifier :: sites) =
      (pair rest sites).add located (some identifier) := by
  simp [pair, visible, taken]

private theorem pair_passed (visible : located.span.isBlank = false)
    (passed : ∀ identifier ∈ sites.head?,
      ¬(located.span.kind = .word ∧ identifier.word.start = located.start)) :
    pair (located :: rest) sites = (pair rest sites).add located none := by
  cases sites with
  | nil => simp [pair, visible]
  | cons identifier sites => rw [pair, visible, if_neg (passed identifier rfl)]; rfl

private theorem spanLines_eq (spans : List Span.Located) (sites : List Identifier) :
    spanLines spans sites =
      (pair spans sites).shown.map fun entry => spanLine entry.1 (entry.2.map (·.site)) := by
  fun_induction spanLines spans sites with
  | case1 => rfl
  | case2 located rest sites blank ih => rw [ih, pair_blank blank]
  | case3 located rest visible identifier others taken ih =>
    rw [ih, pair_taken (by simpa using visible) taken]
    rfl
  | case4 located rest visible identifier others passed ih =>
    rw [ih, pair_passed (by simpa using visible) (by simpa using passed)]
    rfl
  | case5 located rest visible ih =>
    rw [ih, pair_passed (by simpa using visible) (by simp)]
    rfl

end Pair

/-- Whether every identifier was taken up, and that at its own span. -/
structure Pairing.IsComplete (pairing : Pairing) (spans : List Span.Located)
    (sites : List Identifier) : Prop where
  none_left : pairing.left = []
  spans : pairing.shown.map Prod.fst = spans.filter fun located => !located.span.isBlank
  sites : pairing.shown.filterMap Prod.snd = sites
  place : ∀ entry ∈ pairing.shown,
    entry.2.map (·.word) = if entry.1.span.isName then some entry.1.occurrence else none

theorem Pairing.IsComplete.add {pairing : Pairing} {spans : List Span.Located}
    {sites : List Identifier} (complete : pairing.IsComplete spans sites)
    {located : Span.Located} (visible : located.span.isBlank = false)
    {identifier : Option Identifier} (place : identifier.map (·.word) =
      if located.span.isName then some located.occurrence else none) :
    (pairing.add located identifier).IsComplete (located :: spans)
      (identifier.toList ++ sites) where
  none_left := complete.none_left
  spans := by
    rw [List.filter_cons_of_pos (by simp [visible]), ← complete.spans]
    rfl
  sites := by
    rw [← complete.sites]
    cases identifier <;> simp [Pairing.add]
  place := List.forall_mem_cons.2 ⟨place, complete.place⟩

private theorem pair_isComplete (start line : Nat) (spans : List Span) {sites : List Identifier}
    (words : sites.map (·.word) = Span.namesFrom start spans) :
    (pair (Span.locateFrom start line spans) sites).IsComplete
      (Span.locateFrom start line spans) sites := by
  induction spans generalizing start line sites with
  | nil =>
    obtain rfl : sites = [] := List.map_eq_nil_iff.1 words
    exact ⟨rfl, rfl, rfl, by simp [pair, Span.locateFrom]⟩
  | cons span spans ih =>
    rw [Span.locateFrom]
    rw [Span.namesFrom] at words
    by_cases blank : span.isBlank
    · have other : ¬(span.kind = .word ∧ Word.isKeyword span.text = false) := by
        rintro ⟨word, -⟩
        simp [Span.isBlank, word] at blank
      rw [if_neg other] at words
      rw [pair_blank blank]
      obtain ⟨none_left, shown, taken, place⟩ := ih _ (line + Text.newlines span.text) words
      exact ⟨none_left, by rw [shown, List.filter_cons_of_neg (by simp [blank])], taken, place⟩
    · have visible : span.isBlank = false := by simpa using blank
      split_ifs at words with name
      · obtain ⟨identifier, others, rfl, word, words⟩ := List.map_eq_cons_iff.1 words
        rw [pair_taken visible ⟨name.1, by rw [word]⟩]
        have isName : span.isName := by simp [Span.isName, name]
        exact (ih _ (line + Text.newlines span.text) words).add visible
          (by simp [word, isName, Span.Located.occurrence])
      · have isName : span.isName = false := by simpa [Span.isName] using name
        rw [pair_passed visible]
        · exact (ih _ (line + Text.newlines span.text) words).add visible (by simp [isName])
        · -- A keyword is not empty, so the next name starts behind it.
          rintro identifier first ⟨word, same⟩
          have listed : identifier.word ∈ Span.namesFrom (start + Text.byteSize span.text) spans :=
            words ▸ List.mem_map_of_mem (List.mem_of_mem_head? first)
          have behind := (Span.namesFrom_start_le _ listed).1
          have empty : span.text = [] := Text.eq_nil_of_byteSize (by simp only at same; omega)
          exact name ⟨word, by rw [empty]; decide⟩

/-- The identifiers of a file are exactly its words that can be names, in order and at their places.
Where one is qualified, the qualifier is such a word before it, with a dot and blanks between them.
The listing of the file takes up every identifier at its own span. -/
theorem sites_complete_and_aligned {path : String} {text : Text} {file : SourceFile}
    (parsed : parse path text = .ok file) :
    file.sites.map (·.word) =
        ((Span.locate file.spans).filter (·.span.isName)).map Span.Located.occurrence ∧
      (file.sites.Pairwise fun a b => a.word.start < b.word.start) ∧
      (∀ identifier ∈ file.sites,
        Text.slice? text identifier.word.start identifier.word.stop = some identifier.word.text ∧
          ∀ qualifier, identifier.site = .selected (some qualifier) →
            Span.Qualifies (Span.locate file.spans) qualifier identifier.word) ∧
      (pair (Span.locate file.spans) file.sites).IsComplete (Span.locate file.spans) file.sites ∧
      file.lines = ("package " ++ file.package) ::
        (pair (Span.locate file.spans) file.sites).shown.map fun entry =>
          spanLine entry.1 (entry.2.map (·.site)) := by
  have current : file.IsCurrent := .of_parse parsed
  have whole : Span.texts file.spans = text := by
    rw [Span.texts_of_scan current.scanned, (parse_place parsed).2]
  have words := Site.classify_words file.spans
  refine ⟨Site.classify_occurrences file.spans, sites_distinct current.scanned, ?_,
    pair_isComplete 0 1 file.spans words, ?_⟩
  · intro identifier member
    refine ⟨?_, fun qualifier qualified => Site.qualifies_of_mem_classify member qualified⟩
    rw [← whole]
    exact (Site.slice?_of_mem_classify member).1
  · rw [lines, spanLines_eq]

/-- A file with a qualifier behind a comment, a chain of selectors and an ellipsis. -/
def weirFile : SourceFile :=
  let text := "package a\n\nfunc f(x ...T) \x7b base /* b */ . Run(x).y.z \x7d\n".toList
  ⟨"a.go", none, "a", text, (Span.scan text).toOption.getD []⟩

theorem weir_aligned :
    parse "a.go" weirFile.text = .ok weirFile ∧
      ⟨⟨43, "Run".toList⟩, .selected (some ⟨28, "base".toList⟩)⟩ ∈ weirFile.sites ∧
      Span.Qualifies (Span.locate weirFile.spans) ⟨28, "base".toList⟩ ⟨43, "Run".toList⟩ ∧
      (pair (Span.locate weirFile.spans) weirFile.sites).left = [] := by
  have parsed : parse "a.go" weirFile.text = .ok weirFile := by decide +kernel
  obtain ⟨-, -, aligned, complete, -⟩ := sites_complete_and_aligned parsed
  have member : ⟨⟨43, "Run".toList⟩, .selected (some ⟨28, "base".toList⟩)⟩ ∈ weirFile.sites := by
    decide +kernel
  exact ⟨parsed, member, (aligned _ member).2 _ rfl, complete.none_left⟩

end SourceFile

end Repackage
