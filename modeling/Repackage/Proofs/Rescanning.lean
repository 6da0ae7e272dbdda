import Mathlib.Algebra.GroupWithZero.Nat
import Mathlib.Data.List.Nodup
import Repackage.Proofs.EditsInTurn
import Repackage.Proofs.Sites
import Repackage.Proofs.TokenShapes

/-!
Texts that are scanned again after some of their words have been replaced. The edits of different
words can be made in any order; the spans of the new text are those of the old one, with the spans
of the new spellings in place of the replaced words and every offset moved by the edits before it.
-/

set_option autoImplicit false
set_option relaxedAutoImplicit false

namespace Repackage

namespace Edit

/-- Where an offset lies once edits have been made: it is moved by those that end before it. -/
def shift (edits : List Edit) (offset : Nat) : Nat :=
  let before := edits.filter fun edit => edit.stop ≤ offset
  offset + (before.map fun edit => Text.byteSize edit.replacement).sum -
    (before.map fun edit => edit.stop - edit.start).sum

private theorem shift_perm {edits others : List Edit} (perm : edits.Perm others) (offset : Nat) :
    shift edits offset = shift others offset := by
  have before := perm.filter fun edit => edit.stop ≤ offset
  simp only [shift]
  rw [(before.map _).sum_nat, (before.map fun edit => edit.stop - edit.start).sum_nat]

end Edit

instance (spelling : Respelling) : Decidable spelling.IsValid :=
  inferInstanceAs (Decidable (Word.isIdentifier spelling.name = true ∧
    ∀ qualifier ∈ spelling.qualifier, Word.isIdentifier qualifier = true))

/-- The edit that spells a word anew. -/
def Occurrence.edit (word : Occurrence) (spelling : Respelling) : Edit :=
  ⟨word.start, word.stop, Token.texts spelling.tokens⟩

/-- The edits of words with their new spellings. -/
def Respelling.edits (choice : List (Occurrence × Respelling)) : List Edit :=
  choice.map fun entry => entry.1.edit entry.2

/-- The swap of words with their new spellings. -/
def Swap.ofList (choice : List (Occurrence × Respelling)) : Swap := fun word =>
  (choice.find? (·.1 = word)).map Prod.snd

private theorem Swap.mem_of_ofList {choice : List (Occurrence × Respelling)} {word : Occurrence}
    {spelling : Respelling} (found : ofList choice word = some spelling) :
    (word, spelling) ∈ choice := by
  obtain ⟨entry, first, rfl⟩ := Option.map_eq_some_iff.1 found
  have same : entry.1 = word := by simpa using List.find?_some first
  rw [← same]
  exact List.mem_of_find?_eq_some first

private theorem Swap.ofList_eq_some_iff {choice : List (Occurrence × Respelling)}
    (distinct : (choice.map Prod.fst).Nodup) {word : Occurrence} {spelling : Respelling} :
    ofList choice word = some spelling ↔ (word, spelling) ∈ choice := by
  refine ⟨mem_of_ofList, fun member => ?_⟩
  have present : (choice.find? (·.1 = word)).isSome := by
    rw [List.find?_isSome]
    exact ⟨_, member, by simp⟩
  obtain ⟨entry, first⟩ := Option.isSome_iff_exists.1 present
  have found : ofList choice word = some entry.2 := by rw [ofList, first]; rfl
  have same := List.inj_on_of_nodup_map distinct (mem_of_ofList found) member rfl
  rw [found, (Prod.ext_iff.1 same).2]

namespace Span

section Edits

variable (swap : Swap)

private theorem editsFrom_append (start : Nat) (a b : List Span) :
    editsFrom swap start (a ++ b) =
      editsFrom swap start a ++ editsFrom swap (start + Text.byteSize (texts a)) b := by
  induction a generalizing start with
  | nil => rfl
  | cons span spans ih =>
    rw [List.cons_append, editsFrom, editsFrom, ih, texts_cons, Text.byteSize_append,
      List.append_assoc, Nat.add_assoc]

private theorem stop_le_of_mem_editsFrom {start : Nat} {spans : List Span} {edit : Edit}
    (member : edit ∈ editsFrom swap start spans) :
    edit.stop ≤ start + Text.byteSize (texts spans) := by
  induction spans generalizing start with
  | nil => cases member
  | cons span spans ih =>
    rw [texts_cons, Text.byteSize_append]
    rcases List.mem_append.1 member with here | later
    · split at here
      · cases here
      · obtain rfl := List.mem_singleton.1 here
        simp only
        omega
    · have bound := ih later
      omega

private theorem start_lt_of_mem_editsFrom {start : Nat} {spans : List Span}
    (whole : ∀ span ∈ spans, span.kind = .word → span.text ≠ []) {edit : Edit}
    (member : edit ∈ editsFrom swap start spans) : edit.start < edit.stop := by
  induction spans generalizing start with
  | nil => cases member
  | cons span spans ih =>
    obtain ⟨first, rest⟩ := List.forall_mem_cons.1 whole
    rcases List.mem_append.1 member with here | later
    · split at here
      · cases here
      next spelling found =>
        obtain rfl := List.mem_singleton.1 here
        have word : span.kind = .word := by
          by_contra other
          simp [other] at found
        have positive := mt Text.eq_nil_of_byteSize (first word)
        simp only
        omega
    · exact ih rest later

theorem editsFrom_apart (start : Nat) (spans : List Span) :
    (editsFrom swap start spans).Pairwise fun a b => a.stop ≤ b.start := by
  induction spans generalizing start with
  | nil => exact .nil
  | cons span spans ih =>
    rw [editsFrom]
    split
    · exact ih _
    · refine List.pairwise_cons.2 ⟨fun edit member => ?_, ih _⟩
      exact (start_le_of_mem_editsFrom member).1

private theorem nodup_ranges_editsFrom {start : Nat} {spans : List Span}
    (whole : ∀ span ∈ spans, span.kind = .word → span.text ≠ []) :
    ((editsFrom swap start spans).map Edit.range).Nodup := by
  refine List.pairwise_map.2 ((editsFrom_apart swap start spans).imp_of_mem ?_)
  intro a b member _ apart same
  have nonempty := start_lt_of_mem_editsFrom swap whole member
  have start : a.start = b.start := congrArg Prod.fst same
  omega

private theorem byteSize_respellFrom (start : Nat) (spans : List Span) :
    Text.byteSize (texts (respellFrom swap start spans)) +
        ((editsFrom swap start spans).map fun edit => edit.stop - edit.start).sum =
      Text.byteSize (texts spans) +
        ((editsFrom swap start spans).map fun edit => Text.byteSize edit.replacement).sum := by
  induction spans generalizing start with
  | nil => rfl
  | cons span spans ih =>
    have rest := ih (start + Text.byteSize span.text)
    rw [respellFrom, texts_append, texts_cons, Text.byteSize_append, Text.byteSize_append,
      editsFrom, respell]
    split
    · have kept : texts [span] = span.text := List.append_nil _
      rw [kept, List.nil_append]
      omega
    · rw [texts_map_ofToken]
      simp only [List.cons_append, List.nil_append, List.map_cons, List.sum_cons,
        Nat.add_sub_cancel_left]
      omega

private theorem shift_editsFrom {before after : List Span}
    (whole : ∀ span ∈ before ++ after, span.kind = .word → span.text ≠ []) :
    Edit.shift (editsFrom swap 0 (before ++ after)) (Text.byteSize (texts before)) =
      Text.byteSize (texts (respellFrom swap 0 before)) := by
  have front : (editsFrom swap 0 before).filter
      (fun edit => edit.stop ≤ Text.byteSize (texts before)) = editsFrom swap 0 before := by
    refine List.filter_eq_self.2 fun edit member => ?_
    have bound := stop_le_of_mem_editsFrom swap member
    simpa using bound
  have back : (editsFrom swap (0 + Text.byteSize (texts before)) after).filter
      (fun edit => edit.stop ≤ Text.byteSize (texts before)) = [] := by
    refine List.filter_eq_nil_iff.2 fun edit member => ?_
    have bound := (start_le_of_mem_editsFrom member).1
    have nonempty := start_lt_of_mem_editsFrom swap
      (fun span inside => whole span (List.mem_append_right _ inside)) member
    simp only [decide_eq_true_eq]
    omega
  have sizes := byteSize_respellFrom swap 0 before
  rw [Edit.shift, editsFrom_append, List.filter_append, front, back, List.append_nil]
  omega

private theorem locateFrom_respellFrom {start start' line : Nat} {spans : List Span}
    (place : Nat → Nat) (placed : ∀ before after, spans = before ++ after →
      place (start + Text.byteSize (texts before)) =
        start' + Text.byteSize (texts (respellFrom swap start before)))
    (lines : ∀ offset, ∀ span ∈ spans,
      Text.newlines (texts (respell swap offset span)) = Text.newlines span.text) :
    locateFrom start' line (respellFrom swap start spans) =
      (locateFrom start line spans).flatMap fun located =>
        locateFrom (place located.start) located.line
          (respell swap located.start located.span) := by
  induction spans generalizing start start' line with
  | nil => rfl
  | cons span spans ih =>
    obtain ⟨here, rest⟩ := List.forall_mem_cons.1 fun span member offset =>
      lines offset span member
    have first : place start = start' := placed [] _ rfl
    rw [respellFrom, locateFrom_append, locateFrom, List.flatMap_cons, here, first]
    congr 1
    refine ih (fun before after split => ?_) (fun offset span member => rest span member offset)
    have moved := placed (span :: before) after (by rw [split]; rfl)
    rw [texts_cons, respellFrom, texts_append, Text.byteSize_append, Text.byteSize_append] at moved
    rw [Nat.add_assoc, moved, Nat.add_assoc]

end Edits

private theorem isSpelled_of_word {text : Text} {spans : List Span}
    (scanned : scan text = .ok spans) :
    ∀ span ∈ spans, span.kind = .word → Word.isSpelled span.text := by
  intro span member word
  obtain ⟨token, rest, kind, same, stands⟩ := exists_stands_of_word scanned member word
  rw [← same]
  exact stands.isSpelled kind

section Choice

variable {choice : List (Occurrence × Respelling)} {spans : List Span}

private theorem editsFrom_ofList_perm (whole : ∀ span ∈ spans, span.kind = .word → span.text ≠ [])
    (distinct : (choice.map Prod.fst).Nodup)
    (named : ∀ entry ∈ choice, entry.1 ∈ namesFrom 0 spans) :
    (editsFrom (Swap.ofList choice) 0 spans).Perm (Respelling.edits choice) := by
  have names : ∀ word spelling, Swap.ofList choice word = some spelling →
      Word.isKeyword word.text = false := fun word spelling found =>
    (namesFrom_start_le _ (named _ (Swap.mem_of_ofList found))).2
  have ordered : (namesFrom 0 spans).Nodup := by
    refine (namesFrom_sorted whole).imp ?_
    rintro a b less rfl
    exact Nat.lt_irrefl _ less
  have pairs : ((namesFrom 0 spans).filterMap fun word =>
      (Swap.ofList choice word).map fun spelling => (word, spelling)).Perm choice := by
    refine (List.perm_ext_iff_of_nodup (ordered.filterMap ?_) (.of_map _ distinct)).2 ?_
    · intro a b entry first second
      obtain ⟨_, -, rfl⟩ := Option.map_eq_some_iff.1 first
      obtain ⟨_, -, same⟩ := Option.map_eq_some_iff.1 second
      exact (Prod.ext_iff.1 same).1.symm
    · rintro ⟨word, spelling⟩
      simp only [List.mem_filterMap, Option.map_eq_some_iff, Prod.mk.injEq]
      constructor
      · rintro ⟨other, -, _, found, rfl, rfl⟩
        exact Swap.mem_of_ofList found
      · intro member
        have found := (Swap.ofList_eq_some_iff distinct).2 member
        exact ⟨word, named _ member, spelling, found, rfl, rfl⟩
  have mapped := pairs.map fun entry => entry.1.edit entry.2
  rw [List.map_filterMap] at mapped
  rw [editsFrom_eq names]
  simpa [Function.comp_def, Occurrence.edit, Respelling.edits] using mapped

theorem splice_choice (whole : ∀ span ∈ spans, span.kind = .word → span.text ≠ [])
    (distinct : (choice.map Prod.fst).Nodup)
    (named : ∀ entry ∈ choice, entry.1 ∈ namesFrom 0 spans) :
    Edit.splice (texts spans) (Respelling.edits choice) =
      some (texts (respellFrom (Swap.ofList choice) 0 spans)) := by
  have perm := editsFrom_ofList_perm whole distinct named
  rw [← Edit.splice_perm perm (nodup_ranges_editsFrom _ whole)]
  exact splice_editsFrom _ spans

end Choice

private theorem newlines_respell {swap : Swap} (valid : swap.IsValid) {span : Span}
    (spelled : span.kind = .word → Word.isSpelled span.text) (offset : Nat) :
    Text.newlines (texts (respell swap offset span)) = Text.newlines span.text := by
  have none {word : Text} (spelled : Word.isSpelled word) : Text.newlines word = 0 :=
    List.count_eq_zero.2 (Word.newline_not_mem spelled)
  by_cases word : span.kind = .word
  · cases found : swap ⟨offset, span.text⟩ with
    | none => simp [respell, word, found, texts]
    | some spelling =>
      obtain ⟨-, name, front⟩ := valid _ _ found
      have single := none (Token.isSpelled_of_isIdentifier name)
      simp only [respell, word, if_true, found, texts_map_ofToken, none (spelled word)]
      obtain ⟨_ | qualifier, name⟩ := spelling
      · simpa [Respelling.tokens, Token.texts] using single
      · have first := none (Token.isSpelled_of_isIdentifier (front qualifier rfl))
        have dot : Text.newlines ['.'] = 0 := rfl
        rw [Respelling.tokens, Token.texts_cons, Token.texts_cons, Token.texts_cons,
          Text.newlines_append, Text.newlines_append, Text.newlines_append, first, dot, single]
        rfl
  · simp [respell, word, texts]

private theorem locate_respellFrom {swap : Swap} (valid : swap.IsValid) {text : Text}
    {spans : List Span} (scanned : scan text = .ok spans) :
    locate (respellFrom swap 0 spans) =
      (locate spans).flatMap fun located =>
        locateFrom (Edit.shift (editsFrom swap 0 spans) located.start) located.line
          (respell swap located.start located.span) := by
  refine locateFrom_respellFrom swap (Edit.shift (editsFrom swap 0 spans)) ?_ ?_
  · rintro before after rfl
    rw [Nat.zero_add, Nat.zero_add]
    exact shift_editsFrom swap (text_ne_nil_of_word scanned)
  · intro offset span member
    exact newlines_respell valid (isSpelled_of_word scanned span member) offset

end Span

namespace Token

/-- Whether one of the tokens of a text is a number that ends at an offset. -/
def NumberEndsAt (tokens : List Token) (offset : Nat) : Prop :=
  ∃ located ∈ locateFrom 0 1 tokens, located.token.kind = .number ∧ located.stop = offset

instance (tokens : List Token) (offset : Nat) : Decidable (NumberEndsAt tokens offset) :=
  inferInstanceAs (Decidable (∃ located ∈ locateFrom 0 1 tokens,
    located.token.kind = .number ∧ located.stop = offset))

private theorem spares_of_located {swap : Swap} {start : Nat} (line : Nat) {tokens : List Token}
    (clear : ∀ located ∈ locateFrom start line tokens, located.token.kind = .number →
      ∀ word, word.start = located.stop → swap word = none) : Spares swap start tokens := by
  induction tokens generalizing start line with
  | nil => trivial
  | cons token tokens ih =>
    obtain ⟨first, rest⟩ := List.forall_mem_cons.1 clear
    exact ⟨fun number next _ _ => first number _ rfl, ih _ rest⟩

private theorem spares_of_clear {swap : Swap} {tokens : List Token}
    (clear : ∀ word, swap word ≠ none → ¬NumberEndsAt tokens word.start) :
    Spares swap 0 tokens := by
  refine spares_of_located 1 fun located member number word ends => ?_
  by_contra replaced
  exact clear word replaced ⟨located, member, number, ends.symm⟩

end Token

/-- Some names of a text, in any order, are replaced by identifiers or by selectors of two
identifiers; none of them starts where a number ends. The new text scans, and its spans are those of
the old one, each at its place moved by the edits before it, with the spans of its new spelling in
the place of each replaced name. -/
theorem Span.respelled_text_rescans {text : Text} {spans : List Span} {tokens : List Token}
    (scanned : scan text = .ok spans) (lexed : Token.lex text = .ok tokens)
    (choice : List (Occurrence × Respelling)) (distinct : (choice.map Prod.fst).Nodup)
    (named : ∀ entry ∈ choice, entry.1 ∈ namesFrom 0 spans)
    (valid : ∀ entry ∈ choice, entry.2.IsValid)
    (clear : ∀ entry ∈ choice, ¬Token.NumberEndsAt tokens entry.1.start) :
    ∃ edited rescanned, Edit.splice text (Respelling.edits choice) = some edited ∧
      scan edited = .ok rescanned ∧
      locate rescanned = (locate spans).flatMap fun located =>
        locateFrom (Edit.shift (Respelling.edits choice) located.start) located.line
          (respell (Swap.ofList choice) located.start located.span) := by
  have whole := text_ne_nil_of_word scanned
  have replaces : (Swap.ofList choice).IsValid := fun word spelling found =>
    ⟨(namesFrom_start_le _ (named _ (Swap.mem_of_ofList found))).2,
      valid _ (Swap.mem_of_ofList found)⟩
  have spares : Token.Spares (Swap.ofList choice) 0 tokens := by
    refine Token.spares_of_clear fun word replaced => ?_
    obtain ⟨spelling, found⟩ := Option.ne_none_iff_exists'.1 replaced
    exact clear _ (Swap.mem_of_ofList found)
  refine ⟨_, _, ?_, scan_respellFrom replaces lexed spares scanned, ?_⟩
  · have spliced := splice_choice whole distinct named
    rwa [texts_of_scan scanned] at spliced
  · rw [locate_respellFrom replaces scanned]
    simp only [Edit.shift_perm (editsFrom_ofList_perm whole distinct named)]

/-- A text in which a word touches the number before it. -/
def inletText : Text :=
  "package a\n\nvar x = Foo + 1é + Bar\n".toList

/-- New spellings of two other words of the text, the later one first. -/
def inletChoice : List (Occurrence × Respelling) :=
  [(⟨31, "Bar".toList⟩, ⟨none, "Quay".toList⟩),
    (⟨19, "Foo".toList⟩, ⟨some "b".toList, "Foo".toList⟩)]

/-- The two words are replaced, and everything behind them is moved. -/
theorem inlet_rescans :
    ∃ edited rescanned, Edit.splice inletText (Respelling.edits inletChoice) = some edited ∧
      Span.scan edited = .ok rescanned ∧
      (Span.locate rescanned).map (fun located => (located.start, located.span.text)) =
        [(0, "package a".toList), (9, "\n\n".toList), (11, "var".toList), (14, " ".toList),
          (15, "x".toList), (16, " ".toList), (17, "=".toList), (18, " ".toList),
          (19, "b".toList), (20, ".".toList), (21, "Foo".toList), (24, " ".toList),
          (25, "+".toList), (26, " ".toList), (27, "1".toList), (28, "é".toList),
          (30, " ".toList), (31, "+".toList), (32, " ".toList), (33, "Quay".toList),
          (37, "\n".toList)] := by
  have scanned : Span.scan inletText = .ok ((Span.scan inletText).toOption.getD []) := by
    decide +kernel
  have lexed : Token.lex inletText = .ok ((Token.lex inletText).toOption.getD []) := by
    decide +kernel
  obtain ⟨edited, rescanned, spliced, again, places⟩ :=
    Span.respelled_text_rescans scanned lexed inletChoice (by decide) (by decide +kernel)
      (by decide +kernel) (by decide +kernel)
  refine ⟨edited, rescanned, spliced, again, ?_⟩
  rw [places]
  decide +kernel

end Repackage
