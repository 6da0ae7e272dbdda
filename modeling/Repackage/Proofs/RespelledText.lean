import Repackage.Proofs.ImportBlock
import Repackage.Proofs.InertText
import Repackage.Proofs.Respelling

/-!
Texts whose words are spelled anew in any word characters. A qualifier that is no name can be taken
in by a number before it, or be read as a number itself, but it opens no literal and no comment and
closes none; so the text can still be read. What comes behind the imports starts with one more of
them only where a qualifier is the keyword, and no import can have the dot behind it.
-/

set_option autoImplicit false
set_option relaxedAutoImplicit false

namespace Repackage

/-- Whether a spelling is a name, with a qualifier of word characters if it has one. -/
structure Respelling.IsWritable (spelling : Respelling) : Prop where
  name : Word.isIdentifier spelling.name
  nonempty : ∀ qualifier ∈ spelling.qualifier, qualifier ≠ []
  qualifier : ∀ qualifier ∈ spelling.qualifier, ∀ c ∈ qualifier, Text.isWordChar c

def Swap.IsWritable (swap : Swap) : Prop :=
  ∀ word spelling, swap word = some spelling → spelling.IsWritable

namespace Respelling

variable {spelling : Respelling}

private theorem IsWritable.exists_word (writable : spelling.IsWritable) :
    ∃ c cs tail, Token.texts spelling.tokens = c :: (cs ++ tail) ∧ Text.isWordChar c ∧
      (∀ d ∈ cs, Text.isWordChar d) ∧ (∀ d ∈ tail, Text.isInert d) := by
  have own : ∀ d ∈ spelling.name, Text.isWordChar d :=
    Word.isWordChar_of_isSpelled (Token.isSpelled_of_isIdentifier writable.name)
  obtain ⟨_ | qualifier, name⟩ := spelling
  · have present : name ≠ [] := by
      rintro rfl
      exact absurd writable.name (by decide)
    obtain ⟨c, cs, rfl⟩ := List.exists_cons_of_ne_nil present
    obtain ⟨first, later⟩ := List.forall_mem_cons.1 own
    exact ⟨c, cs, [], by simp [tokens, Token.texts], first, later, by simp⟩
  · obtain ⟨c, cs, rfl⟩ := List.exists_cons_of_ne_nil (writable.nonempty qualifier rfl)
    obtain ⟨first, later⟩ := List.forall_mem_cons.1 (writable.qualifier (c :: cs) rfl)
    refine ⟨c, cs, '.' :: name, by simp [tokens, Token.texts], first, later, ?_⟩
    refine List.forall_mem_cons.2 ⟨by decide, fun d member => ?_⟩
    exact Text.isInert_of_isWordChar (own d member)

theorem IsWritable.isInert (writable : spelling.IsWritable) :
    ∀ c ∈ Token.texts spelling.tokens, Text.isInert c := by
  obtain ⟨c, cs, tail, text, first, later, rest⟩ := writable.exists_word
  rw [text]
  refine List.forall_mem_cons.2 ⟨Text.isInert_of_isWordChar first,
    List.forall_mem_append.2 ⟨fun d member => Text.isInert_of_isWordChar (later d member), rest⟩⟩

end Respelling

namespace Token

variable {swap : Swap} {tokens : List Token} {token : Token}

private theorem head?_respellFrom (writable : swap.IsWritable) (start : Nat) (stand : Stand tokens)
    : (texts (respellFrom swap start tokens)).head? = (texts tokens).head? ∨
      ∃ a b, (texts tokens).head? = some a ∧ Text.isWordStart a ∧
        (texts (respellFrom swap start tokens)).head? = some b ∧ Text.isWordChar b := by
  cases tokens with
  | nil => exact .inl rfl
  | cons token tokens =>
    obtain ⟨stands, -⟩ := stand
    rcases respell_cases swap start token with same | ⟨spelling, word, found, becomes⟩
    · obtain ⟨c, cs, spelled, -⟩ := stands
      left
      simp [respellFrom, same, texts, spelled]
    · right
      obtain ⟨a, first, wordStart⟩ := stands.isWordStart word
      obtain ⟨b, cs, tail, text, char, -⟩ := (writable _ _ found).exists_word
      refine ⟨a, b, ?_, wordStart, ?_, char⟩
      · rw [texts_cons, List.head?_append, first]
        rfl
      · rw [respellFrom, becomes, texts_append, text]
        rfl

theorem Stands.before_isWordChar {rest other : Text} {a b : Char} (stands : token.Stands rest)
    (first : rest.head? = some a) (wordStart : Text.isWordStart a)
    (second : other.head? = some b) (char : Text.isWordChar b)
    (notNumber : token.kind ≠ .number) (notDot : token.isMark '.' = false) :
    token.Stands other := by
  obtain ⟨alone, ends⟩ := stands_iff.1 stands
  refine stands_iff.2 ⟨alone, fun next found => ?_⟩
  obtain rfl : b = next := Option.some.inj (second.symm.trans found)
  have inert := Text.isInert_of_isWordChar char
  have ended := ends a first
  obtain ⟨c, cs, spelled, takes⟩ := stands.takes
  simp only [endsBefore, spelled, Bool.not_eq_true'] at ended ⊢
  cases kind : token.kind with
  | word => simp [goesOn, kind, Text.isWordChar_of_isWordStart wordStart] at ended
  | literal => rfl
  | comment =>
    have inLine : a ≠ '\n' := Text.ne_of_isWordStart wordStart (by decide)
    simp_all [goesOn]
  | blank => exact Text.not_isBlank_of_isInert inert
  | number => exact absurd kind notNumber
  | mark =>
    have slash : b ≠ '/' := Text.ne_of_isInert inert (by decide)
    have star : b ≠ '*' := Text.ne_of_isInert inert (by decide)
    have dot : c ≠ '.' := by
      rintro rfl
      rw [kind] at takes
      have alone : cs = [] := List.eq_nil_of_length_eq_zero takes.2
      simp [Token.isMark, kind, spelled, alone] at notDot
    simp [goesOn, slash, star, dot]

private theorem Stands.before_respellFrom (writable : swap.IsWritable) {start : Nat}
    (stands : token.Stands (texts tokens)) (stand : Stand tokens) (notNumber : token.kind ≠ .number)
    (notDot : token.isMark '.' = false) :
    token.Stands (texts (respellFrom swap start tokens)) := by
  rcases head?_respellFrom writable start stand with kept | ⟨a, b, first, wordStart, second, char⟩
  · exact stands.of_head? kept
  · exact stands.before_isWordChar first wordStart second char notNumber notDot

private theorem isInert_of_number {c : Char} {cs : Text} {n : Nat}
    (found : extent c cs = .ok (.number, n)) : Text.isInert c := by
  simp only [extent] at found
  split_ifs at found with line block blank string rune raw start number
  · cases found
  · split at found <;> cases found
  · cases found
  · split at found <;> cases found
  · split at found <;> cases found
  · split at found <;> cases found
  · cases found
  · simp only [Bool.or_eq_true, Bool.and_eq_true, beq_iff_eq] at number
    rcases number with digit | ⟨rfl, -⟩
    · exact Text.isInert_of_isWordChar (Text.isWordChar_of_isDigit digit)
    · decide
  · cases found

private theorem Stands.isInert_of_number {rest : Text} (stands : token.Stands rest)
    (number : token.kind = .number) : ∀ c ∈ token.text, Text.isInert c := by
  obtain ⟨c, cs, spelled, found⟩ := stands
  rw [number] at found
  have inert := Token.isInert_of_number found
  obtain ⟨kind, n, also, -, own⟩ := extent_of_isInert inert (cs ++ rest)
  obtain ⟨-, rfl⟩ := Prod.mk.inj (Except.ok.inj (found.symm.trans also))
  rw [List.take_left] at own
  rw [spelled]
  exact List.forall_mem_cons.2 ⟨inert, own⟩

private theorem isReadable_respellFrom (writable : swap.IsWritable) {start : Nat}
    (stand : Stand tokens) : IsReadable (texts (respellFrom swap start tokens)) := by
  induction tokens generalizing start with
  | nil => exact ⟨[], rfl, trivial⟩
  | cons token tokens ih =>
    obtain ⟨stands, stand⟩ := stand
    have rest : IsReadable (texts (respellFrom swap (start + Text.byteSize token.text) tokens)) :=
      ih stand
    rw [respellFrom, texts_append]
    rcases respell_cases swap start token with same | ⟨spelling, -, found, becomes⟩
    · have own : texts (respell swap start token) = token.text := by
        rw [same, texts_cons]
        exact List.append_nil _
      rw [own]
      by_cases inert : ∀ c ∈ token.text, Text.isInert c
      · exact (isReadable_append_iff inert _).2 rest
      · have notNumber : token.kind ≠ .number := mt stands.isInert_of_number inert
        have notDot : token.isMark '.' = false := by
          rw [Bool.eq_false_iff]
          intro dot
          refine inert ?_
          simp only [isMark, Bool.and_eq_true, beq_iff_eq] at dot
          rw [dot.2]
          exact List.forall_mem_singleton.2 (by decide)
        obtain ⟨more, text, standing⟩ := rest
        refine ⟨token :: more, by rw [texts_cons, text], ?_, standing⟩
        rw [text]
        exact stands.before_respellFrom writable stand notNumber notDot
    · rw [becomes]
      exact (isReadable_append_iff (writable _ _ found).isInert _).2 rest

end Token

namespace Outline

variable {swap : Swap} {tokens others : List Token}

theorem startsImport_cons_of_separates {token : Token} (separator : separates token)
    (tokens : List Token) : startsImport (token :: tokens) = startsImport tokens := by
  rw [startsImport, List.dropWhile_cons_of_pos separator, startsImport]

theorem startsImport_cons_of_not_separates {token : Token} (stops : separates token = false)
    (tokens : List Token) : startsImport (token :: tokens) = token.isWord "import" := by
  rw [startsImport, List.dropWhile_cons_of_neg (by simp [stops])]
  rfl

private theorem breaksOff_cons_iff {token : Token} (separator : separates token)
    (tokens : List Token) : BreaksOff (token :: tokens) ↔ BreaksOff tokens := by
  rw [BreaksOff, List.dropWhile_cons_of_pos separator, BreaksOff]

private theorem startsImport_of_head {c : Char} (stand : Token.Stand tokens)
    (head : (Token.texts tokens).head? = some c) (inert : Text.isInert c)
    (noWord : Text.isWordStart c = false) : startsImport tokens = false := by
  cases tokens with
  | nil => rfl
  | cons token tokens =>
    obtain ⟨stands, -⟩ := stand
    obtain ⟨d, ds, spelled, takes⟩ := stands.takes
    obtain rfl : d = c := by simpa [Token.texts_cons, spelled] using head
    have kind := stands.kind_of_isInert (by simpa [spelled] using inert)
    have notWord : token.kind ≠ .word := by
      intro word
      obtain ⟨c, first, wordStart⟩ := stands.isWordStart word
      obtain rfl : d = c := by simpa [spelled] using first
      rw [noWord] at wordStart
      cases wordStart
    have semicolon : d ≠ ';' := Text.ne_of_isInert inert (by decide)
    have stops : separates token = false := by
      rcases kind with word | number | mark
      · exact absurd word notWord
      · simp [separates, Token.isSignificant, Token.isMark, number]
      · simp [separates, Token.isSignificant, Token.isMark, mark, spelled, semicolon]
    simp [startsImport_cons_of_not_separates stops, Token.isWord, notWord]

private theorem importExtent_of_dot {name : Text} (tokens : List Token) :
    importExtent (⟨.mark, ['.']⟩ :: ⟨.word, name⟩ :: tokens) = none := by
  have dot : isGap ⟨.mark, ['.']⟩ = false := rfl
  have word : isGap ⟨.word, name⟩ = false := rfl
  simp [importExtent, dot, word, Token.isMark]

private theorem exists_of_spelling {spelling : Respelling}
    (proper : Word.isIdentifier spelling.name)
    (spelled : ∀ qualifier ∈ spelling.qualifier, Word.isSpelled qualifier) {rest : Text}
    (ends : ∀ next ∈ rest.head?, Text.isWordChar next = false) (standing : Token.Stand others)
    (same : Token.texts others = Token.texts spelling.tokens ++ rest) :
    ∃ more, others = spelling.tokens ++ more := by
  have own := Token.isSpelled_of_isIdentifier proper
  have alone : Token.Stands ⟨.word, spelling.name⟩ [] := .of_spelled own (by simp)
  have stand : Token.Stand spelling.tokens := by
    obtain ⟨_ | qualifier, name⟩ := spelling
    · exact ⟨alone, trivial⟩
    · refine ⟨.of_spelled (spelled qualifier rfl) ?_, .dot ?_, alone, trivial⟩
      · intro next found
        obtain rfl : '.' = next := by simpa [Token.texts] using found
        decide
      · intro next found
        cases name with
        | nil => cases own
        | cons c cs =>
          obtain rfl : c = next := by simpa [Token.texts] using found
          simp only [Word.isSpelled, Bool.and_eq_true] at own
          exact Text.not_isDigit_of_isWordStart own.1
  have last : ∀ last ∈ spelling.tokens.getLast?, last = ⟨.word, spelling.name⟩ := by
    obtain ⟨_ | qualifier, name⟩ := spelling <;> simp [Respelling.tokens]
  have behind : ∀ last ∈ spelling.tokens.getLast?, ∀ next ∈ rest.head?,
      last.endsBefore next = true := by
    intro token found next head
    rw [last token found]
    exact (Token.stands_iff.1 (Token.Stands.of_spelled own ends)).2 next head
  obtain ⟨more, rfl, -⟩ := Token.exists_of_stand_append stand behind standing same
  exact ⟨more, rfl⟩

private theorem separates_word (text : Text) : separates ⟨.word, text⟩ = false :=
  separates_eq_false_of_kind rfl

private theorem startsImport_of_unspelled {spelling : Respelling} (writable : spelling.IsWritable)
    {qualifier : Text} (qualified : spelling.qualifier = some qualifier)
    (unspelled : Word.isSpelled qualifier = false) (standing : Token.Stand others) {rest : Text}
    (same : Token.texts others = Token.texts spelling.tokens ++ rest) (tokens : List Token) :
    startsImport (spelling.tokens ++ tokens) = false ∧ startsImport others = false := by
  obtain ⟨_, name⟩ := spelling
  obtain rfl : _ = some qualifier := qualified
  obtain ⟨c, cs, rfl⟩ := List.exists_cons_of_ne_nil (writable.nonempty qualifier rfl)
  obtain ⟨first, later⟩ := List.forall_mem_cons.1 (writable.qualifier (c :: cs) rfl)
  have noWord : Text.isWordStart c = false := by
    rw [Bool.eq_false_iff]
    intro wordStart
    rw [Word.isSpelled, wordStart, Bool.true_and, List.all_eq_false] at unspelled
    obtain ⟨d, member, other⟩ := unspelled
    exact other (later d member)
  constructor
  · rw [Respelling.tokens, List.cons_append, startsImport_cons_of_not_separates (separates_word _)]
    rw [Bool.eq_false_iff]
    intro keyword
    simp only [Token.isWord, BEq.rfl, Bool.true_and, beq_iff_eq] at keyword
    obtain rfl : c = 'i' := (List.cons.inj keyword).1
    exact absurd noWord (by decide)
  · refine startsImport_of_head standing ?_ (Text.isInert_of_isWordChar first) noWord
    rw [same]
    rfl

private theorem startsImport_spelling_cases {spelling : Respelling} (writable : spelling.IsWritable)
    {rest : Text} (ends : ∀ next ∈ rest.head?, Text.isWordChar next = false)
    (standing : Token.Stand others)
    (same : Token.texts others = Token.texts spelling.tokens ++ rest) (tokens : List Token) :
    startsImport (spelling.tokens ++ tokens) = false ∧ startsImport others = false ∨
      startsImport (spelling.tokens ++ tokens) = true ∧ BreaksOff others := by
  by_cases spelled : ∀ qualifier ∈ spelling.qualifier, Word.isSpelled qualifier
  · obtain ⟨more, rfl⟩ := exists_of_spelling writable.name spelled ends standing same
    obtain ⟨_ | qualifier, name⟩ := spelling
    · left
      simp only [Respelling.tokens, List.singleton_append,
        startsImport_cons_of_not_separates (separates_word name)]
      exact ⟨isWord_import_eq_false writable.name, isWord_import_eq_false writable.name⟩
    · simp only [Respelling.tokens, List.cons_append, List.nil_append,
        startsImport_cons_of_not_separates (separates_word qualifier)]
      cases keyword : Token.isWord "import" ⟨.word, qualifier⟩ with
      | false => exact .inl ⟨rfl, rfl⟩
      | true =>
        refine .inr ⟨rfl, ⟨.word, qualifier⟩, ⟨.mark, ['.']⟩ :: ⟨.word, name⟩ :: more, ?_, keyword,
          importExtent_of_dot more⟩
        rw [List.dropWhile_cons_of_neg (by simp [separates_word])]
  · push Not at spelled
    obtain ⟨qualifier, qualified, unspelled⟩ := spelled
    left
    exact startsImport_of_unspelled writable qualified (by simpa using unspelled) standing same
      tokens

private theorem startsImport_of_numeral {token : Token} {rest : Text} (stands : token.Stands rest)
    (numeral : token.kind = .number ∨ token.isMark '.') (standing : Token.Stand others)
    {more : Text} (same : Token.texts others = token.text ++ more) :
    separates token = false ∧ token.isWord "import" = false ∧ startsImport others = false := by
  have inert := stands.isInert_of_number
  obtain ⟨c, cs, spelled, found⟩ := stands
  have head : (Token.texts others).head? = some c := by
    rw [same, spelled]
    rfl
  rcases numeral with number | dot
  · refine ⟨by simp [separates, Token.isSignificant, Token.isMark, number],
      by simp [Token.isWord, number], startsImport_of_head standing head ?_ ?_⟩
    · exact inert number c (by simp [spelled])
    · rw [Bool.eq_false_iff]
      intro wordStart
      rw [Token.extent_of_isWordStart _ wordStart, number] at found
      cases found
  · simp only [Token.isMark, Bool.and_eq_true, beq_iff_eq] at dot
    obtain ⟨rfl, -⟩ := List.cons.inj (spelled.symm.trans dot.2)
    refine ⟨by simp [separates, Token.isSignificant, Token.isMark, dot],
      by simp [Token.isWord, dot], startsImport_of_head standing head (by decide) (by decide)⟩

private theorem exists_of_kept (writable : swap.IsWritable) {start : Nat} {token : Token}
    (stands : token.Stands (Token.texts tokens)) (stand : Token.Stand tokens)
    (standing : Token.Stand others)
    (same : Token.texts others =
      Token.texts [token] ++ Token.texts (Token.respellFrom swap start tokens)) :
    ((separates token = false ∧ token.isWord "import" = false) ∧ startsImport others = false) ∨
      ∃ more, others = token :: more ∧ Token.Stand more ∧
        Token.texts more = Token.texts (Token.respellFrom swap start tokens) := by
  by_cases numeral : token.kind = .number ∨ token.isMark '.'
  · have own : Token.texts [token] = token.text := List.append_nil _
    obtain ⟨stops, other, nothing⟩ :=
      startsImport_of_numeral stands numeral standing (own ▸ same)
    exact .inl ⟨⟨stops, other⟩, nothing⟩
  · rw [not_or, Bool.not_eq_true] at numeral
    obtain ⟨alone, ends⟩ := Token.stands_iff.1
      (stands.before_respellFrom writable stand numeral.1 numeral.2)
    have single : Token.Stand [token] := ⟨alone, trivial⟩
    exact .inr (Token.exists_of_stand_append single (by simpa using ends) standing same)

private theorem startsImport_or_breaksOff (writable : swap.IsWritable) {start : Nat}
    (stand : Token.Stand tokens) (none : startsImport tokens = false)
    (standing : Token.Stand others)
    (same : Token.texts others = Token.texts (Token.respellFrom swap start tokens)) :
    startsImport (Token.respellFrom swap start tokens) = false ∧ startsImport others = false ∨
      startsImport (Token.respellFrom swap start tokens) = true ∧ BreaksOff others := by
  induction tokens generalizing start others with
  | nil =>
    cases others with
    | nil => exact .inl ⟨rfl, rfl⟩
    | cons token others =>
      obtain ⟨⟨c, cs, spelled, -⟩, -⟩ := standing
      simp [Token.texts, Token.respellFrom, spelled] at same
  | cons token tokens ih =>
    obtain ⟨stands, stand⟩ := stand
    rw [Token.respellFrom, Token.texts_append] at same
    rw [Token.respellFrom]
    rcases Token.respell_cases swap start token with kept | ⟨spelling, word, found, becomes⟩
    · rw [kept] at same ⊢
      obtain ⟨stops, nothing⟩ | ⟨more, rfl, standing, rest⟩ :=
        exists_of_kept writable stands stand standing same
      · left
        rw [List.singleton_append, startsImport_cons_of_not_separates stops.1]
        exact ⟨stops.2, nothing⟩
      rw [List.singleton_append]
      cases separator : separates token with
      | true =>
        rw [startsImport_cons_of_separates separator, startsImport_cons_of_separates separator,
          breaksOff_cons_iff separator]
        rw [startsImport_cons_of_separates separator] at none
        exact ih stand none standing rest
      | false =>
        rw [startsImport_cons_of_not_separates separator] at none
        left
        rw [startsImport_cons_of_not_separates separator,
          startsImport_cons_of_not_separates separator]
        exact ⟨none, none⟩
    · rw [becomes] at same ⊢
      refine startsImport_spelling_cases (writable _ _ found) (fun next head => ?_) standing same _
      -- Behind the old word there was no word either.
      have ends := stands.not_isWordChar word
      rcases Token.head?_respellFrom writable (start + Text.byteSize token.text) stand with
        same | ⟨a, b, first, wordStart, -⟩
      · exact ends next (same ▸ head)
      · have clash := ends a first
        rw [Text.isWordChar_of_isWordStart wordStart] at clash
        cases clash

def withBody (outline : Outline) (body : List Token) : Outline :=
  { outline with body := body }

theorem tokens_withBody (outline : Outline) (body : List Token) :
    (outline.withBody body).tokens = outline.front ++ outline.imports ++ body := rfl

theorem IsImport.exists_last {declaration : List Token} (shape : IsImport declaration) :
    ∃ front last, declaration = front ++ [last] ∧ (last.kind = .literal ∨ last.isMark ')') := by
  cases shape with
  | @group gap inside opening closing _ _ _ closes =>
    exact ⟨gap ++ opening :: inside, closing, by simp, .inr closes⟩
  | @named gap between name path _ _ _ literal =>
    exact ⟨gap ++ name :: between, path, by simp, .inl literal⟩
  | @plain gap path _ literal => exact ⟨gap, path, rfl, .inl literal⟩

private theorem HasImports.getLast?_imports {gap imports body : List Token}
    (shapes : HasImports gap imports body) :
    ∀ last ∈ imports.getLast?, last.kind = .literal ∨ last.isMark ')' := by
  induction shapes with
  | nil => simp
  | @cons gap declaration between more body keyword _ _ shape rest ih =>
    intro last found
    cases more with
    | cons token more =>
      rw [List.getLast?_append_of_ne_nil _ (List.cons_ne_nil _ _)] at found
      exact ih last found
    | nil =>
      obtain rfl : between = [] := rest.gap_eq_nil rfl
      obtain ⟨front, final, rfl, ends⟩ := shape.exists_last
      rw [List.append_nil, List.append_nil, ← List.cons_append, List.getLast?_concat] at found
      obtain rfl := Option.some.inj found
      exact ends

private theorem IsWellFormed.getLast?_front {outline : Outline} (formed : outline.IsWellFormed) :
    ∀ last ∈ (outline.front ++ outline.imports).getLast?,
      last.kind ≠ .number ∧ last.isMark '.' = false := by
  intro last found
  by_cases empty : outline.imports = []
  · have gap := formed.imports.gap_eq_nil empty
    obtain rfl : outline.name = last := by simpa [empty, front, gap] using found
    simp [formed.name, Token.isMark]
  · rw [List.getLast?_append_of_ne_nil _ empty] at found
    rcases formed.imports.getLast?_imports last found with literal | closes
    · simp [literal, Token.isMark]
    · simp only [Token.isMark, Bool.and_eq_true, beq_iff_eq] at closes
      simp [closes, Token.isMark]

theorem exists_withBody (writable : swap.IsWritable) {outline : Outline}
    (stand : Token.Stand outline.tokens) (formed : outline.IsWellFormed) :
    ∃ body, Token.texts body = Token.texts (Span.respellBody swap outline).body ∧
      Token.Stand (outline.withBody body).tokens ∧
      (startsImport (Span.respellBody swap outline).body = false ∧
          (outline.withBody body).IsWellFormed ∨
        startsImport (Span.respellBody swap outline).body = true ∧ BreaksOff body) := by
  rw [tokens_eq] at stand
  obtain ⟨front, stands, -⟩ := Token.stand_append_iff.1 stand
  obtain ⟨body, text, standing⟩ := Token.isReadable_respellFrom writable stands
  refine ⟨body, text, ?_, ?_⟩
  · rw [tokens_withBody, Token.stand_append_iff]
    refine ⟨front, standing, ?_⟩
    intro last found next head
    obtain ⟨notNumber, notDot⟩ := formed.getLast?_front last found
    have before := Token.stands_of_getLast? stand found
    rw [text] at head
    exact (Token.stands_iff.1 (before.before_respellFrom writable stands notNumber notDot)).2
      next head
  · rcases startsImport_or_breaksOff writable stands formed.imports.startsImport standing text with
      ⟨same, none⟩ | breaks
    · exact .inl ⟨same, formed.header, formed.clause, formed.name, formed.imports.with_body none⟩
    · exact .inr breaks

end Outline

end Repackage
