import Repackage.Proofs.Boundaries
import Repackage.Proofs.Lexing

/-!
What tokens look like, and how they meet. A token stands in a text when it would stand alone and the
character after it does not go on with it, so rows of tokens can be put side by side by looking at
the two tokens where they meet. White space is the only class that ends in a line end, and nothing
but white space and comments keeps two words apart.
-/

set_option autoImplicit false
set_option relaxedAutoImplicit false

namespace Repackage

namespace Text

private theorem blankRanges_numeric :
    ∀ blank ∈ blankRanges, blank.2 < 48 ∨ 127 < blank.1 ∧
      ∀ range ∈ numericRanges, range.2 < blank.1 ∨ blank.2 < range.1 := by
  decide +kernel

private theorem not_isNumeric_of_isBlank {c : Char} (blank : isBlank c) : isNumeric c = false := by
  rw [Bool.eq_false_iff]
  intro numeric
  obtain ⟨range, member, within⟩ := List.any_eq_true.1 blank
  simp only [Bool.and_eq_true, decide_eq_true_eq] at within
  rw [isNumeric] at numeric
  rcases blankRanges_numeric range member with low | ⟨high, apart⟩
  · rw [if_pos (by omega)] at numeric
    simp only [Char.isDigit, Bool.and_eq_true, decide_eq_true_eq, ge_iff_le,
      UInt32.le_iff_toNat_le] at numeric
    have code : c.toNat = c.val.toNat := rfl
    have zero : '0'.val.toNat = 48 := rfl
    omega
  · rw [if_neg (by omega)] at numeric
    obtain ⟨other, found, also⟩ := List.any_eq_true.1 numeric
    simp only [Bool.and_eq_true, decide_eq_true_eq] at also
    have := apart other found
    omega

theorem not_isWordChar_of_isBlank {c : Char} (blank : isBlank c) : isWordChar c = false := by
  cases start : isWordStart c with
  | true =>
    rw [not_isBlank_of_isWordStart start] at blank
    cases blank
  | false =>
    simp only [isWordStart, Bool.or_eq_false_iff] at start
    simp only [isWordChar, start, not_isNumeric_of_isBlank blank, Bool.or_false]

end Text

theorem Word.newline_not_mem {word : Text} (spelled : isSpelled word) : '\n' ∉ word := by
  intro newline
  cases word with
  | nil => cases newline
  | cons c cs =>
    rw [isSpelled, Bool.and_eq_true, List.all_eq_true] at spelled
    rcases List.mem_cons.1 newline with rfl | later
    · exact absurd spelled.1 (by decide)
    · exact absurd (spelled.2 _ later) (by decide)

namespace Token

def endsBefore (token : Token) (next : Char) : Bool :=
  match token.text with
  | [] => true
  | c :: cs => !goesOn token.kind c cs next

theorem stands_iff {token : Token} {rest : Text} :
    token.Stands rest ↔ token.Stands [] ∧ ∀ next ∈ rest.head?, token.endsBefore next = true := by
  constructor
  · rintro ⟨c, cs, spelled, found⟩
    obtain ⟨alone, ends⟩ := extent_append_iff.1 found
    refine ⟨⟨c, cs, spelled, by rwa [List.append_nil]⟩, fun next first => ?_⟩
    simp only [endsBefore, spelled, ends next first, Bool.not_false]
  · rintro ⟨⟨c, cs, spelled, found⟩, ends⟩
    rw [List.append_nil] at found
    refine ⟨c, cs, spelled, extent_append_iff.2 ⟨found, fun next first => ?_⟩⟩
    have ended := ends next first
    simpa only [endsBefore, spelled, Bool.not_eq_true'] using ended

private theorem head?_texts_of_stand {tokens : List Token} (stand : Stand tokens)
    (some : tokens ≠ []) (rest : Text) : (texts tokens ++ rest).head? = (texts tokens).head? := by
  cases tokens with
  | nil => exact absurd rfl some
  | cons token tokens =>
    obtain ⟨⟨c, cs, spelled, -⟩, -⟩ := stand
    simp only [texts_cons, spelled, List.cons_append, List.head?_cons]

/-- Two rows of tokens stand side by side when each stands on its own and the first one ends before
the second. -/
theorem stand_append_iff {a b : List Token} :
    Stand (a ++ b) ↔ Stand a ∧ Stand b ∧
      ∀ last ∈ a.getLast?, ∀ next ∈ (texts b).head?, last.endsBefore next = true := by
  induction a with
  | nil => simp [Stand]
  | cons token a ih =>
    cases a with
    | nil =>
      simp only [List.cons_append, List.nil_append, Stand, texts, List.flatMap_nil, and_true,
        List.getLast?_singleton, Option.mem_def, Option.some.injEq, forall_eq']
      rw [stands_iff]
      constructor
      · rintro ⟨⟨alone, ends⟩, stand⟩
        exact ⟨alone, stand, ends⟩
      · rintro ⟨alone, stand, ends⟩
        exact ⟨⟨alone, ends⟩, stand⟩
    | cons following a =>
      rw [List.getLast?_cons_cons]
      constructor
      · rintro ⟨stands, rest⟩
        obtain ⟨stand, after, ends⟩ := ih.1 rest
        have first := head?_texts_of_stand stand (List.cons_ne_nil _ _) (texts b)
        rw [← texts_append] at first
        exact ⟨⟨stands.of_head? first.symm, stand⟩, after, ends⟩
      · rintro ⟨⟨stands, stand⟩, after, ends⟩
        have first := head?_texts_of_stand stand (List.cons_ne_nil _ _) (texts b)
        rw [← texts_append] at first
        exact ⟨stands.of_head? first, ih.2 ⟨stand, after, ends⟩⟩

theorem stands_of_getLast? {a b : List Token} (stand : Stand (a ++ b)) {last : Token}
    (found : last ∈ a.getLast?) : last.Stands (texts b) := by
  obtain ⟨front, -, ends⟩ := stand_append_iff.1 stand
  obtain ⟨init, rfl⟩ := List.getLast?_eq_some_iff.1 found
  exact stands_iff.2 ⟨(stand_append_iff.1 front).2.1.1, ends last found⟩

theorem endsBefore_newline {token : Token} (solid : token.kind ≠ .blank) :
    token.endsBefore '\n' = true := by
  have notWord : Text.isWordChar '\n' = false := by decide
  have notNumber (hexadecimal : Bool) (last : Char) :
      continuesNumber hexadecimal last '\n' = false := by
    cases hexadecimal <;> simp [continuesNumber, Text.isAsciiAlphanumeric]
  have notDigit : '\n'.isDigit = false := by decide
  unfold endsBefore
  split
  · rfl
  next c cs spelled =>
    rw [Bool.not_eq_true']
    cases kind : token.kind with
    | blank => exact absurd kind solid
    | number => exact notNumber _ _
    | word => exact notWord
    | literal => rfl
    | comment => simp [goesOn]
    | mark => simp [goesOn, notDigit]

def Takes (c : Char) (cs : Text) (n : Nat) : Kind → Prop
  | .word => Text.isWordStart c ∧ n = (cs.takeWhile Text.isWordChar).length
  | .literal =>
    (c = '"' ∨ c = '\'') ∧ quotedLength c cs = some n ∨ c = '\x60' ∧ rawLength cs = some n
  | .comment =>
    c = '/' ∧ (cs.head? = some '/' ∧ n = (cs.takeWhile (· ≠ '\n')).length ∨
      cs.head? = some '*' ∧ ∃ m, commentLength cs.tail = some m ∧ n = m + 1)
  | .blank => Text.isBlank c ∧ n = (cs.takeWhile Text.isBlank).length
  | .number => Text.isBlank c = false ∧ n = numberLength (isHexadecimal c cs.head?) c cs
  | .mark => Text.isBlank c = false ∧ n = 0

private theorem takes_of_extent {c : Char} {cs : Text} {kind : Kind} {n : Nat}
    (found : extent c cs = .ok (kind, n)) : Takes c cs n kind := by
  simp only [extent] at found
  split_ifs at found with line block blank string rune raw start number
  · cases found
    exact ⟨line.1, .inl ⟨line.2, rfl⟩⟩
  · split at found <;> cases found
    next m closed => exact ⟨block.1, .inr ⟨block.2, m, closed, rfl⟩⟩
  · cases found
    exact ⟨blank, rfl⟩
  · split at found <;> cases found
    next closed => exact .inl ⟨.inl string, string ▸ closed⟩
  · split at found <;> cases found
    next closed => exact .inl ⟨.inr rune, rune ▸ closed⟩
  · split at found <;> cases found
    next closed => exact .inr ⟨raw, closed⟩
  · cases found
    exact ⟨start, rfl⟩
  · cases found
    exact ⟨by simpa using blank, rfl⟩
  · cases found
    exact ⟨by simpa using blank, rfl⟩

theorem Stands.takes {token : Token} {rest : Text} (stands : token.Stands rest) :
    ∃ c cs, token.text = c :: cs ∧ Takes c cs cs.length token.kind := by
  obtain ⟨c, cs, spelled, found⟩ := stands
  exact ⟨c, cs, spelled, takes_of_extent (extent_append_iff.1 found).1⟩

theorem all_of_takeWhile {p : Char → Bool} {cs : Text}
    (whole : cs.length = (cs.takeWhile p).length) : ∀ c ∈ cs, p c := by
  have same : cs.takeWhile p = cs :=
    (List.takeWhile_sublist p).eq_of_length whole.symm
  exact List.takeWhile_eq_self_iff.1 same

theorem Stands.isSpelled {token : Token} {rest : Text} (stands : token.Stands rest)
    (word : token.kind = .word) : Word.isSpelled token.text := by
  obtain ⟨c, cs, spelled, takes⟩ := stands.takes
  rw [word] at takes
  rw [spelled, Word.isSpelled, Bool.and_eq_true, List.all_eq_true]
  exact ⟨takes.1, all_of_takeWhile takes.2⟩

theorem Stands.all_isBlank {token : Token} {rest : Text} (stands : token.Stands rest)
    (blank : token.kind = .blank) : ∀ c ∈ token.text, Text.isBlank c := by
  obtain ⟨c, cs, spelled, takes⟩ := stands.takes
  rw [blank] at takes
  rw [spelled]
  exact List.forall_mem_cons.2 ⟨takes.1, all_of_takeWhile takes.2⟩

private theorem getLast?_of_quotedLength {quote : Char} {cs : Text}
    (found : quotedLength quote cs = some cs.length) : cs.getLast? = some quote := by
  fun_induction quotedLength quote cs with
  | case1 => cases found
  | case2 cs => cases found
  | case3 bare => cases found
  | case4 escaped rest bare ih =>
    have closed : quotedLength quote rest = some rest.length := by
      simpa using found
    have last := ih closed
    cases rest with
    | nil => cases last
    | cons d rest => rwa [List.getLast?_cons_cons, List.getLast?_cons_cons]
  | case5 cs bare notEscape =>
    obtain rfl : cs = [] := by simpa using found
    rfl
  | case6 c cs bare notEscape notQuote ih =>
    have closed : quotedLength quote cs = some cs.length := by simpa using found
    have last := ih closed
    cases cs with
    | nil => cases last
    | cons d rest => rwa [List.getLast?_cons_cons]

private theorem getLast?_of_rawLength {cs : Text} (found : rawLength cs = some cs.length) :
    cs.getLast? = some '\x60' := by
  fun_induction rawLength cs with
  | case1 => cases found
  | case2 cs =>
    obtain rfl : cs = [] := by simpa using found
    rfl
  | case3 c cs other ih =>
    have last := ih (by simpa using found)
    cases cs with
    | nil => cases last
    | cons d rest => rwa [List.getLast?_cons_cons]

private theorem getLast?_of_commentLength {cs : Text} (found : commentLength cs = some cs.length) :
    cs.getLast? = some '/' := by
  fun_induction commentLength cs with
  | case1 => cases found
  | case2 c cs ends =>
    cases cs with
    | nil => simp at ends
    | cons d rest =>
      obtain rfl : rest = [] := by simpa using found
      simpa using ends.2
  | case3 c cs goes ih =>
    have last := ih (by simpa using found)
    cases cs with
    | nil => cases last
    | cons d rest => rwa [List.getLast?_cons_cons]

private theorem not_mem_of_numberLength {hexadecimal : Bool} {last : Char} {cs : Text}
    (whole : cs.length = numberLength hexadecimal last cs) : '\n' ∉ cs := by
  fun_induction numberLength hexadecimal last cs with
  | case1 => simp
  | case2 last c cs goes ih =>
    have other : '\n' ≠ c := by
      rintro rfl
      cases hexadecimal <;> simp [continuesNumber, Text.isAsciiAlphanumeric] at goes
    simpa [other] using ih (by simpa using whole)
  | case3 last c cs stops => simp at whole

private theorem getLast?_cons_of_some {c last : Char} {cs : Text}
    (found : cs.getLast? = some last) : (c :: cs).getLast? = some last := by
  cases cs with
  | nil => cases found
  | cons d rest => rwa [List.getLast?_cons_cons]

/-- How comments and literals end. -/
theorem Stands.getLast? {token : Token} {rest : Text} (stands : token.Stands rest) :
    (token.kind = .literal → ∃ c cs, token.text = c :: cs ∧ (c = '"' ∨ c = '\'' ∨ c = '\x60') ∧
      token.text.getLast? = some c) ∧
    (token.kind = .comment → (∃ cs, token.text = '/' :: '/' :: cs ∧ '\n' ∉ cs) ∨
      token.text.getLast? = some '/') := by
  obtain ⟨c, cs, spelled, takes⟩ := stands.takes
  rw [spelled]
  constructor
  · intro literal
    rw [literal] at takes
    refine ⟨c, cs, rfl, ?_⟩
    rcases takes with ⟨quote, closed⟩ | ⟨rfl, closed⟩
    · exact ⟨quote.imp_right .inl, getLast?_cons_of_some (getLast?_of_quotedLength closed)⟩
    · exact ⟨.inr (.inr rfl), getLast?_cons_of_some (getLast?_of_rawLength closed)⟩
  · intro comment
    rw [comment] at takes
    obtain ⟨rfl, ⟨slash, whole⟩ | ⟨star, m, closed, length⟩⟩ := takes
    · left
      have inLine := all_of_takeWhile whole
      cases cs with
      | nil => cases slash
      | cons d cs =>
        obtain rfl : d = '/' := by simpa using slash
        refine ⟨cs, rfl, fun newline => ?_⟩
        simpa using inLine _ (List.mem_cons_of_mem _ newline)
    · right
      cases cs with
      | nil => cases star
      | cons d cs =>
        obtain rfl : m = cs.length := by simpa using length.symm
        exact getLast?_cons_of_some (getLast?_cons_of_some (getLast?_of_commentLength closed))

theorem Stands.kind_of_mem_newline {token : Token} {rest : Text} (stands : token.Stands rest)
    (member : '\n' ∈ token.text) :
    token.kind = .blank ∨ token.kind = .comment ∨ token.kind = .literal := by
  obtain ⟨c, cs, spelled, takes⟩ := stands.takes
  have blank : Text.isBlank '\n' = true := by decide
  cases kind : token.kind with
  | blank => exact .inl rfl
  | comment => exact .inr (.inl rfl)
  | literal => exact .inr (.inr rfl)
  | word => exact absurd member (Word.newline_not_mem (stands.isSpelled kind))
  | number =>
    rw [kind] at takes
    rw [spelled] at member
    rcases List.mem_cons.1 member with rfl | inside
    · exact absurd (blank.symm.trans takes.1) (by decide)
    · exact absurd inside (not_mem_of_numberLength takes.2)
  | mark =>
    rw [kind] at takes
    rw [spelled, List.length_eq_zero_iff.1 takes.2] at member
    obtain rfl : '\n' = c := by simpa using member
    exact absurd (blank.symm.trans takes.1) (by decide)

theorem Stands.kind_of_newline {token : Token} {rest : Text} (stands : token.Stands rest)
    (newline : token.text.getLast? = some '\n') : token.kind = .blank := by
  have member : '\n' ∈ token.text := List.mem_of_getLast? newline
  obtain ⟨ofLiteral, ofComment⟩ := stands.getLast?
  rcases stands.kind_of_mem_newline member with blank | comment | literal
  · exact blank
  · rcases ofComment comment with ⟨inside, text, free⟩ | last
    · rw [text] at member
      simp [free] at member
    · rw [newline] at last
      simp at last
  · obtain ⟨quote, _, _, quotes, last⟩ := ofLiteral literal
    rw [newline] at last
    obtain rfl : '\n' = quote := by simpa using last
    simp at quotes

theorem Stands.getLast?_of_gap {token : Token} {rest : Text} {a : Char}
    (stands : token.Stands rest) (gap : token.kind = .blank ∨ token.kind = .comment)
    (first : rest.head? = some a) (start : Text.isWordStart a) :
    ∀ last ∈ token.text.getLast?, Text.isWordChar last = false := by
  intro last found
  rcases gap with blank | comment
  · have white := stands.all_isBlank blank last (List.mem_of_getLast? found)
    exact Text.not_isWordChar_of_isBlank white
  · rcases stands.getLast?.2 comment with ⟨inside, text, -⟩ | slash
    · -- A line comment would take in the word.
      have ends := (stands_iff.1 stands).2 a first
      have inLine : a ≠ '\n' := Text.ne_of_isWordStart start (by decide)
      simp [endsBefore, text, comment, goesOn, inLine] at ends
    · obtain rfl : '/' = last := by simpa [slash] using found
      decide

theorem Stands.unique {a b : Token} {rest other : Text} (first : a.Stands rest)
    (second : b.Stands other) (same : a.text ++ rest = b.text ++ other) :
    a = b ∧ rest = other := by
  obtain ⟨kind, text⟩ := a
  obtain ⟨kind', text'⟩ := b
  obtain ⟨c, cs, rfl, found⟩ := first
  obtain ⟨d, ds, rfl, found'⟩ := second
  dsimp only at same
  rw [List.cons_append, List.cons_append] at same
  obtain ⟨rfl, tail⟩ := List.cons.inj same
  rw [tail, found'] at found
  obtain ⟨rfl, length⟩ := Prod.mk.inj (Except.ok.inj found)
  obtain ⟨rfl, rfl⟩ := List.append_inj tail length.symm
  exact ⟨rfl, rfl⟩

theorem exists_of_stand_append {front tokens : List Token} {rest : Text} (stand : Stand front)
    (ends : ∀ last ∈ front.getLast?, ∀ next ∈ rest.head?, last.endsBefore next = true)
    (whole : Stand tokens) (same : texts tokens = texts front ++ rest) :
    ∃ more, tokens = front ++ more ∧ Stand more ∧ texts more = rest := by
  induction front generalizing tokens with
  | nil => exact ⟨tokens, rfl, whole, same⟩
  | cons token front ih =>
    obtain ⟨stands, later⟩ := stand
    obtain ⟨follows, ends'⟩ : token.Stands (texts front ++ rest) ∧
        ∀ last ∈ front.getLast?, ∀ next ∈ rest.head?, last.endsBefore next = true := by
      cases front with
      | nil => exact ⟨stands_iff.2 ⟨stands, ends token rfl⟩, by simp⟩
      | cons next front =>
        rw [List.getLast?_cons_cons] at ends
        exact ⟨stands.of_head? (head?_texts_of_stand later (List.cons_ne_nil _ _) rest), ends⟩
    cases tokens with
    | nil =>
      obtain ⟨c, cs, spelled, -⟩ := stands
      simp [texts, spelled] at same
    | cons first tokens =>
      obtain ⟨stands', whole'⟩ := whole
      rw [texts_cons, texts_cons, List.append_assoc] at same
      obtain ⟨rfl, tail⟩ := stands'.unique follows same
      obtain ⟨more, rfl, rest⟩ := ih later ends' whole' tail
      exact ⟨more, rfl, rest⟩

end Token

end Repackage
