import Mathlib.Data.List.TakeWhile
import Mathlib.Tactic.SplitIfs
import Repackage.Token

/-!
Where tokens end. Whether a token stands before a rest of the text is decided by the token and by
the first character of the rest, so a sequence of tokens is what its own text is read as exactly
when no token goes on with the first character of the next one.
-/

set_option autoImplicit false
set_option relaxedAutoImplicit false

namespace Repackage

namespace Text

private theorem le_toNat_of_isWordStart {c : Char} (start : isWordStart c) : 65 ≤ c.toNat := by
  simp only [isWordStart, isAlphabetic, Bool.or_eq_true, beq_iff_eq] at start
  rcases start with alpha | rfl
  · split_ifs at alpha with low
    · have letter : (c.isUpper || c.isLower) = true := alpha
      rcases Bool.or_eq_true_iff.1 letter with upper | lower
      · have bounds : 'A' ≤ c ∧ c ≤ 'Z' := of_decide_eq_true upper
        exact UInt32.le_iff_toNat_le.1 bounds.1
      · have bound : 'a' ≤ c := of_decide_eq_true (Bool.and_eq_true_iff.1 lower).1
        exact le_trans (by decide : 65 ≤ 97) (UInt32.le_iff_toNat_le.1 bound)
    · omega
  · decide

theorem not_isDigit_of_isWordStart {c : Char} (start : isWordStart c) : c.isDigit = false := by
  rw [Bool.eq_false_iff]
  intro digit
  simp only [Char.isDigit, Bool.and_eq_true, decide_eq_true_eq, ge_iff_le,
    UInt32.le_iff_toNat_le] at digit
  have code : c.toNat = c.val.toNat := rfl
  have nine : '9'.val.toNat = 57 := rfl
  have bound := le_toNat_of_isWordStart start
  omega

private theorem blankRanges_apart :
    ∀ blank ∈ blankRanges, blank.2 < 65 ∨ 127 < blank.1 ∧
      ∀ range ∈ alphabeticRanges, range.2 < blank.1 ∨ blank.2 < range.1 := by
  decide +kernel

theorem not_isBlank_of_isWordStart {c : Char} (start : isWordStart c) : isBlank c = false := by
  rw [Bool.eq_false_iff]
  intro blank
  obtain ⟨range, member, within⟩ := List.any_eq_true.1 blank
  simp only [Bool.and_eq_true, decide_eq_true_eq] at within
  rcases blankRanges_apart range member with low | ⟨high, apart⟩
  · have bound := le_toNat_of_isWordStart start
    omega
  · simp only [isWordStart, isAlphabetic, Bool.or_eq_true, beq_iff_eq] at start
    rcases start with alpha | rfl
    · rw [if_neg (by omega)] at alpha
      obtain ⟨other, found, also⟩ := List.any_eq_true.1 alpha
      simp only [Bool.and_eq_true, decide_eq_true_eq] at also
      have := apart other found
      omega
    · have code : '_'.toNat = 95 := rfl
      omega

theorem isWordChar_of_isWordStart {c : Char} (start : isWordStart c) : isWordChar c := by
  simp only [isWordStart, isWordChar, Bool.or_eq_true] at start ⊢
  exact start.imp_left .inl

theorem ne_of_isWordStart {c other : Char} (start : isWordStart c)
    (never : isWordStart other = false) : c ≠ other := by
  rintro rfl
  simp [start] at never

end Text

namespace Token

/-- Whether a character right after a token of a class, whose text is `c :: cs`, would belong to
the token. -/
def goesOn (kind : Kind) (c : Char) (cs : Text) (next : Char) : Bool :=
  match kind with
  | .word => Text.isWordChar next
  | .literal => false
  | .comment => cs.head? == some '/' && next != '\n'
  | .blank => Text.isBlank next
  | .number => continuesNumber (isHexadecimal c cs.head?) (cs.getLastD c) next
  | .mark => (c == '/' && (next == '/' || next == '*')) || (c == '.' && next.isDigit)

private theorem takeWhile_append_length_iff {p : Char → Bool} {cs rest : Text} :
    ((cs ++ rest).takeWhile p).length = cs.length ↔
      (cs.takeWhile p).length = cs.length ∧ ∀ next ∈ rest.head?, p next = false := by
  induction cs with
  | nil =>
    cases rest with
    | nil => simp
    | cons next rest => cases stops : p next <;> simp [stops]
  | cons c cs ih => cases goes : p c <;> simp [goes, ih]

private theorem numberLength_append_iff {hexadecimal : Bool} {last : Char} {cs rest : Text} :
    numberLength hexadecimal last (cs ++ rest) = cs.length ↔
      numberLength hexadecimal last cs = cs.length ∧
        ∀ next ∈ rest.head?, continuesNumber hexadecimal (cs.getLastD last) next = false := by
  induction cs generalizing last with
  | nil =>
    cases rest with
    | nil => simp [numberLength]
    | cons next rest =>
      cases stops : continuesNumber hexadecimal last next <;> simp [numberLength, stops]
  | cons c cs ih =>
    cases goes : continuesNumber hexadecimal last c with
    | false => simp [numberLength, goes]
    | true =>
      rw [List.getLastD_cons]
      have later := @ih c
      simpa [numberLength, goes] using later

private theorem rawLength_append_iff {cs rest : Text} :
    rawLength (cs ++ rest) = some cs.length ↔ rawLength cs = some cs.length := by
  induction cs with
  | nil =>
    cases rest with
    | nil => simp
    | cons next rest => by_cases ends : next = '\x60' <;> simp [rawLength, ends]
  | cons c cs ih => by_cases ends : c = '\x60' <;> simp [rawLength, ends, ih]

private theorem commentLength_append_iff {cs rest : Text} :
    commentLength (cs ++ rest) = some cs.length ↔ commentLength cs = some cs.length := by
  induction cs with
  | nil =>
    cases rest with
    | nil => simp
    | cons next rest =>
      by_cases ends : next = '*' ∧ rest.head? = some '/' <;> simp [commentLength, ends]
  | cons c cs ih =>
    cases cs with
    | nil =>
      by_cases ends : c = '*' ∧ rest.head? = some '/'
      · simp [commentLength, ends]
      · simpa [commentLength, ends] using ih
    | cons d ds =>
      by_cases ends : c = '*' ∧ d = '/'
      · simp [commentLength, ends]
      · simpa [commentLength, ends] using ih

theorem quotedLength_cons (quote c : Char) (cs : Text) :
    quotedLength quote (c :: cs) =
      if c = '\n' then none
      else if c = '\\' then (cs.tail? >>= quotedLength quote).map (· + 2)
      else if c = quote then some 1
      else (quotedLength quote cs).map (· + 1) := by
  rw [quotedLength.eq_def]
  cases cs <;> simp

private theorem quotedLength_append_iff {quote : Char} {cs rest : Text} :
    quotedLength quote (cs ++ rest) = some cs.length ↔
      quotedLength quote cs = some cs.length := by
  fun_induction quotedLength quote cs with
  | case1 =>
    cases rest with
    | nil => simp [quotedLength]
    | cons next rest =>
      rw [List.nil_append, quotedLength_cons]
      split_ifs <;> simp [Option.bind_eq_some_iff]
  | case2 cs => simp [quotedLength_cons]
  | case3 bare => cases rest <;> simp [quotedLength_cons]
  | case4 bare escaped rest' ih => simp [quotedLength_cons, ih]
  | case5 cs bare notEscape => simp [quotedLength_cons, bare, notEscape]
  | case6 c cs bare notEscape notQuote ih =>
    simp [quotedLength_cons, bare, notEscape, notQuote, ih]

private theorem delimited_append_iff {c : Char} {cs rest : Text} {kind : Kind}
    {what : Delimited} {found alone : Option Nat} :
    (found = some cs.length ↔ alone = some cs.length) →
    ((match found with
      | some n => .ok (.literal, n)
      | none => .error what : Except Delimited (Kind × Nat)) = .ok (kind, cs.length) ↔
    (match alone with
      | some n => .ok (.literal, n)
      | none => .error what : Except Delimited (Kind × Nat)) = .ok (kind, cs.length) ∧
      ∀ next ∈ rest.head?, goesOn kind c cs next = false) := by
  intro same
  have ends : Kind.literal = kind → ∀ next ∈ rest.head?, goesOn kind c cs next = false := by
    rintro rfl next -
    rfl
  cases found <;> cases alone <;> simp at same ⊢ <;> grind

private theorem number_append_iff {c : Char} {cs rest : Text} :
    numberLength (isHexadecimal c (cs ++ rest).head?) c (cs ++ rest) = cs.length ↔
      numberLength (isHexadecimal c cs.head?) c cs = cs.length ∧
        ∀ next ∈ rest.head?, goesOn .number c cs next = false := by
  cases cs with
  | cons d ds => exact numberLength_append_iff
  | nil =>
    cases rest with
    | nil => simp
    | cons next rest =>
      -- Only `x` makes the number hexadecimal, and it goes on with the number either way.
      have same : continuesNumber (isHexadecimal c (some next)) c next =
          continuesNumber (isHexadecimal c none) c next := by
        by_cases x : next = 'x' ∨ next = 'X'
        · obtain rfl | rfl := x <;> rfl
        · have notHexadecimal : isHexadecimal c (some next) = false := by
            simp only [not_or] at x
            simp [isHexadecimal, x]
          rw [notHexadecimal]
          simp [isHexadecimal]
      cases goes : continuesNumber (isHexadecimal c none) c next <;>
        simp [numberLength, goesOn, same, goes]

private theorem ok_iff {found kind : Kind} {m n : Nat} :
    (.ok (found, m) : Except Delimited (Kind × Nat)) = .ok (kind, n) ↔ found = kind ∧ m = n := by
  simp

private theorem extent_slash (cs : Text) :
    extent '/' cs =
      if cs.head? = some '/' then .ok (.comment, (cs.takeWhile (· ≠ '\n')).length)
      else if cs.head? = some '*' then
        (commentLength cs.tail).elim (.error .blockComment) fun n => .ok (.comment, n + 1)
      else .ok (.mark, 0) := by
  have notBlank : Text.isBlank '/' = false := by decide
  have notStart : Text.isWordStart '/' = false := by decide
  cases found : commentLength cs.tail <;> simp [extent, notBlank, notStart, found]

private theorem extent_dot (cs : Text) :
    extent '.' cs =
      if cs.head?.any Char.isDigit then .ok (.number, numberLength false '.' cs)
      else .ok (.mark, 0) := by
  have notBlank : Text.isBlank '.' = false := by decide
  have notStart : Text.isWordStart '.' = false := by decide
  simp [extent, notBlank, notStart, isHexadecimal]

private theorem slash_append_iff {cs rest : Text} {kind : Kind} :
    extent '/' (cs ++ rest) = .ok (kind, cs.length) ↔
      extent '/' cs = .ok (kind, cs.length) ∧
        ∀ next ∈ rest.head?, goesOn kind '/' cs next = false := by
  rw [extent_slash, extent_slash]
  cases cs with
  | nil =>
    cases rest with
    | nil => simp
    | cons next rest =>
      by_cases line : next = '/'
      · subst line
        cases kind <;> simp [goesOn]
      by_cases block : next = '*'
      · subst block
        cases found : commentLength rest <;> cases kind <;> simp [goesOn, found]
      cases kind <;> simp [goesOn, line, block]
  | cons d ds =>
    by_cases line : d = '/'
    · subst line
      have ends := @takeWhile_append_length_iff (fun c => decide (c ≠ '\n')) ds rest
      cases kind <;> simp_all [goesOn]
    by_cases block : d = '*'
    · subst block
      have ends := @commentLength_append_iff ds rest
      cases longer : commentLength (ds ++ rest) <;> cases alone : commentLength ds <;>
        cases kind <;> simp_all [goesOn]
    simp [line, block]

private theorem dot_append_iff {cs rest : Text} {kind : Kind} :
    extent '.' (cs ++ rest) = .ok (kind, cs.length) ↔
      extent '.' cs = .ok (kind, cs.length) ∧
        ∀ next ∈ rest.head?, goesOn kind '.' cs next = false := by
  rw [extent_dot, extent_dot]
  cases cs with
  | nil =>
    cases rest with
    | nil => simp
    | cons next rest =>
      cases digit : next.isDigit with
      | true =>
        have goes : continuesNumber false '.' next = true := by
          simp [continuesNumber, Text.isAsciiAlphanumeric, digit]
        cases kind <;> simp [goesOn, digit, numberLength, goes]
      | false => cases kind <;> simp [goesOn, digit]
  | cons d ds =>
    have ends := @numberLength_append_iff false '.' (d :: ds) rest
    cases digit : d.isDigit <;> cases kind <;> simp_all [goesOn, isHexadecimal]

theorem extent_append_iff {c : Char} {cs rest : Text} {kind : Kind} :
    extent c (cs ++ rest) = .ok (kind, cs.length) ↔
      extent c cs = .ok (kind, cs.length) ∧ ∀ next ∈ rest.head?, goesOn kind c cs next = false := by
  by_cases slash : c = '/'
  · exact slash ▸ slash_append_iff
  by_cases dot : c = '.'
  · exact dot ▸ dot_append_iff
  have notDot : (c == '.') = false := by simpa using dot
  simp only [extent, slash, notDot, false_and, Bool.false_and, Bool.or_false, if_false]
  split_ifs
  · rw [ok_iff, ok_iff, takeWhile_append_length_iff, and_assoc]
    exact and_congr_right fun h => h ▸ Iff.rfl
  · exact delimited_append_iff quotedLength_append_iff
  · exact delimited_append_iff quotedLength_append_iff
  · exact delimited_append_iff rawLength_append_iff
  · rw [ok_iff, ok_iff, takeWhile_append_length_iff, and_assoc]
    exact and_congr_right fun h => h ▸ Iff.rfl
  · rw [ok_iff, ok_iff, number_append_iff, and_assoc]
    exact and_congr_right fun h => h ▸ Iff.rfl
  · rw [ok_iff]
    refine (and_iff_left_of_imp ?_).symm
    rintro ⟨rfl, -⟩ next -
    simp [goesOn, slash, notDot]

private theorem quotedLength_le {quote : Char} {cs : Text} {n : Nat}
    (found : quotedLength quote cs = some n) : n ≤ cs.length := by
  fun_induction quotedLength quote cs generalizing n with
  | case1 => cases found
  | case2 cs => cases found
  | case3 bare => cases found
  | case4 bare escaped rest ih =>
    obtain ⟨m, deeper, rfl⟩ := Option.map_eq_some_iff.1 found
    have bound := ih deeper
    simp only [List.length_cons]
    omega
  | case5 cs bare notEscape =>
    cases found
    simp
  | case6 c cs bare notEscape notQuote ih =>
    obtain ⟨m, deeper, rfl⟩ := Option.map_eq_some_iff.1 found
    simpa using ih deeper

private theorem rawLength_le {cs : Text} {n : Nat} (found : rawLength cs = some n) :
    n ≤ cs.length := by
  fun_induction rawLength cs generalizing n with
  | case1 => cases found
  | case2 cs =>
    cases found
    simp
  | case3 c cs open_ ih =>
    obtain ⟨m, deeper, rfl⟩ := Option.map_eq_some_iff.1 found
    simpa using ih deeper

private theorem commentLength_le {cs : Text} {n : Nat} (found : commentLength cs = some n) :
    n ≤ cs.length := by
  fun_induction commentLength cs generalizing n with
  | case1 => cases found
  | case2 c cs ends =>
    cases found
    cases cs <;> simp at ends ⊢
  | case3 c cs goes ih =>
    obtain ⟨m, deeper, rfl⟩ := Option.map_eq_some_iff.1 found
    simpa using ih deeper

private theorem numberLength_le (hexadecimal : Bool) (last : Char) (cs : Text) :
    numberLength hexadecimal last cs ≤ cs.length := by
  fun_induction numberLength hexadecimal last cs with
  | case1 => simp
  | case2 last c cs goes ih => simpa using ih
  | case3 last c cs stops => simp

theorem extent_le {c : Char} {cs : Text} {kind : Kind} {n : Nat}
    (found : extent c cs = .ok (kind, n)) : n ≤ cs.length := by
  have inside (p : Char → Bool) : (cs.takeWhile p).length ≤ cs.length :=
    (List.takeWhile_sublist p).length_le
  simp only [extent] at found
  split_ifs at found with line block
  · cases found
    exact inside _
  · split at found <;> cases found
    next n closed =>
      have bound := commentLength_le closed
      cases cs with
      | nil => simp at block
      | cons d ds => simpa using bound
  · cases found
    exact inside _
  · split at found <;> cases found
    next closed => exact quotedLength_le closed
  · split at found <;> cases found
    next closed => exact quotedLength_le closed
  · split at found <;> cases found
    next closed => exact rawLength_le closed
  · cases found
    exact inside _
  · cases found
    exact numberLength_le _ _ _
  · cases found
    exact Nat.zero_le _

def Stands (token : Token) (rest : Text) : Prop :=
  ∃ c cs, token.text = c :: cs ∧ extent c (cs ++ rest) = .ok (token.kind, cs.length)

def Stand : List Token → Prop
  | [] => True
  | token :: tokens => token.Stands (texts tokens) ∧ Stand tokens

theorem exists_stands_of_mem {tokens : List Token} (stand : Stand tokens) {token : Token}
    (member : token ∈ tokens) : ∃ rest, token.Stands rest := by
  induction tokens with
  | nil => cases member
  | cons first tokens ih =>
    rcases List.mem_cons.1 member with rfl | later
    · exact ⟨_, stand.1⟩
    · exact ih stand.2 later

/-- The tokens of a text are exactly those that concatenate to it and stand in it. -/
theorem lexFrom_eq_ok_iff {line : Nat} {text : Text} {tokens : List Token} :
    lexFrom line text = .ok tokens ↔ texts tokens = text ∧ Stand tokens := by
  constructor
  · intro read
    refine ⟨texts_lexFrom read, ?_⟩
    fun_induction lexFrom line text generalizing tokens with
    | case1 line =>
      cases read
      trivial
    | case2 line c cs what failed => cases read
    | case3 line c cs kind n found e failed ih => cases read
    | case4 line c cs kind n found rest lexed ih =>
      cases read
      refine ⟨⟨c, cs.take n, rfl, ?_⟩, ih lexed⟩
      rw [texts_lexFrom lexed, List.take_append_drop, List.length_take,
        Nat.min_eq_left (extent_le found), found]
  · rintro ⟨rfl, stand⟩
    induction tokens generalizing line with
    | nil => simp [texts, lexFrom]
    | cons token tokens ih =>
      obtain ⟨⟨c, cs, spelled, found⟩, stand⟩ := stand
      have text : texts (token :: tokens) = c :: (cs ++ texts tokens) := by
        simp [texts, spelled]
      rw [text, lexFrom, found]
      simp only [List.take_left, List.drop_left, ih stand, ← spelled]

theorem extent_of_isWordStart {c : Char} (cs : Text) (start : Text.isWordStart c) :
    extent c cs = .ok (.word, (cs.takeWhile Text.isWordChar).length) := by
  have slash : c ≠ '/' := Text.ne_of_isWordStart start (by decide)
  have quote : c ≠ '"' := Text.ne_of_isWordStart start (by decide)
  have tick : c ≠ '\'' := Text.ne_of_isWordStart start (by decide)
  have raw : c ≠ '\x60' := Text.ne_of_isWordStart start (by decide)
  simp [extent, slash, quote, tick, raw, Text.not_isBlank_of_isWordStart start, start]

theorem Stands.of_spelled {word rest : Text} (spelled : Word.isSpelled word)
    (ends : ∀ next ∈ rest.head?, Text.isWordChar next = false) : Stands ⟨.word, word⟩ rest := by
  cases word with
  | nil => cases spelled
  | cons c cs =>
    simp only [Word.isSpelled, Bool.and_eq_true, List.all_eq_true] at spelled
    have whole : cs.takeWhile Text.isWordChar = cs := by
      exact List.takeWhile_eq_self_iff.2 spelled.2
    refine ⟨c, cs, rfl, ?_⟩
    rw [extent_append_iff, extent_of_isWordStart cs spelled.1, whole]
    exact ⟨rfl, ends⟩

theorem Stands.dot {rest : Text} (apart : ∀ next ∈ rest.head?, next.isDigit = false) :
    Stands ⟨.mark, ['.']⟩ rest := by
  refine ⟨'.', [], rfl, extent_append_iff.2 ⟨by simp [extent_dot], fun next found => ?_⟩⟩
  simpa [goesOn] using apart next found

private theorem isWordStart_of_extent {c : Char} {cs : Text} {n : Nat}
    (found : extent c cs = .ok (.word, n)) : Text.isWordStart c := by
  simp only [extent] at found
  split_ifs at found with line block blank string rune raw start
  · cases found
  · split at found <;> cases found
  · cases found
  · split at found <;> cases found
  · split at found <;> cases found
  · split at found <;> cases found
  · exact start
  · cases found
  · cases found

theorem Stands.isWordStart {token : Token} {rest : Text} (stands : token.Stands rest)
    (word : token.kind = .word) : ∃ c, token.text.head? = some c ∧ Text.isWordStart c := by
  obtain ⟨c, cs, spelled, found⟩ := stands
  rw [word] at found
  exact ⟨c, by simp [spelled], isWordStart_of_extent found⟩

theorem Stands.not_isWordChar {token : Token} {rest : Text} (stands : token.Stands rest)
    (word : token.kind = .word) : ∀ next ∈ rest.head?, Text.isWordChar next = false := by
  obtain ⟨c, cs, -, found⟩ := stands
  rw [word] at found
  exact (extent_append_iff.1 found).2

theorem Stands.of_head? {token : Token} {rest other : Text} (stands : token.Stands rest)
    (same : other.head? = rest.head?) : token.Stands other := by
  obtain ⟨c, cs, spelled, found⟩ := stands
  refine ⟨c, cs, spelled, extent_append_iff.2 ?_⟩
  rw [same]
  exact extent_append_iff.1 found

theorem Stands.of_isWordStart {token : Token} {rest other : Text} {a b : Char}
    (stands : token.Stands rest) (notNumber : token.kind ≠ .number)
    (first : rest.head? = some a) (start : Text.isWordStart a)
    (second : other.head? = some b) (also : Text.isWordStart b) : token.Stands other := by
  obtain ⟨c, cs, spelled, found⟩ := stands
  obtain ⟨alone, ends⟩ := extent_append_iff.1 found
  refine ⟨c, cs, spelled, extent_append_iff.2 ⟨alone, fun next found => ?_⟩⟩
  obtain rfl : b = next := by simpa [second] using found
  have ended := ends a first
  cases kind : token.kind with
  | word => simp [goesOn, kind, Text.isWordChar_of_isWordStart start] at ended
  | literal => rfl
  | comment =>
    have inLine : a ≠ '\n' := Text.ne_of_isWordStart start (by decide)
    simp_all [goesOn]
  | blank => exact Text.not_isBlank_of_isWordStart also
  | number => exact absurd kind notNumber
  | mark =>
    have slash : b ≠ '/' := Text.ne_of_isWordStart also (by decide)
    have star : b ≠ '*' := Text.ne_of_isWordStart also (by decide)
    simp [goesOn, slash, star, Text.not_isDigit_of_isWordStart also]

end Token

end Repackage
