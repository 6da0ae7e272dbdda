import Repackage.Proofs.TokenShapes

/-!
Characters that open nothing. A token that starts with a letter, a digit, a dot or a sign has only
such characters, and its end is never missing. So whatever row of them stands at the start of a
text, the text can be read exactly when the rest of it can.
-/

set_option autoImplicit false
set_option relaxedAutoImplicit false

namespace Repackage

namespace Text

def isInert (c : Char) : Bool :=
  isWordChar c || c == '.' || c == '+' || c == '-'

theorem isInert_of_isWordChar {c : Char} (char : isWordChar c) : isInert c := by
  simp [isInert, char]

private theorem toNat_lt_of_isAlpha {c : Char} (alpha : c.isAlpha) : c.toNat < 128 := by
  have letter : (c.isUpper || c.isLower) = true := alpha
  rcases Bool.or_eq_true_iff.1 letter with upper | lower
  · have bounds : 'A' ≤ c ∧ c ≤ 'Z' := of_decide_eq_true upper
    exact lt_of_le_of_lt (UInt32.le_iff_toNat_le.1 bounds.2) (by decide : 90 < 128)
  · have bound : c ≤ 'z' := of_decide_eq_true (Bool.and_eq_true_iff.1 lower).2
    exact lt_of_le_of_lt (UInt32.le_iff_toNat_le.1 bound) (by decide : 122 < 128)

private theorem toNat_lt_of_isDigit {c : Char} (digit : c.isDigit) : c.toNat < 128 := by
  have bound : c ≤ '9' := of_decide_eq_true (Bool.and_eq_true_iff.1 digit).2
  exact lt_of_le_of_lt (UInt32.le_iff_toNat_le.1 bound) (by decide : 57 < 128)

theorem isWordChar_of_isAsciiAlphanumeric {c : Char} (char : isAsciiAlphanumeric c) :
    isWordChar c := by
  rw [isAsciiAlphanumeric, Bool.or_eq_true] at char
  rcases char with alpha | digit
  · simp [isWordChar, isAlphabetic, toNat_lt_of_isAlpha alpha, alpha]
  · simp [isWordChar, isNumeric, toNat_lt_of_isDigit digit, digit]

theorem isWordChar_of_isDigit {c : Char} (digit : c.isDigit) : isWordChar c :=
  isWordChar_of_isAsciiAlphanumeric (by simp [isAsciiAlphanumeric, digit])

theorem not_isBlank_of_isInert {c : Char} (inert : isInert c) : isBlank c = false := by
  rw [Bool.eq_false_iff]
  intro blank
  simp only [isInert, not_isWordChar_of_isBlank blank, Bool.false_or, Bool.or_eq_true,
    beq_iff_eq] at inert
  obtain (rfl | rfl) | rfl := inert <;> exact absurd blank (by decide)

theorem ne_of_isInert {c other : Char} (inert : isInert c) (never : isInert other = false) :
    c ≠ other := by
  rintro rfl
  rw [inert] at never
  cases never

end Text

theorem Word.isWordChar_of_isSpelled {word : Text} (spelled : isSpelled word) :
    ∀ c ∈ word, Text.isWordChar c := by
  cases word with
  | nil => cases spelled
  | cons c cs =>
    rw [isSpelled, Bool.and_eq_true, List.all_eq_true] at spelled
    exact List.forall_mem_cons.2 ⟨Text.isWordChar_of_isWordStart spelled.1, spelled.2⟩

namespace Token

private theorem isInert_of_continuesNumber {hexadecimal : Bool} {last c : Char}
    (goes : continuesNumber hexadecimal last c) : Text.isInert c := by
  simp only [continuesNumber, Bool.or_eq_true, Bool.and_eq_true, beq_iff_eq] at goes
  rcases goes with ((char | rfl) | rfl) | ⟨rfl | rfl, -⟩
  · exact Text.isInert_of_isWordChar (Text.isWordChar_of_isAsciiAlphanumeric char)
  · decide
  · decide
  · decide
  · decide

private theorem isInert_of_mem_take_numberLength (hexadecimal : Bool) (last : Char) (cs : Text) :
    ∀ d ∈ cs.take (numberLength hexadecimal last cs), Text.isInert d := by
  fun_induction numberLength hexadecimal last cs with
  | case1 => simp
  | case2 last c cs goes ih =>
    rw [List.take_succ_cons]
    exact List.forall_mem_cons.2 ⟨isInert_of_continuesNumber goes, ih⟩
  | case3 last c cs stops => simp

theorem extent_of_isInert {c : Char} (inert : Text.isInert c) (cs : Text) :
    ∃ kind n, extent c cs = .ok (kind, n) ∧ (kind = .word ∨ kind = .number ∨ kind = .mark) ∧
      ∀ d ∈ cs.take n, Text.isInert d := by
  have slash : c ≠ '/' := Text.ne_of_isInert inert (by decide)
  have quote : c ≠ '"' := Text.ne_of_isInert inert (by decide)
  have tick : c ≠ '\'' := Text.ne_of_isInert inert (by decide)
  have raw : c ≠ '\x60' := Text.ne_of_isInert inert (by decide)
  simp only [extent, slash, quote, tick, raw, Text.not_isBlank_of_isInert inert, false_and,
    if_false, Bool.false_eq_true]
  split_ifs
  · refine ⟨_, _, rfl, .inl rfl, fun d member => ?_⟩
    rw [← List.prefix_iff_eq_take.1 (List.takeWhile_prefix _)] at member
    exact Text.isInert_of_isWordChar (List.mem_takeWhile_imp member)
  · exact ⟨_, _, rfl, .inr (.inl rfl), isInert_of_mem_take_numberLength _ _ _⟩
  · exact ⟨_, _, rfl, .inr (.inr rfl), by simp⟩

def IsReadable (text : Text) : Prop :=
  ∃ tokens, texts tokens = text ∧ Stand tokens

theorem isReadable_cons_iff {c : Char} {cs : Text} {kind : Kind} {n : Nat}
    (found : extent c cs = .ok (kind, n)) : IsReadable (c :: cs) ↔ IsReadable (cs.drop n) := by
  constructor
  · rintro ⟨tokens, same, stand⟩
    cases tokens with
    | nil => cases same
    | cons token tokens =>
      obtain ⟨⟨d, ds, spelled, first⟩, rest⟩ := stand
      rw [texts, List.flatMap_cons, spelled, List.cons_append] at same
      obtain ⟨rfl, rfl⟩ := List.cons.inj same
      obtain ⟨-, rfl⟩ := Prod.mk.inj (Except.ok.inj (found.symm.trans first))
      exact ⟨tokens, by rw [List.drop_left]; rfl, rest⟩
  · rintro ⟨tokens, same, stand⟩
    refine ⟨⟨kind, c :: cs.take n⟩ :: tokens, ?_, ⟨c, cs.take n, rfl, ?_⟩, stand⟩
    · rw [texts_cons, same, List.cons_append, List.take_append_drop]
    · rw [same, List.take_append_drop, List.length_take, Nat.min_eq_left (extent_le found), found]

private theorem isReadable_dropWhile_iff (text : Text) :
    IsReadable (text.dropWhile Text.isInert) ↔ IsReadable text := by
  induction size : text.length using Nat.strong_induction_on generalizing text with
  | _ n ih =>
    cases text with
    | nil => rfl
    | cons c cs =>
      cases inert : Text.isInert c with
      | false => rw [List.dropWhile_cons_of_neg (by simp [inert])]
      | true =>
        obtain ⟨kind, m, found, -, own⟩ := extent_of_isInert inert cs
        have shorter : (cs.drop m).length < n := by
          rw [← size, List.length_drop, List.length_cons]
          omega
        have row : cs.dropWhile Text.isInert = (cs.drop m).dropWhile Text.isInert := by
          have whole : (cs.take m ++ cs.drop m).dropWhile Text.isInert =
              (cs.drop m).dropWhile Text.isInert := List.dropWhile_append_of_pos own
          rwa [List.take_append_drop] at whole
        rw [List.dropWhile_cons_of_pos inert, row, isReadable_cons_iff found]
        exact ih _ shorter (cs.drop m) rfl

theorem isReadable_append_iff {row : Text} (inert : ∀ c ∈ row, Text.isInert c) (text : Text) :
    IsReadable (row ++ text) ↔ IsReadable text := by
  rw [← isReadable_dropWhile_iff, List.dropWhile_append_of_pos inert, isReadable_dropWhile_iff]

theorem Stands.kind_of_isInert {token : Token} {rest : Text} (stands : token.Stands rest)
    (inert : ∀ c ∈ token.text.head?, Text.isInert c) :
    token.kind = .word ∨ token.kind = .number ∨ token.kind = .mark := by
  obtain ⟨c, cs, spelled, found⟩ := stands
  obtain ⟨kind, n, also, solid, -⟩ := extent_of_isInert (inert c (by simp [spelled])) (cs ++ rest)
  obtain ⟨rfl, -⟩ := Prod.mk.inj (Except.ok.inj (found.symm.trans also))
  exact solid

theorem exists_lex_of_inert {text : Text} (inert : ∀ c ∈ text, Text.isInert c) :
    ∃ tokens, lex text = .ok tokens ∧
      ∀ token ∈ tokens, token.kind = .word ∨ token.kind = .number ∨ token.kind = .mark := by
  have empty : IsReadable [] := ⟨[], rfl, trivial⟩
  obtain ⟨tokens, same, stand⟩ := (isReadable_append_iff inert []).2 empty
  rw [List.append_nil] at same
  refine ⟨tokens, lexFrom_eq_ok_iff.2 ⟨same, stand⟩, fun token member => ?_⟩
  obtain ⟨rest, stands⟩ := exists_stands_of_mem stand member
  refine stands.kind_of_isInert fun c first => inert c ?_
  rw [← same]
  exact List.mem_flatMap.2 ⟨token, member, List.mem_of_mem_head? first⟩

theorem endsBefore_blank {token : Token} {c : Char}
    (kind : token.kind = .word ∨ token.kind = .number ∨ token.kind = .mark)
    (blank : Text.isBlank c) : token.endsBefore c = true := by
  have notWord := Text.not_isWordChar_of_isBlank blank
  have notNumber (hexadecimal : Bool) (last : Char) :
      continuesNumber hexadecimal last c = false := by
    rw [Bool.eq_false_iff]
    intro goes
    rw [Text.not_isBlank_of_isInert (isInert_of_continuesNumber goes)] at blank
    cases blank
  have slash : c ≠ '/' := by
    rintro rfl
    exact absurd blank (by decide)
  have star : c ≠ '*' := by
    rintro rfl
    exact absurd blank (by decide)
  have digit : c.isDigit = false := by
    rw [Bool.eq_false_iff]
    intro digit
    rw [Text.isWordChar_of_isDigit digit] at notWord
    cases notWord
  unfold endsBefore
  split
  · rfl
  next first rest spelled =>
    rw [Bool.not_eq_true']
    rcases kind with word | number | mark
    · rw [word]
      exact notWord
    · rw [number]
      exact notNumber _ _
    · simp [goesOn, mark, slash, star, digit]

end Token

end Repackage
