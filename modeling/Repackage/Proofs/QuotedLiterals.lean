import Repackage.Proofs.Slices

/-!
Where quoted literals end. A backslash takes any character along, so what stands between the quotes
of a literal has a line end exactly when some backslash takes one, and a text is read as if every
literal left open at a line end were reported exactly when none of its literals does that.
-/

set_option autoImplicit false
set_option relaxedAutoImplicit false

namespace Repackage

namespace Text

def bare : Text → Text
  | [] => []
  | c :: cs =>
    if c = '\\' then
      match cs with
      | [] => ['\\']
      | _ :: rest => bare rest
    else c :: bare cs

def escaped : Text → Text
  | [] => []
  | c :: cs =>
    if c = '\\' then
      match cs with
      | [] => []
      | d :: rest => d :: escaped rest
    else escaped cs

@[simp]
theorem bare_escape (c : Char) (cs : Text) : bare ('\\' :: c :: cs) = bare cs := by
  rw [bare.eq_def]
  simp

@[simp]
theorem escaped_escape (c : Char) (cs : Text) :
    escaped ('\\' :: c :: cs) = c :: escaped cs := by
  rw [escaped.eq_def]
  simp

private theorem bare_cons {c : Char} (plain : c ≠ '\\') (cs : Text) : bare (c :: cs) = c :: bare
    cs := by
  rw [bare.eq_def]
  simp [plain]

private theorem escaped_cons {c : Char} (plain : c ≠ '\\') (cs : Text) :
    escaped (c :: cs) = escaped cs := by
  rw [escaped.eq_def]
  simp [plain]

private theorem bare_append {a : Text} (whole : '\\' ∉ bare a) (b : Text) :
    bare (a ++ b) = bare a ++ bare b := by
  fun_induction bare a with
  | case1 => rfl
  | case2 => simp at whole
  | case3 c rest ih => simpa using ih whole
  | case4 c cs plain ih =>
    have later : '\\' ∉ bare cs := fun inside => whole (List.mem_cons_of_mem _ inside)
    rw [List.cons_append, bare_cons plain, ih later, List.cons_append]

private theorem mem_bare_append {c : Char} {a : Text} (member : c ∈ bare a) (plain : c ≠ '\\')
    (b : Text) : c ∈ bare (a ++ b) := by
  fun_induction bare a with
  | case1 => cases member
  | case2 => exact absurd (by simpa using member) plain
  | case3 d rest ih => simpa using ih member
  | case4 d cs other ih =>
    rw [List.cons_append, bare_cons other]
    rcases List.mem_cons.1 member with rfl | later
    · exact List.mem_cons_self
    · exact List.mem_cons_of_mem _ (ih later)

private theorem mem_of_mem_escaped {c : Char} {a : Text} (member : c ∈ escaped a) : c ∈ a := by
  fun_induction escaped a with
  | case1 => cases member
  | case2 => cases member
  | case3 d rest ih =>
    rcases List.mem_cons.1 member with rfl | later
    · simp
    · simp [ih later]
  | case4 d cs plain ih => exact List.mem_cons_of_mem _ (ih member)

private theorem mem_bare_or_escaped {c : Char} {a : Text} (member : c ∈ a) (plain : c ≠ '\\') :
    c ∈ bare a ∨ c ∈ escaped a := by
  fun_induction bare a with
  | case1 => cases member
  | case2 => exact absurd (by simpa using member) plain
  | case3 d rest ih =>
    rw [escaped_escape, List.mem_cons]
    rcases List.mem_cons.1 member with rfl | later
    · exact absurd rfl plain
    · rcases List.mem_cons.1 later with rfl | inside
      · exact .inr (.inl rfl)
      · exact (ih inside).imp_right .inr
  | case4 d cs other ih =>
    rw [escaped_cons other, List.mem_cons]
    rcases List.mem_cons.1 member with rfl | later
    · exact .inl (.inl rfl)
    · exact (ih later).imp_left .inr

end Text

namespace Token

def IsContents (quote : Char) (cs : Text) : Prop :=
  '\\' ∉ Text.bare cs ∧ '\n' ∉ Text.bare cs ∧ quote ∉ Text.bare cs

private theorem isContents_nil (quote : Char) : IsContents quote [] := by
  simp [IsContents, Text.bare]

private theorem isContents_escape {quote : Char} (c : Char) {cs : Text} :
    IsContents quote ('\\' :: c :: cs) ↔ IsContents quote cs := by
  simp [IsContents]

private theorem isContents_cons {quote c : Char} {cs : Text} (plain : c ≠ '\\') :
    IsContents quote (c :: cs) ↔ c ≠ '\n' ∧ c ≠ quote ∧ IsContents quote cs := by
  simp only [IsContents, Text.bare_cons plain, List.mem_cons, not_or]
  grind

variable {quote : Char}

private theorem quotedLength_append {contents : Text} (inside : IsContents quote contents)
    (rest : Text) : quotedLength quote (contents ++ rest) =
      (quotedLength quote rest).map (· + contents.length) := by
  fun_induction Text.bare contents with
  | case1 => simp
  | case2 => simp [IsContents, Text.bare] at inside
  | case3 c cs ih =>
    rw [List.cons_append, List.cons_append, quotedLength_cons]
    simp only [List.tail?_cons, Option.bind_eq_bind, Option.bind_some]
    rw [ih ((isContents_escape c).1 inside)]
    simp [Function.comp_def, Nat.add_assoc]
  | case4 c cs plain ih =>
    obtain ⟨bare, notQuote, later⟩ := (isContents_cons plain).1 inside
    rw [List.cons_append, quotedLength_cons, if_neg bare, if_neg plain, if_neg notQuote, ih later]
    simp [Function.comp_def, Nat.add_assoc]

private theorem exists_contents_of_quotedLength {cs : Text} {n : Nat}
    (found : quotedLength quote cs = some n) :
    ∃ contents rest, cs = contents ++ quote :: rest ∧ n = contents.length + 1 ∧
      IsContents quote contents := by
  fun_induction quotedLength quote cs generalizing n with
  | case1 => cases found
  | case2 cs => cases found
  | case3 bare => cases found
  | case4 c cs bare ih =>
    obtain ⟨m, deeper, rfl⟩ := Option.map_eq_some_iff.1 found
    obtain ⟨contents, rest, rfl, rfl, inside⟩ := ih deeper
    exact ⟨'\\' :: c :: contents, rest, rfl, by simp, (isContents_escape c).2 inside⟩
  | case5 cs bare notEscape =>
    cases found
    exact ⟨[], cs, rfl, rfl, isContents_nil _⟩
  | case6 c cs bare notEscape notQuote ih =>
    obtain ⟨m, deeper, rfl⟩ := Option.map_eq_some_iff.1 found
    obtain ⟨contents, rest, rfl, rfl, inside⟩ := ih deeper
    exact ⟨c :: contents, rest, rfl, by simp,
      (isContents_cons notEscape).2 ⟨bare, notQuote, inside⟩⟩

def StandBefore : List Token → Text → Prop
  | [], _ => True
  | token :: tokens, rest => token.Stands (texts tokens ++ rest) ∧ StandBefore tokens rest

private theorem standBefore_append_iff {a b : List Token} {rest : Text} :
    StandBefore (a ++ b) rest ↔ StandBefore a (texts b ++ rest) ∧ StandBefore b rest := by
  induction a with
  | nil => simp [StandBefore]
  | cons token a ih =>
    rw [List.cons_append, StandBefore, StandBefore, ih, texts_append, List.append_assoc, and_assoc]

private theorem standBefore_texts_iff {a b : List Token} :
    StandBefore a (texts b) ∧ Stand b ↔ Stand (a ++ b) := by
  induction a with
  | nil => simp [StandBefore]
  | cons token a ih =>
    rw [List.cons_append, StandBefore, Stand, texts_append, and_assoc, ih]

private theorem lexFrom_append {front : List Token} {rest : Text} (stand : StandBefore front rest)
    (line : Nat) :
    lexFrom line (texts front ++ rest) =
      (lexFrom (line + newlines front) rest).map (front ++ ·) := by
  induction front generalizing line with
  | nil =>
    cases read : lexFrom line rest <;>
      simp [texts, newlines, Text.newlines, read, Except.map]
  | cons token front ih =>
    obtain ⟨⟨c, cs, spelled, found⟩, later⟩ := stand
    have lines : line + newlines (token :: front) =
        line + Text.newlines (c :: cs) + newlines front := by
      simp only [newlines, texts_cons, Text.newlines_append, spelled, Nat.add_assoc]
    have text : texts (token :: front) ++ rest = c :: (cs ++ (texts front ++ rest)) := by
      simp only [texts_cons, spelled, List.cons_append, List.append_assoc]
    rw [text, lexFrom, found, lines]
    simp only [List.take_left, List.drop_left, ih later]
    cases lexFrom (line + Text.newlines (c :: cs) + newlines front) rest with
    | error cause => rfl
    | ok more => simp only [Except.map, List.cons_append, ← spelled]

end Token

def Delimited.quote? : Delimited → Option Char
  | .stringLiteral => some '"'
  | .runeLiteral => some '\''
  | .blockComment | .rawString => none

namespace Token

variable {quote : Char}

private theorem extent_quote {what : Delimited} (opens : what.quote? = some quote) (cs : Text) :
    extent quote cs =
      (quotedLength quote cs).elim (.error what) fun n => .ok (.literal, n) := by
  have notBlank : Text.isBlank '"' = false ∧ Text.isBlank '\'' = false := by decide
  cases what with
  | blockComment => cases opens
  | rawString => cases opens
  | stringLiteral =>
    obtain rfl : '"' = quote := Option.some.inj opens
    cases found : quotedLength '"' cs <;> simp [extent, notBlank, found]
  | runeLiteral =>
    obtain rfl : '\'' = quote := Option.some.inj opens
    cases found : quotedLength '\'' cs <;> simp [extent, notBlank, found]

def IsQuoted (quote : Char) (token : Token) : Prop :=
  (∃ what : Delimited, what.quote? = some quote) ∧ token.kind = .literal ∧
    token.text.head? = some quote

private theorem Stands.exists_contents {token : Token} {rest : Text} (stands : token.Stands rest)
    (quoted : token.IsQuoted quote) :
    ∃ contents, token.text = quote :: (contents ++ [quote]) ∧ IsContents quote contents := by
  obtain ⟨⟨what, opens⟩, -, first⟩ := quoted
  obtain ⟨c, cs, spelled, found⟩ := stands
  obtain rfl : c = quote := by simpa [spelled] using first
  have alone := (extent_append_iff.1 found).1
  rw [extent_quote opens] at alone
  cases closed : quotedLength c cs with
  | none => simp [closed] at alone
  | some n =>
    obtain rfl : n = cs.length := by
      rw [closed] at alone
      exact (Prod.mk.inj (Except.ok.inj alone)).2
    obtain ⟨contents, rest, rfl, length, inside⟩ := exists_contents_of_quotedLength closed
    obtain rfl : rest = [] := by simpa using length
    exact ⟨contents, spelled, inside⟩

private theorem quote_ne {what : Delimited} (opens : what.quote? = some quote) :
    quote ≠ '\n' ∧ quote ≠ '\\' := by
  cases what <;> simp [Delimited.quote?] at opens <;> simp [← opens]

private theorem Stands.newline_mem_iff {token : Token} {rest : Text} (stands : token.Stands rest)
    (quoted : token.IsQuoted quote) :
    '\n' ∈ token.text ↔ '\n' ∈ Text.escaped token.text := by
  refine ⟨fun member => ?_, Text.mem_of_mem_escaped⟩
  obtain ⟨contents, spelled, inside⟩ := stands.exists_contents quoted
  obtain ⟨⟨what, opens⟩, -⟩ := quoted
  obtain ⟨notLineEnd, notEscape⟩ := quote_ne opens
  refine (Text.mem_bare_or_escaped member (by decide)).resolve_left ?_
  rw [spelled, Text.bare_cons notEscape, Text.bare_append inside.1, Text.bare_cons notEscape]
  simp [notLineEnd.symm, inside.2.1, Text.bare]

private theorem stands_of_contents {what : Delimited} (opens : what.quote? = some quote)
    {contents : Text} (inside : IsContents quote contents) (rest : Text) :
    Stands ⟨.literal, quote :: (contents ++ [quote])⟩ rest := by
  obtain ⟨notLineEnd, notEscape⟩ := quote_ne opens
  refine ⟨quote, contents ++ [quote], rfl, ?_⟩
  rw [extent_quote opens, List.append_assoc, List.singleton_append, quotedLength_append inside,
    quotedLength_cons, if_neg notLineEnd, if_neg notEscape, if_pos rfl]
  simp [Nat.add_comm]

private theorem newline_mem_of_stays {row behind contents rest : Text}
    (split : row ++ '\n' :: behind = contents ++ quote :: rest)
    (inside : IsContents quote contents) {what : Delimited} (opens : what.quote? = some quote)
    (stays : quote ∉ Text.bare row) : '\n' ∈ contents := by
  obtain ⟨notLineEnd, notEscape⟩ := quote_ne opens
  rcases append_cases split with ⟨more, rfl, -⟩ | ⟨more, rfl, tail⟩
  · refine absurd ?_ stays
    rw [Text.bare_append inside.1, Text.bare_cons notEscape]
    simp
  · cases more with
    | nil => exact absurd (List.cons.inj tail).1.symm notLineEnd
    | cons c more =>
      obtain rfl := (List.cons.inj tail).1
      simp

/-- Whether the quoted literals of a text end on the line on which they start, and one that is still
open at a line end is reported with its line. -/
structure QuotesClosed (text : Text) : Prop where
  closed : ∀ tokens, lex text = .ok tokens → ∀ token ∈ tokens, ∀ quote, token.IsQuoted quote →
    token.text.getLast? = some quote ∧ '\n' ∉ token.text
  reported : ∀ ahead what quote contents behind, Delimited.quote? what = some quote →
    text = texts ahead ++ quote :: (contents ++ '\n' :: behind) →
    StandBefore ahead (quote :: (contents ++ '\n' :: behind)) →
    '\n' ∉ contents → quote ∉ Text.bare contents →
      lex text = .error (.unterminated what (1 + newlines ahead))

/-- Whether a quoted literal at the start of a text or behind other tokens has a line end that a
backslash takes along. -/
def EscapesLineEnd (text : Text) : Prop :=
  ∃ tokens behind, text = texts tokens ++ behind ∧ StandBefore tokens behind ∧
    ∃ token ∈ tokens, ∃ quote, token.IsQuoted quote ∧ '\n' ∈ Text.escaped token.text

private theorem le_line_of_unterminated {front : List Token} {rest : Text}
    (stand : StandBefore front rest) {what : Delimited} {line : Nat}
    (failed : lex (texts front ++ rest) = .error (.unterminated what line)) :
    1 + newlines front ≤ line := by
  rw [lex, lexFrom_append stand] at failed
  cases read : lexFrom (1 + newlines front) rest with
  | ok more =>
    rw [read] at failed
    cases failed
  | error cause =>
    rw [read] at failed
    obtain ⟨open_, before, after, -, rfl⟩ := lexFrom_eq_error read
    cases failed
    exact Nat.le_add_right _ _

private theorem QuotesClosed.not_escapesLineEnd {text : Text} (close : QuotesClosed text) :
    ¬ EscapesLineEnd text := by
  rintro ⟨tokens, behind, rfl, stand, token, member, quote, quoted, escapes⟩
  obtain ⟨ahead, later, rfl⟩ := List.append_of_mem member
  rw [List.append_cons] at stand
  obtain ⟨front, -⟩ := standBefore_append_iff.1 stand
  obtain ⟨before, stands, -⟩ := standBefore_append_iff.1 front
  obtain ⟨contents, spelled, inside⟩ := stands.exists_contents quoted
  obtain ⟨⟨what, opens⟩, -⟩ := quoted
  obtain ⟨notLineEnd, notEscape⟩ := quote_ne opens
  have lineEnd := Text.mem_of_mem_escaped escapes
  have between : '\n' ∈ contents := by simpa [spelled, notLineEnd.symm] using lineEnd
  obtain ⟨row, below, rfl, first⟩ := List.eq_append_cons_of_mem between
  have stays : quote ∉ Text.bare row := fun closes =>
    inside.2.2 (Text.mem_bare_append closes notEscape _)
  have whole : texts [token] ++ (texts later ++ behind) =
      quote :: (row ++ '\n' :: (below ++ quote :: (texts later ++ behind))) := by
    simp [texts, spelled]
  have same : texts (ahead ++ token :: later) ++ behind =
      texts (ahead ++ [token]) ++ (texts later ++ behind) := by
    simp [texts]
  -- The literal is reported as open at the line end that its backslash takes along.
  have report := close.reported ahead what quote row (below ++ quote :: (texts later ++ behind))
    opens (by rw [same, texts_append, List.append_assoc, whole]) (whole ▸ before) first stays
  rw [same] at report
  have bound := le_line_of_unterminated front report
  have counted : 0 < newlines [token] := List.count_pos_iff.2 (by simpa [texts] using lineEnd)
  rw [newlines, texts_append, Text.newlines_append] at bound
  simp only [newlines] at bound counted
  omega

private theorem quotesClosed_of_not_escapesLineEnd {text : Text} (keep : ¬ EscapesLineEnd text) :
    QuotesClosed text := by
  constructor
  · intro tokens lexed token member quote quoted
    obtain ⟨same, stand⟩ := lexFrom_eq_ok_iff.1 lexed
    obtain ⟨rest, stands⟩ := exists_stands_of_mem stand member
    obtain ⟨contents, spelled, -⟩ := stands.exists_contents quoted
    refine ⟨?_, fun lineEnd => keep ⟨tokens, [], ?_, ?_, token, member, quote, quoted, ?_⟩⟩
    · rw [spelled, ← List.cons_append, List.getLast?_concat]
    · rw [same, List.append_nil]
    · exact (standBefore_texts_iff (b := [])).2 (by rwa [List.append_nil]) |>.1
    · exact (stands.newline_mem_iff quoted).1 lineEnd
  · intro ahead what quote contents behind opens same stand row stays
    rw [same, lex, lexFrom_append stand, lexFrom, extent_quote opens]
    cases closed : quotedLength quote (contents ++ '\n' :: behind) with
    | none => rfl
    | some n =>
      refine absurd ?_ keep
      obtain ⟨inner, rest, split, -, inside⟩ := exists_contents_of_quotedLength closed
      have runsOn : '\n' ∈ inner := newline_mem_of_stays split inside opens stays
      have stands := stands_of_contents opens inside rest
      have quoted : IsQuoted quote ⟨.literal, quote :: (inner ++ [quote])⟩ :=
        ⟨⟨what, opens⟩, rfl, rfl⟩
      refine ⟨ahead ++ [⟨.literal, quote :: (inner ++ [quote])⟩], rest, ?_, ?_, _,
        List.mem_append_right _ (List.mem_singleton_self _), quote, quoted, ?_⟩
      · rw [same, split]
        simp [texts]
      · refine standBefore_append_iff.2 ⟨?_, ?_, trivial⟩
        · rw [split] at stand
          simpa [texts] using stand
        · simpa [texts] using stands
      · exact (stands.newline_mem_iff quoted).1 (by simp [runsOn])

/-- The quoted literals of a text end on their lines, and those left open there are reported,
exactly when none of them has a backslash in front of a line end. -/
theorem quotes_closed_iff (text : Text) : QuotesClosed text ↔ ¬ EscapesLineEnd text :=
  ⟨QuotesClosed.not_escapesLineEnd, quotesClosed_of_not_escapesLineEnd⟩

/-- The tokens of a file whose string literal has a backslash at the end of a line. -/
def creekTokens : List Token :=
  [⟨.word, "package".toList⟩, ⟨.blank, [' ']⟩, ⟨.word, ['a']⟩, ⟨.blank, ['\n']⟩,
    ⟨.word, "var".toList⟩, ⟨.blank, [' ']⟩, ⟨.word, ['s']⟩, ⟨.blank, [' ']⟩, ⟨.mark, ['=']⟩,
    ⟨.blank, [' ']⟩, ⟨.literal, "\"a\\\nb\"".toList⟩, ⟨.blank, ['\n']⟩]

/-- The backslash takes the line end along, and the literal goes on in the next line. -/
theorem creek_literal_runs_on :
    lex "package a\nvar s = \"a\\\nb\"\n".toList = .ok creekTokens ∧
      ¬QuotesClosed "package a\nvar s = \"a\\\nb\"\n".toList := by
  have lexed : lex "package a\nvar s = \"a\\\nb\"\n".toList = .ok creekTokens := by decide +kernel
  obtain ⟨same, stand⟩ := lexFrom_eq_ok_iff.1 lexed
  have before := (standBefore_texts_iff (b := [])).2 ((List.append_nil creekTokens).symm ▸ stand)
  refine ⟨lexed, fun closed => (quotes_closed_iff _).1 closed ?_⟩
  exact ⟨creekTokens, [], by rw [same, List.append_nil], before.1, ⟨.literal, "\"a\\\nb\"".toList⟩,
    by decide, '"', ⟨⟨.stringLiteral, rfl⟩, rfl, rfl⟩, by decide⟩

end Token

end Repackage
