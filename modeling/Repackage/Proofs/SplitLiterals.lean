import Repackage.Proofs.Reconciliation

/-!
New lines in a quoted literal. A string that goes on behind an escaped line end is closed by the
first quote of a new line. The path behind that quote is then read as words and marks, and the
second quote opens a literal without an end, unless two slashes in the path make a remark of what is
left of the line. In that case the rest of the old string is read as if it were a line of its own;
so whether the file can still be read depends on the place alone, and not on what is put there.
-/

set_option autoImplicit false
set_option relaxedAutoImplicit false

namespace Repackage

open Token (texts linesOf)

namespace Outline

variable {outline : Outline} {gap imports body : List Token}

/-- Two cuts at the first token with a mark are one. -/
private theorem eq_of_first_mark {c : Char} {front back before after : List Token}
    {here there : Token} (same : front ++ here :: back = before ++ there :: after)
    (ahead : ∀ token ∈ front, token.isMark c = false) (marked : here.isMark c)
    (first : ∀ token ∈ before, token.isMark c = false) (also : there.isMark c) :
    before = front ∧ here = there := by
  rcases append_cases same with ⟨extra, whole, -⟩ | ⟨extra, rfl, tail⟩
  · have unmarked := ahead there (by simp [whole])
    rw [also] at unmarked
    cases unmarked
  · cases extra with
    | nil => exact ⟨List.append_nil _, (List.cons.inj tail).1⟩
    | cons token extra =>
      obtain ⟨rfl, -⟩ := List.cons.inj tail
      have unmarked := first here (by simp)
      rw [marked] at unmarked
      cases unmarked

private theorem HasImports.splits_insert_iff (shapes : HasImports gap imports body)
    {before after inside : List Token} {opening : Token}
    (parts : imports = before ++ opening :: after)
    (opens : opening.isMark '(')
    (first : ∀ token ∈ before, token.isMark '(' = false ∧ token.isMark ')' = false)
    (free : ∀ token ∈ inside, token.isMark ')' = false) (rest : List Token) :
    Splits (gap ++ (before ++ opening :: (inside ++ rest))) ↔
      Splits (gap ++ (before ++ opening :: rest)) := by
  induction shapes generalizing before after with
  | nil none => simp at parts
  | @cons gap declaration between more body keyword allGap isImport shape later ih =>
    have word := isMark_eq_false_of_word (kind_of_isWord isImport) '('
    rcases shape.cases_spec with
      ⟨lead, opening', inner, closing, rfl, gaps, opened, -, -⟩ | ⟨lead, spec, rfl, gaps, single⟩
    · -- The group is the one of this import.
      have ahead : ∀ token ∈ keyword :: lead, token.isMark '(' = false :=
        List.forall_mem_cons.2 ⟨word, fun token member =>
          isMark_eq_false_of_isGap (gaps token member) '('⟩
      have same : (keyword :: lead) ++ opening' :: (inner ++ [closing] ++ between ++ more) =
          before ++ opening :: after := by
        rw [← parts]
        simp
      obtain ⟨rfl, rfl⟩ :=
        eq_of_first_mark same ahead opened (fun token member => (first token member).1) opens
      have none : ∀ token ∈ ([] : List Token), token.isMark ')' = false := by simp
      rw [List.cons_append, splits_group_iff allGap isImport gaps opens free,
        ← splits_group_iff allGap isImport gaps opens none]
      rfl
    · -- The group is the one of a later import.
      have own : ∀ token ∈ keyword :: (lead ++ spec) ++ between, token.isMark '(' = false := by
        intro token member
        simp only [List.cons_append, List.mem_cons, List.mem_append] at member
        rcases member with rfl | (inLead | inSpec) | inBetween
        · exact word
        · exact isMark_eq_false_of_isGap (gaps token inLead) '('
        · exact single.not_isMark (by decide) token inSpec
        · exact isMark_eq_false_of_separates (later.separates token inBetween) (by decide)
      obtain ⟨before, rfl, tail⟩ :=
        exists_of_not_mem (fun member => by simp [own opening member] at opens) parts
      have moved (others : List Token) :
          Splits (gap ++ (keyword :: (lead ++ spec) ++ between ++ before ++ others)) ↔
            Splits (between ++ (before ++ others)) := by
        have whole : gap ++ (keyword :: (lead ++ spec) ++ between ++ before ++ others) =
            gap ++ keyword :: ((lead ++ spec) ++ (between ++ (before ++ others))) := by
          simp
        have extent : importExtent ((lead ++ spec) ++ (between ++ (before ++ others))) =
            some (lead ++ spec).length := importExtent_eq_some_iff.2 ⟨_, _, rfl, shape, rfl⟩
        rw [whole, splits_import_iff allGap isImport, extent]
        simp only [Option.some.injEq, exists_eq_left', List.drop_left]
      rw [moved, moved]
      exact ih tail fun token member => first token (List.mem_append_right _ member)

theorem Slot.exists_ofTokens_iff (slot : outline.Slot) (formed : outline.IsWellFormed)
    {tokens : List Token} (free : ∀ token ∈ tokens, token.isMark ')' = false) (rest : List Token) :
    (∃ other, ofTokens ((outline.front ++ slot.ahead) ++ (tokens ++ rest)) = .ok other) ↔
      ∃ other, ofTokens ((outline.front ++ slot.ahead) ++ rest) = .ok other := by
  have inner := slot.isFirst.free
  rw [slot.inside] at inner
  have left : ∀ token ∈ slot.left, token.isMark ')' = false := fun token member =>
    inner token (by simp [member])
  have parts (others : List Token) : (outline.front ++ slot.ahead) ++ others =
      outline.header ++ outline.clauseStart ++ outline.name ::
        (outline.gap ++ (slot.group.before ++ slot.group.opening :: (slot.left ++ others))) := by
    simp [front, Slot.ahead]
  have whole : outline.imports = slot.group.before ++ slot.group.opening ::
      (slot.group.inside ++ slot.group.closing :: slot.group.after) := slot.whole
  rw [parts, parts, formed.exists_ofTokens_iff, formed.exists_ofTokens_iff,
    ← List.append_assoc slot.left, formed.imports.splits_insert_iff whole slot.isFirst.opens
      slot.isFirst.first (List.forall_mem_append.2 ⟨left, free⟩),
    formed.imports.splits_insert_iff whole slot.isFirst.opens slot.isFirst.first left]

end Outline

namespace Token

private theorem exists_first_slashes {path : Text} (slashes : ['/', '/'] <:+: path) :
    ∃ front back, path = front ++ '/' :: '/' :: back ∧ ¬['/', '/'] <:+: front ++ ['/'] := by
  induction path with
  | nil => simp at slashes
  | cons c path ih =>
    by_cases here : c = '/' ∧ path.head? = some '/'
    · obtain ⟨rfl, second⟩ := here
      cases path with
      | nil => cases second
      | cons d path =>
        cases second
        exact ⟨[], path, rfl, by decide⟩
    · have elsewhere {rest : Text} (same : rest.head? = path.head?) :
          ¬['/', '/'] <+: c :: rest := by
        intro starts
        obtain ⟨rfl, inner⟩ := List.cons_prefix_cons.1 starts
        refine here ⟨rfl, ?_⟩
        obtain ⟨tail, rfl⟩ := inner
        exact same.symm
      obtain ⟨front, back, rfl, apart⟩ :=
        ih ((List.infix_cons_iff.1 slashes).resolve_left (elsewhere rfl))
      refine ⟨c :: front, back, rfl, fun inside => ?_⟩
      rcases List.infix_cons_iff.1 inside with starts | later
      · refine elsewhere ?_ starts
        cases front <;> rfl
      · exact apart later

/-- A character of a path begins a token that ends before the remark. -/
private theorem exists_extent_before_remark {c : Char} {path remark : Text}
    (first : Text.isAsciiAlphanumeric c ∨ c ∈ ['.', '_', '-', '~', '/'])
    (later : ∀ d ∈ path, Text.isAsciiAlphanumeric d ∨ d ∈ ['.', '_', '-', '~', '/'])
    (apart : ¬['/', '/'] <:+: c :: path ++ ['/']) :
    ∃ kind n, extent c (path ++ '/' :: '/' :: remark) = .ok (kind, n) ∧ n ≤ path.length := by
  have mark (found : extent c (path ++ '/' :: '/' :: remark) = .ok (.mark, 0)) :
      ∃ kind n, extent c (path ++ '/' :: '/' :: remark) = .ok (kind, n) ∧ n ≤ path.length :=
    ⟨_, _, found, Nat.zero_le _⟩
  have inert (char : Text.isInert c) :
      ∃ kind n, extent c (path ++ '/' :: '/' :: remark) = .ok (kind, n) ∧ n ≤ path.length := by
    obtain ⟨kind, n, found, -, own⟩ := extent_of_isInert char (path ++ '/' :: '/' :: remark)
    refine ⟨kind, n, found, ?_⟩
    by_contra longer
    -- The token would take in the first slash of the remark.
    have slash : '/' ∈ (path ++ '/' :: '/' :: remark).take n := by
      obtain ⟨m, rfl⟩ : ∃ m, n = path.length + (m + 1) := ⟨n - path.length - 1, by omega⟩
      rw [List.take_length_add_append]
      simp
    exact absurd (own '/' slash) (by decide)
  simp only [List.mem_cons, List.not_mem_nil, or_false] at first
  rcases first with char | rfl | rfl | rfl | rfl | rfl
  · exact inert (Text.isInert_of_isWordChar (Text.isWordChar_of_isAsciiAlphanumeric char))
  · exact inert (by decide)
  · exact inert (by decide)
  · exact inert (by decide)
  · apply mark
    have notBlank : Text.isBlank '~' = false := by decide
    have noWord : Text.isWordStart '~' = false := by decide
    simp [extent, notBlank, noWord]
  · -- The next character is another one, so this is no remark.
    apply mark
    have next : (path ++ '/' :: '/' :: remark).head? ≠ some '/' ∧
        (path ++ '/' :: '/' :: remark).head? ≠ some '*' := by
      cases path with
      | nil => exact absurd List.infix_rfl apart
      | cons d path =>
        obtain ⟨second, -⟩ := List.forall_mem_cons.1 later
        simp only [List.cons_append, List.head?_cons, ne_eq, Option.some.injEq]
        constructor
        · rintro rfl
          exact apart ⟨[], path ++ ['/'], rfl⟩
        · rintro rfl
          exact absurd second (by decide)
    have notBlank : Text.isBlank '/' = false := by decide
    have noWord : Text.isWordStart '/' = false := by decide
    generalize path ++ '/' :: '/' :: remark = text at next ⊢
    simp [extent, next, notBlank, noWord]

theorem exists_path_tokens {path remark : Text}
    (plain : ∀ c ∈ path, Text.isAsciiAlphanumeric c ∨ c ∈ ['.', '_', '-', '~', '/'])
    (apart : ¬['/', '/'] <:+: path ++ ['/'])
    (stand : Stand [⟨.comment, '/' :: '/' :: remark⟩]) :
    ∃ tokens, texts tokens = path ∧ Stand (tokens ++ [⟨.comment, '/' :: '/' :: remark⟩]) ∧
      ∀ token ∈ tokens, token.isMark ')' = false := by
  induction size : path.length using Nat.strong_induction_on generalizing path with
  | _ length ih =>
    cases path with
    | nil => exact ⟨[], rfl, stand, by simp⟩
    | cons c path =>
      obtain ⟨first, later⟩ := List.forall_mem_cons.1 plain
      obtain ⟨kind, n, found, short⟩ : ∃ kind n,
          extent c (path ++ '/' :: '/' :: remark) = .ok (kind, n) ∧ n ≤ path.length :=
        exists_extent_before_remark first later apart
      have shorter : (path.drop n).length < length := by
        rw [List.length_drop]
        simp only [List.length_cons] at size
        omega
      have inside : path.drop n ++ ['/'] <:+ c :: path ++ ['/'] :=
        ⟨c :: path.take n, by simp [← List.append_assoc]⟩
      obtain ⟨tokens, text, stands, free⟩ := ih _ shorter
        (fun d member => later d (List.mem_of_mem_drop member))
        (fun slashes => apart (slashes.trans inside.isInfix)) rfl
      have whole : path.take n ++ texts (tokens ++ [⟨.comment, '/' :: '/' :: remark⟩]) =
          path ++ '/' :: '/' :: remark := by
        rw [texts_append, text, ← List.append_assoc, List.take_append_drop]
        simp [texts]
      refine ⟨⟨kind, c :: path.take n⟩ :: tokens, ?_, ⟨⟨c, path.take n, rfl, ?_⟩, stands⟩, ?_⟩
      · rw [texts_cons, text, List.cons_append, List.take_append_drop]
      · refine (congrArg (extent c) whole).trans ?_
        rw [found, List.length_take, Nat.min_eq_left short]
      · refine List.forall_mem_cons.2 ⟨?_, free⟩
        rw [Bool.eq_false_iff]
        intro mark
        obtain ⟨rfl, -⟩ := List.cons.inj (isMark_iff.1 mark).2
        exact absurd first (by decide)

theorem Stands.remark {remark rest : Text} (single : '\n' ∉ remark)
    (ends : ∀ c ∈ rest.head?, c = '\n') : Stands ⟨.comment, '/' :: '/' :: remark⟩ rest := by
  refine ⟨'/', '/' :: remark, rfl, extent_append_iff.2 ⟨?_, fun c head => ?_⟩⟩
  · have whole : remark.takeWhile (· ≠ '\n') = remark := by
      refine List.takeWhile_eq_self_iff.2 fun c member => ?_
      simp only [ne_eq, decide_not, Bool.not_eq_true', decide_eq_false_iff_not]
      rintro rfl
      exact single member
    simpa [extent] using congrArg List.length whole
  · simp [goesOn, ends c head]

private theorem getLast?_linesOf (front : Text) (specs : List Import) (back : Text) :
    ∃ text, (linesOf front specs back).getLast? = some ⟨.blank, text⟩ := by
  induction specs generalizing front with
  | nil => exact ⟨_, rfl⟩
  | cons spec specs ih =>
    obtain ⟨text, last⟩ := ih ['\n']
    refine ⟨text, ?_⟩
    rw [linesOf, List.getLast?_append_of_ne_nil _ (by intro empty; simp [empty] at last), last]

private theorem endsBefore_of_blank {text : Text} {c : Char} (solid : Text.isBlank c = false) :
    endsBefore ⟨.blank, text⟩ c = true := by
  cases text with
  | nil => rfl
  | cons d text => simp [endsBefore, goesOn, solid]

/-- A string that goes over lines is closed by the first quote behind the line end. -/
theorem Stands.closed {front back lead rest : Text}
    (closed : quotedLength '"' (front ++ '\n' :: back) = some (front ++ '\n' :: back).length)
    (plain : ∀ c ∈ lead, c ≠ '\n' ∧ c ≠ '\\' ∧ c ≠ '"') :
    Stands ⟨.literal, '"' :: (front ++ '\n' :: (lead ++ ['"']))⟩ rest := by
  have read := quotedLength_newline (lead ++ '"' :: rest) front closed
  rw [quotedLength_row plain] at read
  have string : Text.isBlank '"' = false := by decide
  refine ⟨'"', front ++ '\n' :: (lead ++ ['"']), rfl, ?_⟩
  have parts : front ++ '\n' :: (lead ++ ['"']) ++ rest =
      front ++ '\n' :: (lead ++ '"' :: rest) := by
    simp
  rw [parts]
  simp [extent, string, read, quotedLength_cons]
  omega

end Token

private theorem Span.exists_scan_iff {text : Text} :
    (∃ spans, Span.scan text = .ok spans) ↔
      ∃ tokens outline, Token.texts tokens = text ∧ Token.Stand tokens ∧
        Outline.ofTokens tokens = .ok outline := by
  constructor
  · rintro ⟨spans, scanned⟩
    unfold scan at scanned
    split at scanned
    · cases scanned
    · next tokens lexed =>
      obtain ⟨same, stand⟩ := Token.lexFrom_eq_ok_iff.1 lexed
      cases outlined : Outline.ofTokens tokens with
      | error cause =>
        rw [outlined] at scanned
        cases scanned
      | ok outline => exact ⟨tokens, outline, same, stand, outlined⟩
  · rintro ⟨tokens, outline, same, stand, outlined⟩
    have lexed : Token.lex text = .ok tokens := Token.lexFrom_eq_ok_iff.2 ⟨same, stand⟩
    refine ⟨Span.ofOutline outline, ?_⟩
    rw [scan, lexed]
    exact congrArg (Except.map Span.ofOutline) outlined

namespace Outline.LineEnd

open SourceFile (importLines)

variable {outline : Outline} (place : outline.LineEnd)

def remainder : Text :=
  place.back ++ texts (place.behind ++ outline.body)

def GoesOn : Prop :=
  ∃ tokens, texts tokens = place.remainder.dropWhile Text.isBlank ∧ Token.Stand tokens ∧
    ∃ other, ofTokens ((outline.front ++ place.ahead) ++ tokens) = .ok other

def closedTokens (front lead : Text) (path : List Token) (remark : Text) (others : List Import) :
    List Token :=
  ⟨.literal, '"' :: (front ++ '\n' :: (lead ++ ['"']))⟩ ::
    (path ++ [⟨.comment, '/' :: '/' :: remark⟩]) ++
      linesOf ['\n'] others (place.remainder.takeWhile Text.isBlank)

variable {place} {front lead remark : Text} {path : List Token} {others : List Import}

theorem texts_closedTokens :
    texts (place.closedTokens front lead path remark others) ++
        place.remainder.dropWhile Text.isBlank =
      '"' :: (front ++ '\n' :: (lead ++ '"' :: (texts path ++ '/' :: '/' :: (remark ++ '\n' ::
        (importLines others ++ place.remainder))))) := by
  have parts := List.takeWhile_append_dropWhile (p := Text.isBlank) (l := place.remainder)
  conv_rhs => rw [← parts]
  simp only [closedTokens, Token.texts_append, Token.texts_cons, Token.texts_linesOf]
  simp [texts]

private theorem free_closedTokens (free : ∀ token ∈ path, token.isMark ')' = false)
    (writable : ∀ spec ∈ others, spec.IsWritable) :
    ∀ token ∈ place.closedTokens front lead path remark others, token.isMark ')' = false := by
  simp only [closedTokens, List.cons_append, List.forall_mem_cons, List.forall_mem_append]
  exact ⟨rfl, ⟨free, rfl, by simp⟩, Token.not_isMark_of_mem_linesOf writable⟩

private theorem stand_closedTokens
    (closed : Token.quotedLength '"' (front ++ '\n' :: place.back) =
      some (front ++ '\n' :: place.back).length)
    (plain : ∀ c ∈ lead, c ≠ '\n' ∧ c ≠ '\\' ∧ c ≠ '"') (single : '\n' ∉ remark)
    (stands : Token.Stand (path ++ [⟨.comment, '/' :: '/' :: remark⟩]))
    (writable : ∀ spec ∈ others, spec.IsWritable) {rest : List Token} (stand : Token.Stand rest)
    (next : ∀ c ∈ (texts rest).head?, Text.isBlank c = false) :
    Token.Stand (place.closedTokens front lead path remark others ++ rest) := by
  have blank : ∀ c ∈ place.remainder.takeWhile Text.isBlank, Text.isBlank c := fun c member =>
    List.mem_takeWhile_imp member
  have newline : ∀ c ∈ ['\n'], Text.isBlank c := by
    simp only [List.mem_singleton, forall_eq]
    decide
  have lines := Token.stand_linesOf (.inl (List.cons_ne_nil _ _)) writable newline blank stand next
  rw [closedTokens, List.append_assoc, List.cons_append]
  refine ⟨.closed closed plain, Token.stand_append_iff.2 ⟨stands, lines, ?_⟩⟩
  intro last found c head
  obtain rfl : ⟨.comment, '/' :: '/' :: remark⟩ = last := by simpa using found
  have starts : (texts (linesOf ['\n'] others (place.remainder.takeWhile Text.isBlank) ++
      rest)).head? = some '\n' := by
    rw [Token.texts_append, Token.texts_linesOf]
    rfl
  have stops : Token.Stands ⟨.comment, '/' :: '/' :: remark⟩ ['\n'] := .remark single (by simp)
  refine (Token.stands_iff.1 stops).2 c ?_
  rwa [starts] at head

section Closed

variable {file : SourceFile} (has : file.HasOutline outline) (begins : place.front = '"' :: front)
  (closed : Token.quotedLength '"' (front ++ '\n' :: place.back) =
    some (front ++ '\n' :: place.back).length)
  (plain : ∀ c ∈ lead, c ≠ '\n' ∧ c ≠ '\\' ∧ c ≠ '"') (single : '\n' ∉ remark)
  (stands : Token.Stand (path ++ [⟨.comment, '/' :: '/' :: remark⟩]))
  (writable : ∀ spec ∈ others, spec.IsWritable)

include has begins closed plain single stands writable

private theorem stand_front_closedTokens {rest : List Token} (stand : Token.Stand rest)
    (next : ∀ c ∈ (texts rest).head?, Text.isBlank c = false) :
    Token.Stand ((outline.front ++ place.ahead) ++
      (place.closedTokens front lead path remark others ++ rest)) := by
  obtain ⟨before, -, ends⟩ := Token.stand_append_iff.1 (place.tokens_eq ▸ has.stand)
  refine Token.stand_append_iff.2
    ⟨before, stand_closedTokens closed plain single stands writable stand next, ?_⟩
  intro last found c head
  -- What stands before the string does not go on into it.
  refine ends last found c ?_
  obtain rfl : '"' = c := by simpa [closedTokens, Token.texts_cons] using head
  simp [Token.texts_cons, place.spelled, begins]

theorem exists_of_closed {tokens : List Token} (stand : Token.Stand tokens)
    (same : texts tokens = texts (outline.front ++ place.ahead) ++
      (texts (place.closedTokens front lead path remark others) ++
        place.remainder.dropWhile Text.isBlank)) :
    ∃ more, tokens = (outline.front ++ place.ahead) ++
        (place.closedTokens front lead path remark others ++ more) ∧
      Token.Stand more ∧ texts more = place.remainder.dropWhile Text.isBlank := by
  have empty : Token.Stand [] := trivial
  have alone := stand_front_closedTokens has begins closed plain single stands writable empty
    (by simp [texts])
  rw [List.append_nil] at alone
  have stops : ∀ last ∈ (outline.front ++ place.ahead ++
      place.closedTokens front lead path remark others).getLast?,
      ∀ c ∈ (place.remainder.dropWhile Text.isBlank).head?, last.endsBefore c = true := by
    intro last found c head
    obtain ⟨text, blank⟩ := Token.getLast?_linesOf ['\n'] others
      (place.remainder.takeWhile Text.isBlank)
    have lines : linesOf ['\n'] others (place.remainder.takeWhile Text.isBlank) ≠ [] := by
      intro empty
      simp [empty] at blank
    rw [closedTokens, ← List.append_assoc, List.getLast?_append_of_ne_nil _ lines, blank] at found
    obtain rfl := Option.some.inj found
    have solid := List.head?_dropWhile_not Text.isBlank place.remainder
    rw [Option.mem_def.1 head] at solid
    exact Token.endsBefore_of_blank (by simpa using solid)
  obtain ⟨more, rfl, stand, rest⟩ := Token.exists_of_stand_append alone stops stand
    (by rw [same, Token.texts_append (outline.front ++ place.ahead), List.append_assoc])
  exact ⟨more, List.append_assoc .., stand, rest⟩

private theorem exists_scan_iff (free : ∀ token ∈ path, token.isMark ')' = false) :
    (∃ spans, Span.scan (texts (outline.front ++ place.ahead) ++ '"' :: (front ++ '\n' ::
      (lead ++ '"' :: (texts path ++ '/' :: '/' :: (remark ++ '\n' ::
        (importLines others ++ place.remainder)))))) = .ok spans) ↔ place.GoesOn := by
  rw [← texts_closedTokens, Span.exists_scan_iff, GoesOn]
  constructor
  · rintro ⟨tokens, other, same, stand, outlined⟩
    obtain ⟨more, rfl, stand, rest⟩ :=
      exists_of_closed has begins closed plain single stands writable stand same
    exact ⟨more, rest, stand, (place.toSlot.exists_ofTokens_iff has.formed
      (free_closedTokens free writable) more).1 ⟨other, outlined⟩⟩
  · rintro ⟨tokens, same, stand, formed⟩
    have next : ∀ c ∈ (texts tokens).head?, Text.isBlank c = false := by
      intro c head
      have solid := List.head?_dropWhile_not Text.isBlank place.remainder
      rw [← same, Option.mem_def.1 head] at solid
      simpa using solid
    obtain ⟨other, outlined⟩ := (place.toSlot.exists_ofTokens_iff has.formed
      (free_closedTokens free writable) tokens).2 formed
    refine ⟨_, other, ?_, stand_front_closedTokens has begins closed plain single stands writable
      stand next, outlined⟩
    rw [Token.texts_append, Token.texts_append (place.closedTokens ..), same]

end Closed

end Outline.LineEnd

/-- A text with a literal that goes across an offset closed there, and a remark on what is left of
the line. -/
def Text.closedAt? (offset : Nat) (text : Text) : Option Text :=
  (cut? offset text).map fun parts => parts.1 ++ '"' :: '/' :: '/' :: '\n' :: parts.2

namespace SourceFile

/-- Whether a text can still be read when a literal that goes across an offset is closed there. -/
def ClosesAt (file : SourceFile) (offset : Nat) : Prop :=
  ∃ text spans, Text.closedAt? offset file.text = some text ∧ Span.scan text = .ok spans

variable {file edited : SourceFile} {outline : Outline} {place : outline.LineEnd}
  {front gap : Text} {spec : Import} {others : List Import}

theorem HasOutline.text_around_lineEnd (has : file.HasOutline outline) (place : outline.LineEnd) :
    file.text = texts (outline.front ++ place.ahead) ++ place.front ++ ['\n'] ++ place.remainder ∧
      place.offset =
        Text.byteSize (texts (outline.front ++ place.ahead) ++ place.front ++ ['\n']) := by
  constructor
  · rw [has.text, place.tokens_eq, Token.texts_append, Token.texts_cons, place.spelled]
    simp [Outline.LineEnd.remainder]
  · simp only [Outline.LineEnd.offset, Outline.Slot.start, Token.texts_append, Text.byteSize_append]
    omega

private theorem HasOutline.closedAt?_offset (has : file.HasOutline outline)
    (place : outline.LineEnd) : Text.closedAt? place.offset file.text =
      some (texts (outline.front ++ place.ahead) ++ place.front ++ ['\n'] ++
        '"' :: '/' :: '/' :: '\n' :: place.remainder) := by
  obtain ⟨text, offset⟩ := has.text_around_lineEnd place
  rw [Text.closedAt?, text, offset, Text.cut?_byteSize]
  rfl

private theorem HasOutline.closesAt_iff (has : file.HasOutline outline)
    (begins : place.front = '"' :: front)
    (closed : Token.quotedLength '"' (front ++ '\n' :: place.back) =
      some (front ++ '\n' :: place.back).length) :
    file.ClosesAt place.offset ↔ place.GoesOn := by
  have stands : Token.Stand ([] ++ [⟨.comment, '/' :: '/' :: []⟩]) :=
    ⟨.remark (by simp) (by simp [texts]), trivial⟩
  have scanned : (∃ spans, Span.scan (texts (outline.front ++ place.ahead) ++ '"' :: (front ++
      '\n' :: ([] ++ '"' :: (texts [] ++ '/' :: '/' :: ([] ++ '\n' ::
        (importLines [] ++ place.remainder)))))) = .ok spans) ↔ place.GoesOn :=
    Outline.LineEnd.exists_scan_iff has begins closed (by simp) (by simp) stands (by simp) (by simp)
  rw [← scanned, ClosesAt, has.closedAt?_offset place, begins]
  simp [texts, importLines]

theorem HasOutline.not_closesAt (has : file.HasOutline outline)
    (begins : place.front = '\'' :: front)
    (closed : Token.quotedLength '\'' (front ++ '\n' :: place.back) =
      some (front ++ '\n' :: place.back).length) : ¬file.ClosesAt place.offset := by
  rintro ⟨text, spans, cut, scanned⟩
  rw [has.closedAt?_offset place] at cut
  obtain rfl := Option.some.inj cut
  obtain ⟨tokens, other, same, stand, -⟩ := Span.exists_scan_iff.1 ⟨spans, scanned⟩
  obtain ⟨before, -, ends⟩ := Token.stand_append_iff.1 (place.tokens_eq ▸ has.stand)
  have parts : texts tokens = texts (outline.front ++ place.ahead) ++
      '\'' :: (front ++ '\n' :: '"' :: '/' :: '/' :: '\n' :: place.remainder) := by
    rw [same, begins]
    simp
  obtain ⟨more, -, stand, rest⟩ := Token.exists_of_stand_append before (fun last found c head => by
    refine ends last found c ?_
    simpa [Token.texts_cons, place.spelled, begins] using head) stand parts
  refine Token.not_isReadable_of_quotedLength (.inr rfl) ?_ ⟨more, rest, stand⟩
  rw [Token.quotedLength_newline _ front closed]
  simp [Token.quotedLength_cons]

private theorem exists_edit_insert_iff {before after lines : Text}
    (text : file.text = before ++ after) (present : lines ≠ []) :
    (∃ edited changed, file.edit [.insertAt (Text.byteSize before) lines] =
      .ok (edited, changed)) ↔ ∃ spans, Span.scan (before ++ lines ++ after) = .ok spans := by
  have spliced := Edit.splice_singleton before [] after lines
  rw [List.append_nil, ← text] at spliced
  have differs : before ++ lines ++ after ≠ file.text := by
    intro same
    have lengths := congrArg List.length (same.trans text)
    simp only [List.length_append] at lengths
    exact present (List.length_eq_zero_iff.1 (by omega))
  have edit : file.edit [.insertAt (Text.byteSize before) lines] =
      ((file.withText (before ++ lines ++ after)).mapError .unscannable).map (·, true) := by
    simp only [edit_eq, Edit.insertAt, spliced, differs, List.cons_ne_nil, if_false]
    cases file.withText (before ++ lines ++ after) <;> rfl
  rw [edit, withText]
  cases Span.scan (before ++ lines ++ after) <;> simp [Except.map, Except.mapError]

private theorem exists_line_of_slashes (fits : spec.IsWritable)
    (slashes : ['/', '/'] <:+: spec.path.toList) :
    ∃ lead path remark, (∀ c ∈ lead, c ≠ '\n' ∧ c ≠ '\\' ∧ c ≠ '"') ∧
      Token.Stand (path ++ [⟨.comment, '/' :: '/' :: remark⟩]) ∧
      (∀ token ∈ path, token.isMark ')' = false) ∧ '\n' ∉ remark ∧
      ∀ others, importLines (spec :: others) =
        lead ++ '"' :: (texts path ++ '/' :: '/' :: (remark ++ '\n' :: importLines others)) := by
  obtain ⟨lead, line, plain⟩ := Token.exists_lead fits
  obtain ⟨front, back, whole, apart⟩ := Token.exists_first_slashes slashes
  have chars := fits.path
  rw [whole] at chars
  simp only [List.forall_mem_append, List.forall_mem_cons] at chars
  have single : '\n' ∉ back ++ ['"'] := by
    intro member
    rcases List.mem_append.1 member with inside | quote
    · exact absurd (chars.2.2.2 _ inside) (by decide)
    · exact absurd quote (by decide)
  obtain ⟨path, text, stands, free⟩ := Token.exists_path_tokens chars.1 apart
    ⟨.remark single (by simp [texts]), trivial⟩
  refine ⟨lead, path, back ++ ['"'], fun c member => ?_, stands, free, single, fun others => ?_⟩
  · exact ⟨(plain c member).1, (plain c member).2.1, (plain c member).2.2.1⟩
  · rw [importLines, List.flatMap_cons, ← List.cons_append, line, whole, text]
    simp [importLines]

theorem exists_edit_iff_of_quoted (current : file.IsCurrent) (has : file.HasOutline outline)
    (quoted : place.IsQuoted) (newlines : ∀ c ∈ gap, c = '\n')
    (writable : ∀ other ∈ spec :: others, other.IsWritable) :
    (∃ edited changed, file.edit [.insertAt place.offset (gap ++ importLines (spec :: others))] =
        .ok (edited, changed)) ↔
      gap = [] ∧ ['/', '/'] <:+: spec.path.toList ∧ file.ClosesAt place.offset := by
  obtain ⟨fits, later⟩ := List.forall_mem_cons.1 writable
  obtain ⟨-, quote, front, begins, isQuote, closed⟩ := id quoted
  obtain ⟨text, offset⟩ := has.text_around_lineEnd place
  have string (empty : gap = []) (slashes : ['/', '/'] <:+: spec.path.toList) (same : quote = '"') :
      (∃ edited changed, file.edit [.insertAt place.offset (gap ++ importLines (spec :: others))] =
        .ok (edited, changed)) ↔ file.ClosesAt place.offset := by
    subst same empty
    obtain ⟨lead, path, remark, plain, stands, free, single, lines⟩ :=
      exists_line_of_slashes fits slashes
    rw [has.closesAt_iff begins closed, ← Outline.LineEnd.exists_scan_iff has begins closed plain
      single stands later free, offset, exists_edit_insert_iff text (by simp [importLines]), lines,
      begins]
    simp
  constructor
  · rintro ⟨edited, changed, done⟩
    by_contra nothing
    refine edit_ne_ok_of_quoted current has place quoted newlines fits
      (fun starts empty slashes => ?_) others done
    obtain rfl : quote = '"' := by simpa [begins] using starts
    exact nothing ⟨empty, slashes, (string empty slashes rfl).1 ⟨edited, changed, done⟩⟩
  · rintro ⟨empty, slashes, closes⟩
    rcases isQuote with rfl | rfl
    · exact (string empty slashes rfl).2 closes
    · exact absurd closes (has.not_closesAt begins closed)

variable {last : PlacedImport} {imports : List Import}

theorem exists_reconcile_iff_of_quoted (current : file.IsCurrent) (has : file.HasOutline outline)
    (read : file.imports = .ok imports) (ends : file.EndsLineBehind last place.offset)
    (quoted : place.IsQuoted) (writable : ∀ other ∈ spec :: others, other.IsWritable)
    (missing : missingImports (imports.map (·.path)) (spec :: others) = spec :: others) :
    (∃ edited, file.reconcile (spec :: others) = .ok (edited, spec :: others)) ↔
      gapBehind last (spec :: others) = [] ∧ ['/', '/'] <:+: spec.path.toList ∧
        file.ClosesAt place.offset := by
  rw [← exists_edit_iff_of_quoted current has quoted eq_newline_of_mem_gapBehind writable,
    reconcile_of_endsLineBehind read ends (List.cons_ne_nil _ _) missing]
  cases file.edit [.insertAt place.offset (gapBehind last (spec :: others) ++
      importLines (spec :: others))] with
  | error cause => simp [Except.map, Except.mapError]
  | ok done =>
    refine iff_of_true ⟨done.1, rfl⟩ ⟨done.1, done.2, rfl⟩

end SourceFile

end Repackage
