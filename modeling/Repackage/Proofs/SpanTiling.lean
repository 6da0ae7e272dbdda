import Repackage.Proofs.ImportBlock
import Repackage.Proofs.Rescanning

/-!
The shape of scanned texts. The spans of a text stand one behind the other from its start to its
end; one of them is the package clause, one at most is the import block behind it, and every word
among them ends where no character goes on with it.
-/

set_option autoImplicit false
set_option relaxedAutoImplicit false

namespace Repackage.Span

/-- Whether spans divide a text up: none is empty or cuts a character, and each one starts where
the one before it stops. -/
structure Tiles (text : Text) (spans : List Span) : Prop where
  present : spans ≠ []
  nonempty : ∀ located ∈ locate spans, located.start < located.stop
  aligned : ∀ located ∈ locate spans,
    Text.slice? text located.start located.stop = some located.span.text
  first : ∀ located ∈ (locate spans).head?, located.start = 0
  adjacent : (locate spans).IsChain fun a b => a.stop = b.start
  last : ∀ located ∈ (locate spans).getLast?, located.stop = Text.byteSize text

def IsGap (span : Span) : Prop :=
  span.isBlank ∨ span.kind = .comment

/-- Whether there is one package clause with white space and comments before it, at most one import
block, which stands behind the clause with nothing but white space, comments and semicolons between
them, and whether every word is a whole one. -/
structure IsArranged (spans : List Span) : Prop where
  clause : ∃ header clause behind, spans = header ++ clause :: behind ∧
    clause.kind = .packageClause ∧ (∀ span ∈ header, span.IsGap) ∧
    ∀ span ∈ behind, span.kind ≠ .packageClause
  imports : ∀ before block behind, spans = before ++ block :: behind → block.kind = .importBlock →
    (∀ span ∈ before ++ behind, span.kind ≠ .importBlock) ∧
    ∃ header clause gap, before = header ++ clause :: gap ∧ clause.kind = .packageClause ∧
      ∀ span ∈ gap, span.IsGap ∨ span = ⟨.other, [';']⟩
  words : ∀ before word behind, spans = before ++ word :: behind → word.kind = .word →
    Word.isSpelled word.text ∧ ∀ next ∈ (texts behind).head?, Text.isWordChar next = false

section Locate

variable (start line : Nat) (spans : List Span)

private theorem start_of_head?_locateFrom :
    ∀ located ∈ (locateFrom start line spans).head?, located.start = start := by
  cases spans with
  | nil => simp [locateFrom]
  | cons span spans => simp [locateFrom]

private theorem isChain_locateFrom :
    (locateFrom start line spans).IsChain fun a b => a.stop = b.start := by
  induction spans generalizing start line with
  | nil => exact .nil
  | cons span spans ih =>
    refine List.isChain_cons.2 ⟨fun next found => ?_, ih _ _⟩
    exact (start_of_head?_locateFrom _ _ spans next found).symm

private theorem stop_of_getLast?_locateFrom :
    ∀ located ∈ (locateFrom start line spans).getLast?,
      located.stop = start + Text.byteSize (texts spans) := by
  induction spans generalizing start line with
  | nil => simp [locateFrom]
  | cons span spans ih =>
    intro located found
    cases spans with
    | nil =>
      obtain rfl : ⟨start, line, span⟩ = located := by simpa [locateFrom] using found
      simp [Located.stop, texts]
    | cons next spans =>
      rw [locateFrom, locateFrom, List.getLast?_cons_cons, ← locateFrom] at found
      rw [ih _ _ located found, texts_cons span, Text.byteSize_append, Nat.add_assoc]

end Locate

section Shape

variable {outline : Outline}

private theorem isGap_ofToken {token : Token} {rest : Text} (stands : token.Stands rest)
    (gap : Outline.isGap token) : (ofToken token).IsGap := by
  cases kind : token.kind with
  | blank =>
    have white := List.all_eq_true.2 (stands.all_isBlank kind)
    exact .inl (by simp [isBlank, ofToken, kind, white])
  | comment => exact .inr (by simp [ofToken, kind])
  | _ => simp [Outline.isGap, Token.isSignificant, kind] at gap

private theorem isGap_or_semicolon_ofToken {token : Token} {rest : Text}
    (stands : token.Stands rest) (separates : Outline.separates token) :
    (ofToken token).IsGap ∨ ofToken token = ⟨.other, [';']⟩ := by
  rcases Bool.or_eq_true_iff.1 separates with gap | semicolon
  · exact .inl (isGap_ofToken stands gap)
  · right
    simp only [Token.isMark, Bool.and_eq_true, beq_iff_eq] at semicolon
    simp [ofToken, semicolon]

theorem text_ne_nil_of_mem_ofOutline (stand : Token.Stand outline.tokens) :
    ∀ span ∈ ofOutline outline, span.text ≠ [] := by
  have filled : ∀ token ∈ outline.tokens, token.text ≠ [] := by
    intro token member
    obtain ⟨rest, c, cs, spelled, -⟩ := Token.exists_stands_of_mem stand member
    simp [spelled]
  have single {tokens : List Token} (inside : tokens ⊆ outline.tokens) :
      ∀ span ∈ tokens.map ofToken, span.text ≠ [] := by
    intro span member
    obtain ⟨token, found, rfl⟩ := List.mem_map.1 member
    exact filled token (inside found)
  intro span member
  simp only [ofOutline, List.append_assoc, List.cons_append, List.mem_append,
    List.mem_cons] at member
  rcases member with header | rfl | gap | block | body
  · exact single (fun token found => by simp [Outline.tokens, found]) span header
  · have name := filled outline.name (by simp [Outline.tokens])
    simp [name]
  · exact single (fun token found => by simp [Outline.tokens, found]) span gap
  · split_ifs at block with none
    · cases block
    · obtain rfl := List.mem_singleton.1 block
      obtain ⟨first, imports, same⟩ := List.exists_cons_of_ne_nil none
      have text := filled first (by simp [Outline.tokens, same])
      simp [Token.texts, same, text]
  · exact single (fun token found => by simp [Outline.tokens, found]) span body

private theorem tiles_ofOutline (stand : Token.Stand outline.tokens) :
    Tiles (Token.texts outline.tokens) (ofOutline outline) where
  present := by simp [ofOutline]
  nonempty := by
    intro located member
    obtain ⟨before, after, split, -⟩ := mem_locateFrom member
    have filled := text_ne_nil_of_mem_ofOutline stand located.span (by rw [split]; simp)
    have positive := mt Text.eq_nil_of_byteSize filled
    rw [Located.stop]
    omega
  aligned := by
    intro located member
    rw [← texts_ofOutline]
    exact (slice?_of_mem_locate member).1
  first := start_of_head?_locateFrom 0 1 _
  adjacent := isChain_locateFrom 0 1 _
  last := by
    intro located found
    rw [stop_of_getLast?_locateFrom 0 1 _ located found, Nat.zero_add, texts_ofOutline]

private theorem isGap_of_mem_regions (formed : outline.IsWellFormed)
    (stand : Token.Stand outline.tokens) :
    (∀ span ∈ outline.header.map ofToken, span.IsGap) ∧
      ∀ span ∈ outline.gap.map ofToken, span.IsGap ∨ span = ⟨.other, [';']⟩ := by
  constructor
  · intro span member
    obtain ⟨token, found, rfl⟩ := List.mem_map.1 member
    obtain ⟨rest, stands⟩ :=
      Token.exists_stands_of_mem stand (by simp [Outline.tokens, found] : token ∈ outline.tokens)
    exact isGap_ofToken stands (formed.header token found)
  · intro span member
    obtain ⟨token, found, rfl⟩ := List.mem_map.1 member
    obtain ⟨rest, stands⟩ :=
      Token.exists_stands_of_mem stand (by simp [Outline.tokens, found] : token ∈ outline.tokens)
    exact isGap_or_semicolon_ofToken stands (formed.imports.separates token found)

private theorem split_at_importBlock {before behind : List Span} {block : Span}
    (split : ofOutline outline = before ++ block :: behind) (kind : block.kind = .importBlock) :
    before = outline.header.map ofToken ++
        ⟨.packageClause, Token.texts outline.clauseStart ++ outline.name.text⟩ ::
        outline.gap.map ofToken ∧
      behind = outline.body.map ofToken := by
  have notIn {tokens : List Token} : block ∉ tokens.map ofToken := fun member =>
    (kind_of_mem_map_ofToken block member).2 kind
  have notClause : block ≠
      ⟨.packageClause, Token.texts outline.clauseStart ++ outline.name.text⟩ := by
    rintro rfl
    cases kind
  have notFront : block ∉ outline.header.map ofToken ++
      ⟨.packageClause, Token.texts outline.clauseStart ++ outline.name.text⟩ ::
        outline.gap.map ofToken := by
    rw [List.mem_append, List.mem_cons]
    rintro (header | clause | gap)
    · exact notIn header
    · exact notClause clause
    · exact notIn gap
  rw [ofOutline] at split
  split_ifs at split with none
  · have member : block ∈ before ++ block :: behind := by simp
    rw [← split, List.append_nil, List.mem_append] at member
    exact absurd member (not_or.2 ⟨notFront, notIn⟩)
  · rw [List.append_assoc, List.singleton_append] at split
    obtain ⟨front, -, rear⟩ := (List.append_cons_inj_of_notMem notFront notIn).1 split
    exact ⟨front.symm, rear.symm⟩

private theorem exists_stands_at_word (formed : outline.IsWellFormed)
    (stand : Token.Stand outline.tokens) {before behind : List Span} {word : Span}
    (split : ofOutline outline = before ++ word :: behind) (kind : word.kind = .word) :
    ∃ token : Token, token.kind = .word ∧ token.text = word.text ∧
      token.Stands (texts behind) := by
  rw [ofOutline_eq] at split
  have absent : word ∉ beforeBody outline := fun inside =>
    not_word_of_mem_beforeBody formed word inside kind
  obtain ⟨front, rfl, body⟩ := exists_of_not_mem absent split
  obtain ⟨ahead, token, later, same, -, rfl, rfl⟩ := exists_token_of_split body
  refine ⟨token, ofToken_kind_eq_word_iff.1 kind, rfl, ?_⟩
  rw [Outline.tokens, same, ← List.append_assoc] at stand
  rw [texts_map_ofToken]
  exact (Token.stand_append_iff.1 stand).2.1.1

private theorem isArranged_ofOutline (formed : outline.IsWellFormed)
    (stand : Token.Stand outline.tokens) : IsArranged (ofOutline outline) where
  clause := by
    have split : ofOutline outline = outline.header.map ofToken ++
        ⟨.packageClause, Token.texts outline.clauseStart ++ outline.name.text⟩ ::
        (outline.gap.map ofToken ++
          ((if outline.imports = [] then [] else [⟨.importBlock, Token.texts outline.imports⟩]) ++
            outline.body.map ofToken)) := by
      simp only [ofOutline, List.append_assoc, List.cons_append]
    refine ⟨_, _, _, split, rfl, (isGap_of_mem_regions formed stand).1, ?_⟩
    intro span member
    rw [List.mem_append, List.mem_append] at member
    rcases member with gap | block | body
    · exact (kind_of_mem_map_ofToken span gap).1
    · split_ifs at block with none
      · cases block
      · simp [List.mem_singleton.1 block]
    · exact (kind_of_mem_map_ofToken span body).1
  imports := by
    intro before block behind split kind
    obtain ⟨rfl, rfl⟩ := split_at_importBlock split kind
    refine ⟨?_, _, _, _, rfl, rfl, (isGap_of_mem_regions formed stand).2⟩
    intro span member
    simp only [List.append_assoc, List.cons_append, List.mem_append, List.mem_cons] at member
    rcases member with header | rfl | gap | body
    · exact (kind_of_mem_map_ofToken span header).2
    · simp
    · exact (kind_of_mem_map_ofToken span gap).2
    · exact (kind_of_mem_map_ofToken span body).2
  words := by
    intro before word behind split kind
    obtain ⟨token, isWord, same, stands⟩ := exists_stands_at_word formed stand split kind
    exact ⟨same ▸ stands.isSpelled isWord, stands.not_isWordChar isWord⟩

end Shape

/-- The spans of a text divide it up from start to end and stand in the documented order. -/
theorem spans_tile_and_arranged {text : Text} {spans : List Span}
    (scanned : scan text = .ok spans) : Tiles text spans ∧ IsArranged spans := by
  obtain ⟨tokens, read, outline, found, rfl⟩ := outline_of_scan scanned
  obtain ⟨rfl, formed⟩ := Outline.ofTokens_eq_ok_iff.1 found
  obtain ⟨rfl, stand⟩ := Token.lexFrom_eq_ok_iff.1 read
  exact ⟨tiles_ofOutline stand, isArranged_ofOutline formed stand⟩

/-- The spans of a text with a comment before the clause, a semicolon behind it and a word of two
bytes. -/
def lagoonSpans : List Span :=
  [⟨.comment, "// p".toList⟩, ⟨.other, ['\n']⟩, ⟨.packageClause, "package a".toList⟩,
    ⟨.other, [';']⟩, ⟨.other, [' ']⟩, ⟨.importBlock, "import \"fmt\"".toList⟩, ⟨.other, ['\n']⟩,
    ⟨.word, "var".toList⟩, ⟨.other, [' ']⟩, ⟨.word, ['é']⟩, ⟨.other, [' ']⟩, ⟨.other, ['=']⟩,
    ⟨.other, [' ']⟩, ⟨.literal, "`\n`".toList⟩, ⟨.other, ['\n']⟩]

theorem lagoon_tiled :
    scan (texts lagoonSpans) = .ok lagoonSpans ∧
      Tiles (texts lagoonSpans) lagoonSpans ∧ IsArranged lagoonSpans := by
  have scanned : scan (texts lagoonSpans) = .ok lagoonSpans := by decide +kernel
  exact ⟨scanned, spans_tile_and_arranged scanned⟩

end Repackage.Span
