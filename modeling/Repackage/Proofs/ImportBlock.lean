import Repackage.Proofs.Representation

/-!
What is read from an import block. The imports of a file are read from the very tokens that its
outline has for them; the paths are those of the literals among these tokens, in order, and every
offset that is noted is one at which a token starts or ends. Whether the tokens can be read at all
depends on their order and not on where they stand.
-/

set_option autoImplicit false
set_option relaxedAutoImplicit false

namespace Repackage

namespace Outline

/-- The tokens before the imports. -/
def front (outline : Outline) : List Token :=
  outline.header ++ outline.clauseStart ++ outline.name :: outline.gap

theorem tokens_eq (outline : Outline) :
    outline.tokens = outline.front ++ outline.imports ++ outline.body := rfl

def withImports (outline : Outline) (imports : List Token) : Outline :=
  { outline with imports := imports }

@[simp] theorem withImports_imports (outline : Outline) (imports : List Token) :
    (outline.withImports imports).imports = imports := rfl

theorem tokens_withImports (outline : Outline) (imports : List Token) :
    (outline.withImports imports).tokens = outline.front ++ imports ++ outline.body := rfl

theorem IsWellFormed.withImports {outline : Outline} (formed : outline.IsWellFormed)
    {imports : List Token} (shapes : HasImports outline.gap imports outline.body) :
    (outline.withImports imports).IsWellFormed :=
  ⟨formed.header, formed.clause, formed.name, shapes⟩

theorem stand_imports {outline : Outline} (stand : Token.Stand outline.tokens) :
    Token.Stand outline.imports := by
  have front : Token.Stand (outline.front ++ outline.imports) :=
    (Token.stand_append_iff.1 stand).1
  exact (Token.stand_append_iff.1 front).2.1

end Outline

namespace Span

theorem not_importBlock_of_ofToken {tokens : List Token} :
    ∀ span ∈ tokens.map ofToken, span.kind ≠ .importBlock :=
  fun span member => (kind_of_mem_map_ofToken span member).2

/-- The import block starts where the tokens before the imports end. -/
theorem firstOf?_importBlock (outline : Outline) :
    firstOf? .importBlock (ofOutline outline) =
      if outline.imports = [] then none
      else some ⟨Text.byteSize (Token.texts outline.front),
        Text.newlines (Token.texts outline.front) + 1,
        ⟨.importBlock, Token.texts outline.imports⟩⟩ := by
  have clause : Span.kind ⟨.packageClause, Token.texts outline.clauseStart ++ outline.name.text⟩ ≠
      .importBlock := by
    simp
  have before : ∀ span ∈ outline.header.map ofToken ++
      ⟨.packageClause, Token.texts outline.clauseStart ++ outline.name.text⟩ ::
        outline.gap.map ofToken, span.kind ≠ .importBlock := by
    intro span member
    rcases List.mem_append.1 member with header | rest
    · exact not_importBlock_of_ofToken span header
    · rcases List.mem_cons.1 rest with rfl | gap
      · exact clause
      · exact not_importBlock_of_ofToken span gap
  have text : texts (outline.header.map ofToken ++
      ⟨.packageClause, Token.texts outline.clauseStart ++ outline.name.text⟩ ::
        outline.gap.map ofToken) = Token.texts outline.front := by
    simp only [Outline.front, texts_append, texts_cons, Token.texts_append, Token.texts_cons,
      texts_map_ofToken, List.append_assoc]
  have none : (locateFrom (0 + Text.byteSize (Token.texts outline.front))
      (1 + Text.newlines (Token.texts outline.front)) (outline.body.map ofToken)).find?
        (fun located => located.span.kind = .importBlock) = none :=
    find?_locateFrom_eq_none not_importBlock_of_ofToken
  rw [firstOf?, locate, ofOutline, List.append_assoc, locateFrom_append, List.find?_append,
    find?_locateFrom_eq_none before, text, Option.none_or]
  split_ifs with empty
  · rw [List.nil_append]
    exact none
  · simp [locateFrom, Nat.add_comm]

end Span

namespace Token

def significantFrom (start line : Nat) (tokens : List Token) : List Located :=
  (locateFrom start line tokens).filter (·.token.isSignificant)

theorem significantFrom_cons (start line : Nat) (token : Token) (tokens : List Token) :
    significantFrom start line (token :: tokens) =
      if token.isSignificant then
        ⟨start, line, token⟩ :: significantFrom (start + Text.byteSize token.text)
          (line + Text.newlines token.text) tokens
      else
        significantFrom (start + Text.byteSize token.text) (line + Text.newlines token.text)
          tokens := by
  rw [significantFrom, locateFrom, List.filter_cons]
  rfl

theorem significantFrom_append (start line : Nat) (a b : List Token) :
    significantFrom start line (a ++ b) = significantFrom start line a ++
      significantFrom (start + Text.byteSize (texts a)) (line + Text.newlines (texts a)) b := by
  rw [significantFrom, locateFrom_append, List.filter_append]
  rfl

theorem significantFrom_of_gap {tokens : List Token} (start line : Nat)
    (gaps : ∀ token ∈ tokens, Outline.isGap token) : significantFrom start line tokens = [] := by
  induction tokens generalizing start line with
  | nil => rfl
  | cons token tokens ih =>
    obtain ⟨first, later⟩ := List.forall_mem_cons.1 gaps
    have skipped : token.isSignificant = false := by simpa [Outline.isGap] using first
    rw [significantFrom_cons, skipped, if_neg (by simp)]
    exact ih _ _ later

def markAt? (c : Char) (start : Nat) : List Token → Option Nat
  | [] => none
  | token :: tokens =>
    if token.isMark c then some start else markAt? c (start + Text.byteSize token.text) tokens

private theorem markAt?_append (c : Char) (start : Nat) (a b : List Token) :
    markAt? c start (a ++ b) =
      (markAt? c start a).or (markAt? c (start + Text.byteSize (texts a)) b) := by
  induction a generalizing start with
  | nil => rfl
  | cons token tokens ih =>
    rw [List.cons_append, markAt?, markAt?, texts_cons, Text.byteSize_append, ← Nat.add_assoc]
    split_ifs with found
    · rfl
    · exact ih _

private theorem markAt?_eq_none {c : Char} {tokens : List Token} (start : Nat)
    (other : ∀ token ∈ tokens, token.isMark c = false) : markAt? c start tokens = none := by
  induction tokens generalizing start with
  | nil => rfl
  | cons token tokens ih =>
    obtain ⟨first, later⟩ := List.forall_mem_cons.1 other
    rw [markAt?, first]
    exact ih _ later

theorem isSome_markAt? {c : Char} {tokens : List Token} {token : Token} (start : Nat)
    (member : token ∈ tokens) (found : token.isMark c) : (markAt? c start tokens).isSome := by
  induction tokens generalizing start with
  | nil => cases member
  | cons first tokens ih =>
    rw [markAt?]
    split_ifs with mark
    · rfl
    · rcases List.mem_cons.1 member with rfl | later
      · exact absurd found mark
      · exact ih _ later

theorem markAt?_of_first {c : Char} {before after : List Token} {token : Token} (start : Nat)
    (other : ∀ token ∈ before, token.isMark c = false) (found : token.isMark c) :
    markAt? c start (before ++ token :: after) = some (start + Text.byteSize (texts before)) := by
  rw [markAt?_append, markAt?_eq_none start other, markAt?, if_pos found]
  rfl

theorem markAt?_eq_some {c : Char} {start offset : Nat} {tokens : List Token}
    (found : markAt? c start tokens = some offset) :
    ∃ before token after, tokens = before ++ token :: after ∧ token.isMark c ∧
      offset = start + Text.byteSize (texts before) := by
  induction tokens generalizing start with
  | nil => cases found
  | cons token tokens ih =>
    rw [markAt?] at found
    split_ifs at found with mark
    · cases found
      exact ⟨[], token, tokens, rfl, mark, rfl⟩
    · obtain ⟨before, other, after, rfl, mark, place⟩ := ih found
      refine ⟨token :: before, other, after, rfl, mark, ?_⟩
      rw [place, texts_cons, Text.byteSize_append, Nat.add_assoc]

end Token

namespace ImportLayout

open Token (texts significantFrom markAt?)

def pathsOf (tokens : List Token) : List String :=
  (tokens.filter (·.kind = .literal)).map fun token => unquote token.text

theorem pathsOf_append (a b : List Token) : pathsOf (a ++ b) = pathsOf a ++ pathsOf b := by
  simp [pathsOf]

theorem pathsOf_cons_of_ne {token : Token} (other : token.kind ≠ .literal) (tokens : List Token) :
    pathsOf (token :: tokens) = pathsOf tokens := by
  simp [pathsOf, other]

theorem pathsOf_cons_of_eq {token : Token} (literal : token.kind = .literal)
    (tokens : List Token) : pathsOf (token :: tokens) = unquote token.text :: pathsOf tokens := by
  simp [pathsOf, literal]

theorem pathsOf_of_gap {tokens : List Token} (gaps : ∀ token ∈ tokens, Outline.isGap token) :
    pathsOf tokens = [] := by
  rw [pathsOf, List.map_eq_nil_iff, List.filter_eq_nil_iff]
  intro token member literal
  have gap := gaps token member
  rw [Outline.isGap_eq_false_of_kind (.inr (by simpa using literal))] at gap
  cases gap

/-- Whether an import is one of those among tokens that start at an offset: it goes from the start
of a token to the end of a literal. -/
def IsAmong (start : Nat) (tokens : List Token) (placed : PlacedImport) : Prop :=
  ∃ before middle literal after, tokens = before ++ middle ++ literal :: after ∧
    literal.kind = .literal ∧ placed.start = start + Text.byteSize (texts before) ∧
    placed.stop = start + Text.byteSize (texts (before ++ middle ++ [literal]))

theorem IsAmong.append {start : Nat} {tokens : List Token} {placed : PlacedImport}
    (among : IsAmong start tokens placed) (more : List Token) :
    IsAmong start (tokens ++ more) placed := by
  obtain ⟨before, middle, literal, after, rfl, rest⟩ := among
  exact ⟨before, middle, literal, after ++ more, by simp, rest⟩

namespace Reading

/-- Whether a reading tells of all tokens that it has seen, the first of which starts at an
offset. -/
structure Tells (start : Nat) (tokens : List Token) (reading : Reading) : Prop where
  paths : reading.specs.map (·.spec.path) = pathsOf tokens
  opened : reading.opened = markAt? '(' start tokens
  closed : reading.closed = markAt? ')' start tokens
  specs : ∀ placed ∈ reading.specs, IsAmong start tokens placed
  name : ∀ name offset, reading.name = some (name, offset) →
    ∃ before after, tokens = before ++ after ∧ offset = start + Text.byteSize (texts before)

theorem tells_nil (start : Nat) : Tells start [] {} where
  paths := rfl
  opened := rfl
  closed := rfl
  specs := by simp
  name := by simp

variable {start line : Nat} {tokens : List Token} {token : Token} {reading next : Reading}

private theorem Tells.pass (tells : reading.Tells start tokens)
    (other : token.kind ≠ .literal) (specs : next.specs = reading.specs)
    (opened : next.opened = reading.opened.or
      (markAt? '(' (start + Text.byteSize (texts tokens)) [token]))
    (closed : next.closed = reading.closed.or
      (markAt? ')' (start + Text.byteSize (texts tokens)) [token]))
    (name : next.name = reading.name ∨ next.name = none ∨
      ∃ word, next.name = some (word, start + Text.byteSize (texts tokens))) :
    next.Tells start (tokens ++ [token]) where
  paths := by
    rw [specs, tells.paths, pathsOf_append, pathsOf_cons_of_ne other]
    simp [pathsOf]
  opened := by rw [opened, tells.opened, Token.markAt?_append]
  closed := by rw [closed, tells.closed, Token.markAt?_append]
  specs := fun placed member => (tells.specs placed (specs ▸ member)).append [token]
  name := by
    intro word offset found
    rcases name with same | none | ⟨_, now⟩
    · obtain ⟨before, after, rfl, place⟩ := tells.name word offset (same ▸ found)
      exact ⟨before, after ++ [token], by simp, place⟩
    · rw [none] at found
      cases found
    · rw [now] at found
      cases found
      exact ⟨tokens, [token], rfl, rfl⟩

theorem Tells.skip (tells : reading.Tells start tokens) (gap : token.isSignificant = false) :
    reading.Tells start (tokens ++ [token]) := by
  have kind : token.kind = .blank ∨ token.kind = .comment := by
    cases kind : token.kind <;> simp [Token.isSignificant, kind] at gap ⊢
  have mark (c : Char) : token.isMark c = false := by
    rcases kind with kind | kind <;> simp [Token.isMark, kind]
  refine tells.pass ?_ rfl ?_ ?_ (.inl rfl)
  · rcases kind with kind | kind <;> simp [kind]
  · simp [markAt?, mark]
  · simp [markAt?, mark]

theorem Tells.step (tells : reading.Tells start tokens)
    (done : reading.step ⟨start + Text.byteSize (texts tokens), line, token⟩ = some next) :
    next.Tells start (tokens ++ [token]) := by
  have mark (c : Char) (kind : token.kind ≠ .mark) : token.isMark c = false := by
    simp [Token.isMark, kind]
  have isMark (c : Char) (kind : token.kind = .mark) : token.isMark c = (token.text == [c]) := by
    simp [Token.isMark, kind]
  simp only [Reading.step] at done
  cases kind : token.kind with
  | word =>
    have opening := mark '(' (by simp [kind])
    have closing := mark ')' (by simp [kind])
    simp only [kind] at done
    split_ifs at done <;> cases done
    · exact tells.pass (by simp [kind]) rfl (by simp [markAt?, opening])
        (by simp [markAt?, closing]) (.inr (.inl rfl))
    · exact tells.pass (by simp [kind]) rfl (by simp [markAt?, opening])
        (by simp [markAt?, closing]) (.inr (.inr ⟨_, rfl⟩))
  | mark =>
    simp only [kind] at done
    split_ifs at done with dot opening closing semicolon <;> cases done
    · exact tells.pass (by simp [kind]) rfl (by simp [markAt?, isMark _ kind, dot])
        (by simp [markAt?, isMark _ kind, dot]) (.inr (.inr ⟨_, rfl⟩))
    · exact tells.pass (by simp [kind]) rfl (by simp [markAt?, isMark _ kind, opening])
        (by simp [markAt?, isMark _ kind, opening]) (.inl rfl)
    · exact tells.pass (by simp [kind]) rfl (by simp [markAt?, isMark _ kind, closing])
        (by simp [markAt?, isMark _ kind, closing]) (.inl rfl)
    · exact tells.pass (by simp [kind]) rfl (by simp [markAt?, isMark _ kind, semicolon])
        (by simp [markAt?, isMark _ kind, semicolon]) (.inr (.inl rfl))
  | blank => simp [kind] at done
  | comment => simp [kind] at done
  | number => simp [kind] at done
  | literal =>
    have opening := mark '(' (by simp [kind])
    have closing := mark ')' (by simp [kind])
    simp only [kind, Option.some.injEq] at done
    subst done
    have size : Text.byteSize (texts (tokens ++ [token])) =
        Text.byteSize (texts tokens) + Text.byteSize token.text := by
      simp [texts, Text.byteSize_append]
    refine ⟨?_, ?_, ?_, ?_, by simp⟩
    · rw [pathsOf_append, pathsOf_cons_of_eq kind, List.map_append, tells.paths]
      cases reading.name <;> simp [pathsOf]
    · rw [Token.markAt?_append, ← tells.opened]
      simp [markAt?, opening]
    · rw [Token.markAt?_append, ← tells.closed]
      simp [markAt?, closing]
    · intro placed member
      rcases List.mem_append.1 member with earlier | new
      · exact (tells.specs placed earlier).append [token]
      · obtain rfl := List.mem_singleton.1 new
        cases pending : reading.name with
        | none =>
          refine ⟨tokens, [], token, [], by simp, kind, rfl, ?_⟩
          simp only [List.append_nil, size, Token.Located.stop]
          omega
        | some name =>
          obtain ⟨before, middle, rfl, place⟩ := tells.name name.1 name.2 pending
          refine ⟨before, middle, token, [], rfl, kind, place, ?_⟩
          simp only [size, Token.Located.stop]
          omega

theorem Tells.run {before : List Token} (tells : reading.Tells start before)
    (done : reading.run (significantFrom (start + Text.byteSize (texts before)) line tokens) =
      .ok next) : next.Tells start (before ++ tokens) := by
  induction tokens generalizing before line reading with
  | nil =>
    cases done
    rwa [List.append_nil]
  | cons token tokens ih =>
    have size : start + Text.byteSize (texts (before ++ [token])) =
        start + Text.byteSize (texts before) + Text.byteSize token.text := by
      simp [texts, Text.byteSize_append, Nat.add_assoc]
    have parts : before ++ token :: tokens = before ++ [token] ++ tokens := by simp
    rw [Token.significantFrom_cons, ← size] at done
    rw [parts]
    split_ifs at done with significant
    · rw [Reading.run] at done
      split at done
      · cases done
      next stepped => exact ih (tells.step stepped) done
    · exact ih (tells.skip (by simpa using significant)) done

theorem exists_of_run_append {a b : List Token.Located} (done : reading.run (a ++ b) = .ok next) :
    ∃ middle, reading.run a = .ok middle ∧ middle.run b = .ok next := by
  induction a generalizing reading with
  | nil => exact ⟨reading, rfl, done⟩
  | cons located a ih =>
    rw [List.cons_append, Reading.run] at done
    rw [Reading.run]
    split at done
    · cases done
    · exact ih done

theorem exists_specs_of_run {located : List Token.Located} (done : reading.run located = .ok next) :
    ∃ more, next.specs = reading.specs ++ more := by
  induction located generalizing reading with
  | nil =>
    cases done
    exact ⟨[], by simp⟩
  | cons token located ih =>
    rw [Reading.run] at done
    split at done
    · cases done
    next stepped found =>
      obtain ⟨more, rest⟩ := ih done
      have grown : ∃ new, stepped.specs = reading.specs ++ new := by
        simp only [Reading.step] at found
        split at found
        · split_ifs at found <;> cases found <;> exact ⟨[], by simp⟩
        · cases found
          exact ⟨_, rfl⟩
        · split_ifs at found <;> cases found <;> exact ⟨[], by simp⟩
        · cases found
      obtain ⟨new, first⟩ := grown
      exact ⟨new ++ more, by rw [rest, first, List.append_assoc]⟩

theorem exists_of_run_error {located : List Token.Located} {cause : ScanError}
    (stopped : reading.run located = .error cause) :
    ∃ token ∈ located, cause = .malformedImport token.line := by
  induction located generalizing reading with
  | nil => cases stopped
  | cons token located ih =>
    rw [Reading.run] at stopped
    split at stopped
    · cases stopped
      exact ⟨token, List.mem_cons_self, rfl⟩
    · obtain ⟨found, later, same⟩ := ih stopped
      exact ⟨found, List.mem_cons_of_mem _ later, same⟩

/-- What decides how a reading goes on: how many groups are open, and whether a name waits for its
path. -/
def stage (reading : Reading) : Nat × Bool :=
  (reading.depth, reading.name.isSome)

def advance (stage : Nat × Bool) (token : Token) : Option (Nat × Bool) :=
  match token.kind with
  | .blank | .comment => some stage
  | .number => none
  | .word => some (stage.1, token.text != "import".toList)
  | .literal => some (stage.1, false)
  | .mark =>
    if token.text = ['.'] ∧ stage.2 = false then some (stage.1, true)
    else if token.text = ['('] then some (stage.1 + 1, stage.2)
    else if token.text = [')'] then some (stage.1 - 1, stage.2)
    else if token.text = [';'] then some (stage.1, false)
    else none

theorem advance_of_gap {token : Token} (gap : token.isSignificant = false) (stage : Nat × Bool) :
    advance stage token = some stage := by
  cases kind : token.kind <;> simp [Token.isSignificant, kind] at gap <;> simp [advance, kind]

theorem foldlM_advance_of_gap {tokens : List Token} (gaps : ∀ token ∈ tokens, Outline.isGap token)
    (stage : Nat × Bool) : tokens.foldlM advance stage = some stage := by
  induction tokens with
  | nil => rfl
  | cons token tokens ih =>
    obtain ⟨first, later⟩ := List.forall_mem_cons.1 gaps
    have skipped : token.isSignificant = false := by simpa [Outline.isGap] using first
    rw [List.foldlM_cons, advance_of_gap skipped]
    exact ih later

theorem map_stage_step (reading : Reading) (located : Token.Located)
    (significant : located.token.isSignificant) :
    (reading.step located).map stage = advance reading.stage located.token := by
  have pending : reading.name = none ↔ reading.name.isSome = false := by simp
  cases kind : located.token.kind with
  | blank => simp [Token.isSignificant, kind] at significant
  | comment => simp [Token.isSignificant, kind] at significant
  | number => simp [Reading.step, advance, kind]
  | literal => simp [Reading.step, advance, kind, stage]
  | word =>
    simp only [Reading.step, advance, kind]
    split_ifs with keyword
    · simp [stage, keyword]
    · rw [bne_iff_ne.2 keyword]
      rfl
  | mark =>
    simp only [Reading.step, advance, kind, stage, pending]
    split_ifs <;> simp_all [stage]

theorem map_stage_run (reading : Reading) (start line : Nat) (tokens : List Token) :
    (reading.run (significantFrom start line tokens)).toOption.map stage =
      tokens.foldlM advance reading.stage := by
  induction tokens generalizing start line reading with
  | nil => rfl
  | cons token tokens ih =>
    rw [Token.significantFrom_cons, List.foldlM_cons]
    split_ifs with significant
    · rw [← map_stage_step reading ⟨start, line, token⟩ significant, Reading.run]
      cases stepped : reading.step ⟨start, line, token⟩ with
      | none => rfl
      | some next => exact ih next _ _
    · rw [advance_of_gap (by simpa using significant)]
      exact ih reading _ _

private theorem advance_loosened {depth depth' : Nat} {named named' other : Bool} {token : Token}
    (read : advance (depth, named) token = some (depth', named'))
    (looser : other = true → named = true) :
    ∃ other', advance (depth, other) token = some (depth', other') ∧
      (other' = true → named' = true) := by
  cases kind : token.kind with
  | mark =>
    simp only [advance, kind] at read ⊢
    cases other <;> cases named <;> split_ifs at read ⊢ <;> simp_all
  | blank => simp_all [advance]
  | comment => simp_all [advance]
  | number => simp [advance, kind] at read
  | word => simp_all [advance]
  | literal => simp_all [advance]

theorem foldlM_advance_loosened {depth depth' : Nat} {named named' other : Bool}
    {tokens : List Token} (read : tokens.foldlM advance (depth, named) = some (depth', named'))
    (looser : other = true → named = true) :
    ∃ other', tokens.foldlM advance (depth, other) = some (depth', other') := by
  induction tokens generalizing depth named other with
  | nil =>
    cases read
    exact ⟨other, rfl⟩
  | cons token tokens ih =>
    rw [List.foldlM_cons] at read ⊢
    obtain ⟨⟨middle, waits⟩, first, rest⟩ := Option.bind_eq_some_iff.1 read
    obtain ⟨waits', first', looser'⟩ := advance_loosened first looser
    rw [first']
    exact ih rest looser'

def layout (reading : Reading) : ImportLayout :=
  ⟨reading.specs, reading.opened.bind fun start => reading.closed.map fun stop => (start, stop)⟩

end Reading

end ImportLayout

namespace SourceFile

open ImportLayout (Reading pathsOf)

/-- Whether a file holds the text of an outline and what is read from it. -/
structure HasOutline (file : SourceFile) (outline : Outline) : Prop where
  text : file.text = Token.texts outline.tokens
  spans : file.spans = Span.ofOutline outline
  stand : Token.Stand outline.tokens
  formed : outline.IsWellFormed

theorem IsCurrent.hasOutline {file : SourceFile} (current : file.IsCurrent) :
    ∃ outline, file.HasOutline outline := by
  obtain ⟨outline, lexed, outlined, spans, -, -⟩ := current.exists_outline
  obtain ⟨text, stand⟩ := Token.lexFrom_eq_ok_iff.1 lexed
  exact ⟨outline, text.symm, spans, stand, (Outline.ofTokens_eq_ok_iff.1 outlined).2⟩

private theorem scan_of_stand {outline : Outline} (stand : Token.Stand outline.tokens)
    (formed : outline.IsWellFormed) :
    Span.scan (Token.texts outline.tokens) = .ok (Span.ofOutline outline) := by
  have lexed : Token.lex (Token.texts outline.tokens) = .ok outline.tokens :=
    Token.lexFrom_eq_ok_iff.2 ⟨rfl, stand⟩
  have outlined : Outline.ofTokens outline.tokens = .ok outline :=
    Outline.ofTokens_eq_ok_iff.2 ⟨rfl, formed⟩
  simp only [Span.scan, lexed, outlined]
  rfl

def LeadsTo (file : SourceFile) (edits : List Edit) (outline : Outline) : Prop :=
  ∃ edited changed, file.edit edits = .ok (edited, changed) ∧ edited.IsCurrent ∧
    edited.HasOutline outline

theorem leadsTo_of_splice {file : SourceFile} {edits : List Edit} {outline : Outline}
    (current : file.IsCurrent) (stand : Token.Stand outline.tokens)
    (formed : outline.IsWellFormed)
    (spliced : Edit.splice file.text edits = some (Token.texts outline.tokens)) :
    file.LeadsTo edits outline := by
  have scanned := scan_of_stand stand formed
  by_cases same : Token.texts outline.tokens = file.text
  · have spans : file.spans = Span.ofOutline outline := by
      have both := current.scanned.symm.trans (same ▸ scanned)
      simpa using both
    refine ⟨file, false, ?_, current, same.symm, spans, stand, formed⟩
    simp only [SourceFile.edit_eq, spliced, same, if_true, ite_self]
  · have some : edits ≠ [] := by
      rintro rfl
      exact same (by simpa [Edit.splice, Edit.spliceFrom, Text.cut?] using spliced.symm)
    have taken : file.withText (Token.texts outline.tokens) = .ok { file with
        package := String.ofList (clauseName (Span.ofOutline outline))
        text := Token.texts outline.tokens
        spans := Span.ofOutline outline } := by
      simp only [withText, scanned]
      rfl
    refine ⟨_, true, ?_, .of_withText taken, rfl, rfl, stand, formed⟩
    simp only [SourceFile.edit_eq, some, spliced, same, taken, if_false]

theorem ofFile_eq_error {file : SourceFile} {cause : ScanError}
    (failed : file.imports = .error cause) : ImportLayout.ofFile file = .error cause := by
  cases found : ImportLayout.ofFile file with
  | error other =>
    rw [SourceFile.imports, found] at failed
    exact congrArg _ (Except.error.inj failed)
  | ok layout =>
    rw [SourceFile.imports, found] at failed
    cases failed

namespace HasOutline

variable {file : SourceFile} {outline : Outline}

theorem ofFile_of_none (has : file.HasOutline outline) (empty : outline.imports = []) :
    ImportLayout.ofFile file = .ok none := by
  rw [ImportLayout.ofFile, has.spans, Span.firstOf?_importBlock, if_pos empty]

theorem ofFile_of_some (has : file.HasOutline outline) (present : outline.imports ≠ []) :
    ImportLayout.ofFile file =
      match Reading.run {} (Token.significantFrom (Text.byteSize (Token.texts outline.front))
        (Text.newlines (Token.texts outline.front) + 1) outline.imports) with
      | .error cause => .error cause
      | .ok reading =>
        if reading.depth = 0 then .ok (some reading.layout)
        else .error (.malformedImport (Text.newlines (Token.texts outline.front) + 1)) := by
  have lexed : Token.lex (Token.texts outline.imports) = .ok outline.imports :=
    Token.lexFrom_eq_ok_iff.2 ⟨rfl, Outline.stand_imports has.stand⟩
  rw [ImportLayout.ofFile, has.spans, Span.firstOf?_importBlock, if_neg present]
  simp only [ImportLayout.ofBlock, lexed, Token.significantFrom]
  generalize Reading.run {} _ = result
  cases result with
  | error cause => rfl
  | ok reading =>
    by_cases closed : reading.depth = 0
    · simp only [closed, if_true]
      rfl
    · simp only [closed, if_false]
      rfl

theorem exists_reading (has : file.HasOutline outline) {layout : ImportLayout}
    (done : ImportLayout.ofFile file = .ok (some layout)) :
    outline.imports ≠ [] ∧ ∃ reading,
      Reading.run {} (Token.significantFrom (Text.byteSize (Token.texts outline.front))
        (Text.newlines (Token.texts outline.front) + 1) outline.imports) = .ok reading ∧
      reading.Tells (Text.byteSize (Token.texts outline.front)) outline.imports ∧
      layout = reading.layout := by
  by_cases empty : outline.imports = []
  · rw [has.ofFile_of_none empty] at done
    cases done
  · rw [has.ofFile_of_some empty] at done
    split at done
    · cases done
    next reading read =>
      split at done
      · cases done
        exact ⟨empty, reading, read, (Reading.tells_nil _).run read, rfl⟩
      · cases done

theorem imports_ok_iff (has : file.HasOutline outline) :
    (∃ imports, file.imports = .ok imports ∧ imports.map (·.path) = pathsOf outline.imports) ↔
      ∃ named, outline.imports.foldlM Reading.advance (0, false) = some (0, named) := by
  by_cases empty : outline.imports = []
  · simp only [SourceFile.imports, has.ofFile_of_none empty, empty]
    exact iff_of_true ⟨[], rfl, rfl⟩ ⟨false, rfl⟩
  · have stages := Reading.map_stage_run {} (Text.byteSize (Token.texts outline.front))
      (Text.newlines (Token.texts outline.front) + 1) outline.imports
    have start : Reading.stage {} = (0, false) := rfl
    rw [start] at stages
    simp only [SourceFile.imports, has.ofFile_of_some empty, ← stages]
    cases read : Reading.run {} (Token.significantFrom
        (Text.byteSize (Token.texts outline.front))
        (Text.newlines (Token.texts outline.front) + 1) outline.imports) with
    | error cause =>
      refine iff_of_false ?_ ?_
      · rintro ⟨imports, done, -⟩
        cases done
      · rintro ⟨named, done⟩
        cases done
    | ok reading =>
      have tells := (Reading.tells_nil _).run read
      by_cases closed : reading.depth = 0
      · refine iff_of_true ⟨reading.specs.map (·.spec), ?_, ?_⟩ ⟨reading.name.isSome, ?_⟩
        · simp only [closed, if_true]
          rfl
        · rw [List.map_map]
          exact tells.paths
        · simp only [Except.toOption, Option.map_some, Reading.stage, closed]
      · refine iff_of_false ?_ ?_
        · rintro ⟨imports, done, -⟩
          simp only [closed, if_false] at done
          cases done
        · rintro ⟨named, done⟩
          simp [Except.toOption, Reading.stage, closed] at done

theorem imports_eq_error (has : file.HasOutline outline) {cause : ScanError}
    (failed : file.imports = .error cause) : ∃ line, cause = .malformedImport line := by
  have stopped := ofFile_eq_error failed
  by_cases empty : outline.imports = []
  · rw [has.ofFile_of_none empty] at stopped
    cases stopped
  · rw [has.ofFile_of_some empty] at stopped
    split at stopped
    next refused =>
      obtain rfl := Except.error.inj stopped
      obtain ⟨token, -, named⟩ := Reading.exists_of_run_error refused
      exact ⟨token.line, named⟩
    · split_ifs at stopped with closed
      exact ⟨_, (Except.error.inj stopped).symm⟩

theorem paths_of_imports (has : file.HasOutline outline) {imports : List Import}
    (done : file.imports = .ok imports) :
    imports.map (·.path) = pathsOf outline.imports := by
  cases layout : ImportLayout.ofFile file with
  | error cause =>
    rw [SourceFile.imports, layout] at done
    cases done
  | ok found =>
    rw [SourceFile.imports, layout] at done
    cases found with
    | none =>
      cases done
      by_cases empty : outline.imports = []
      · rw [empty]
        rfl
      · rw [has.ofFile_of_some empty] at layout
        split at layout
        · cases layout
        · split at layout <;> cases layout
    | some placed =>
      cases done
      obtain ⟨-, reading, -, tells, rfl⟩ := has.exists_reading layout
      rw [← tells.paths, List.map_map]
      rfl

end HasOutline

end SourceFile

end Repackage
