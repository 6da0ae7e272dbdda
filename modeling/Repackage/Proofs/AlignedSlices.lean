import Repackage.Proofs.ImportAdditions

/-!
Parts of a text that begin and end between tokens. Such a part is read as the tokens that it was cut
from, since whether a token stands is decided by the token and the character behind it, and behind
the last token of the part there is none. An import block is such a part, so its imports are read
from the tokens of the whole text, and it holds either a group or an import.
-/

set_option autoImplicit false
set_option relaxedAutoImplicit false

namespace Repackage

namespace Token

def IsBoundary (tokens : List Token) (offset : Nat) : Prop :=
  ∃ before after, tokens = before ++ after ∧ offset = Text.byteSize (texts before)

/-- The token, moved on by some bytes and lines. -/
def Located.moved (bytes lines : Nat) (located : Located) : Located :=
  ⟨located.start + bytes, located.line + lines, located.token⟩

def between (start stop : Nat) (tokens : List Located) : List Located :=
  tokens.filter fun located => start ≤ located.start && located.stop ≤ stop

/-- Whether every part of a text that begins and ends between tokens is read as the tokens there,
moved to the front of the part. -/
def SlicesAlike (text : Text) (tokens : List Token) : Prop :=
  ∀ start stop, start ≤ stop → IsBoundary tokens start → IsBoundary tokens stop →
    ∃ slice inside lines, Text.slice? text start stop = some slice ∧
      Text.lineAt? text start = some (lines + 1) ∧ lex slice = .ok inside ∧
      (locateFrom 0 1 inside).map (·.moved start lines) =
        between start stop (locateFrom 0 1 tokens)

section Boundaries

variable {tokens before middle after : List Token} {start stop : Nat}

private theorem ne_nil_of_stand (stand : Stand tokens) : ∀ token ∈ tokens, token.text ≠ [] := by
  intro token member
  obtain ⟨rest, c, cs, spelled, -⟩ := exists_stands_of_mem stand member
  simp [spelled]

private theorem eq_nil_of_texts (stand : Stand tokens) (empty : Text.byteSize (texts tokens) = 0) :
    tokens = [] := by
  cases tokens with
  | nil => rfl
  | cons token tokens =>
    have filled := ne_nil_of_stand stand token List.mem_cons_self
    have blank := Text.eq_nil_of_byteSize empty
    rw [texts_cons, List.append_eq_nil_iff] at blank
    exact absurd blank.1 filled

theorem exists_between (stand : Stand tokens) (first : IsBoundary tokens start)
    (second : IsBoundary tokens stop) (ordered : start ≤ stop) :
    ∃ before middle after, tokens = before ++ middle ++ after ∧
      start = Text.byteSize (texts before) ∧ stop = Text.byteSize (texts (before ++ middle)) := by
  obtain ⟨before, rest, rfl, rfl⟩ := first
  obtain ⟨front, after, same, rfl⟩ := second
  rcases List.append_eq_append_iff.1 same with ⟨middle, rfl, rfl⟩ | ⟨extra, rfl, rfl⟩
  · exact ⟨before, middle, after, by simp, rfl, rfl⟩
  · -- The second boundary would be the smaller one, so the two are equal.
    rw [texts_append, Text.byteSize_append] at ordered
    have alone : Stand extra := (stand_append_iff.1 (stand_append_iff.1 stand).1).2.1
    obtain rfl : extra = [] := eq_nil_of_texts alone (by omega)
    exact ⟨front, [], rest, by simp, by simp, by simp⟩

private theorem map_moved_locateFrom (bytes lines start line : Nat) (tokens : List Token) :
    (locateFrom start line tokens).map (·.moved bytes lines) =
      locateFrom (start + bytes) (line + lines) tokens := by
  induction tokens generalizing start line with
  | nil => rfl
  | cons token tokens ih =>
    rw [locateFrom, List.map_cons, ih, locateFrom, Nat.add_right_comm start,
      Nat.add_right_comm line]
    rfl

private theorem bounds_of_mem_locateFrom {line : Nat} {located : Located}
    (member : located ∈ locateFrom start line tokens) :
    start ≤ located.start ∧ located.stop ≤ start + Text.byteSize (texts tokens) := by
  obtain ⟨before, after, rfl, place, -⟩ := mem_locateFrom member
  rw [Located.stop, place, texts_append, texts_cons, Text.byteSize_append, Text.byteSize_append]
  omega

private theorem start_lt_stop {line : Nat} (filled : ∀ token ∈ tokens, token.text ≠ [])
    {located : Located}
    (member : located ∈ locateFrom start line tokens) : located.start < located.stop := by
  obtain ⟨before, after, rfl, -⟩ := mem_locateFrom member
  have positive := mt Text.eq_nil_of_byteSize (filled located.token (by simp))
  rw [Located.stop]
  omega

private theorem between_append (start stop : Nat) (a b : List Located) :
    between start stop (a ++ b) = between start stop a ++ between start stop b :=
  List.filter_append a b

private theorem between_eq_nil {located : List Located}
    (outside : ∀ token ∈ located, token.start < token.stop ∧
      (token.stop ≤ start ∨ stop ≤ token.start)) : between start stop located = [] := by
  refine List.filter_eq_nil_iff.2 fun token member inside => ?_
  have apart := outside token member
  simp only [Bool.and_eq_true, decide_eq_true_eq] at inside
  omega

private theorem between_eq_self {located : List Located}
    (inside : ∀ token ∈ located, start ≤ token.start ∧ token.stop ≤ stop) :
    between start stop located = located := by
  refine List.filter_eq_self.2 fun token member => ?_
  simpa using inside token member

private theorem between_locateFrom (stand : Stand (before ++ middle ++ after)) (start line : Nat) :
    between (start + Text.byteSize (texts before))
        (start + Text.byteSize (texts (before ++ middle)))
        (locateFrom start line (before ++ middle ++ after)) =
      locateFrom (start + Text.byteSize (texts before)) (line + Text.newlines (texts before))
        middle := by
  have filled := ne_nil_of_stand stand
  have size : Text.byteSize (texts (before ++ middle)) =
      Text.byteSize (texts before) + Text.byteSize (texts middle) := by
    rw [texts_append, Text.byteSize_append]
  rw [locateFrom_append, locateFrom_append start line before, between_append, between_append,
    between_eq_nil, between_eq_self, between_eq_nil, List.nil_append, List.append_nil]
  · intro located member
    have bounds := bounds_of_mem_locateFrom member
    exact ⟨start_lt_stop (fun token among => filled token (by simp [among])) member, by omega⟩
  · intro located member
    have bounds := bounds_of_mem_locateFrom member
    omega
  · intro located member
    have bounds := bounds_of_mem_locateFrom member
    exact ⟨start_lt_stop (fun token among => filled token (by simp [among])) member, by omega⟩

private theorem slicesAlike_of_lex {text : Text} (read : lex text = .ok tokens) :
    SlicesAlike text tokens := by
  obtain ⟨rfl, stand⟩ := lexFrom_eq_ok_iff.1 read
  intro start stop ordered first second
  obtain ⟨before, middle, after, rfl, rfl, rfl⟩ := exists_between stand first second ordered
  have alone : Stand middle := (stand_append_iff.1 (stand_append_iff.1 stand).1).2.1
  have parts : texts (before ++ middle ++ after) = texts before ++ texts middle ++ texts after := by
    rw [texts_append, texts_append]
  refine ⟨texts middle, middle, Text.newlines (texts before), ?_, ?_, ?_, ?_⟩
  · rw [parts, texts_append before, Text.slice?_byteSize]
  · rw [parts, List.append_assoc, Text.lineAt?_byteSize]
  · exact lexFrom_eq_ok_iff.2 ⟨rfl, alone⟩
  · have inside := between_locateFrom stand 0 1
    rw [Nat.zero_add, Nat.zero_add] at inside
    rw [inside, map_moved_locateFrom, Nat.zero_add]

end Boundaries

end Token

def ImportLayout.ofLocated (line : Nat) (tokens : List Token.Located) :
    Except ScanError ImportLayout :=
  match Reading.run {} (tokens.filter (·.token.isSignificant)) with
  | .error cause => .error cause
  | .ok reading => if reading.depth = 0 then .ok reading.layout else .error (.malformedImport line)

namespace SourceFile

/-- Whether the imports of a file are read from the tokens of its text. Then they can only be
malformed, there is one where there is no group, and no import that is missing is passed over. -/
structure ReadsBlock (file : SourceFile) : Prop where
  sees : ∀ block, Span.firstOf? .importBlock file.spans = some block →
    ∃ tokens inside, Token.lex file.text = .ok tokens ∧ Token.lex block.span.text = .ok inside ∧
      Token.IsBoundary tokens block.start ∧ Token.IsBoundary tokens block.stop ∧
      Token.locateFrom block.start block.line inside =
        Token.between block.start block.stop (Token.locateFrom 0 1 tokens) ∧
      ImportLayout.ofFile file = (ImportLayout.ofLocated block.line
        (Token.between block.start block.stop (Token.locateFrom 0 1 tokens))).map some
  fails : ∀ cause, file.imports = .error cause → ∃ line, cause = .malformedImport line
  present : ∀ layout, ImportLayout.ofFile file = .ok (some layout) → layout.group = none →
    layout.specs ≠ []
  complete : ∀ required later, file.reconcile required = .ok (later, []) →
    ∃ imports, file.imports = .ok imports ∧
      ∀ spec ∈ required, spec.path ∈ imports.map (·.path)

variable {file : SourceFile} {outline : Outline}

private theorem HasOutline.sees_block (has : file.HasOutline outline) {block : Span.Located}
    (found : Span.firstOf? .importBlock file.spans = some block) :
    Token.lex block.span.text = .ok outline.imports ∧
      Token.IsBoundary outline.tokens block.start ∧ Token.IsBoundary outline.tokens block.stop ∧
      Token.locateFrom block.start block.line outline.imports =
        Token.between block.start block.stop (Token.locateFrom 0 1 outline.tokens) := by
  rw [has.spans, Span.firstOf?_importBlock] at found
  split_ifs at found with empty
  cases found
  have size : Text.byteSize (Token.texts (outline.front ++ outline.imports)) =
      Text.byteSize (Token.texts outline.front) + Text.byteSize (Token.texts outline.imports) := by
    rw [Token.texts_append, Text.byteSize_append]
  have stand : Token.Stand (outline.front ++ outline.imports ++ outline.body) := has.stand
  have inside := Token.between_locateFrom stand 0 1
  rw [Nat.zero_add, Nat.zero_add, size, Nat.add_comm 1, ← outline.tokens_eq] at inside
  refine ⟨Token.lexFrom_eq_ok_iff.2 ⟨rfl, Outline.stand_imports has.stand⟩, ?_, ?_, inside.symm⟩
  · exact ⟨outline.front, outline.imports ++ outline.body, by simp [Outline.tokens_eq], rfl⟩
  · exact ⟨outline.front ++ outline.imports, outline.body, outline.tokens_eq, size.symm⟩

private theorem ofBlock_eq {block : Span.Located} {tokens : List Token}
    (read : Token.lex block.span.text = .ok tokens) :
    ImportLayout.ofBlock block =
      ImportLayout.ofLocated block.line (Token.locateFrom block.start block.line tokens) := by
  simp only [ImportLayout.ofBlock, read, ImportLayout.ofLocated]
  rfl

private theorem HasOutline.present_of_reconcile (has : file.HasOutline outline)
    {required : List Import}
    {later : SourceFile} (done : file.reconcile required = .ok (later, [])) :
    ∃ imports, file.imports = .ok imports ∧
      ∀ spec ∈ required, spec.path ∈ imports.map (·.path) := by
  cases read : file.imports with
  | error cause =>
    rw [reconcile_eq, ofFile_eq_error read] at done
    cases done
  | ok imports =>
    refine ⟨imports, rfl, ?_⟩
    by_contra lacking
    have missing := missingImports_ne_nil lacking
    obtain ⟨edit, -, result⟩ := has.exists_places read missing
    rw [result] at done
    cases edited : file.edit [edit] with
    | error e =>
      rw [edited] at done
      cases done
    | ok changed =>
      rw [edited] at done
      exact missing (Prod.mk.inj (Except.ok.inj done)).2

private theorem IsCurrent.readsBlock (current : file.IsCurrent) : file.ReadsBlock := by
  obtain ⟨outline, has⟩ := current.hasOutline
  have read : Token.lex file.text = .ok outline.tokens :=
    Token.lexFrom_eq_ok_iff.2 ⟨has.text.symm, has.stand⟩
  refine ⟨fun block found => ?_, fun cause failed => has.imports_eq_error failed, ?_, ?_⟩
  · obtain ⟨alike, start, stop, same⟩ := has.sees_block found
    refine ⟨outline.tokens, outline.imports, read, alike, start, stop, same, ?_⟩
    rw [ImportLayout.ofFile, found]
    simp only [ofBlock_eq alike, same]
  · rintro ⟨specs, group⟩ done ungrouped
    obtain rfl : group = none := ungrouped
    obtain ⟨-, first, others, rfl, -⟩ := has.exists_single done
    exact List.cons_ne_nil first others
  · exact fun required later done => has.present_of_reconcile done

/-- A part of a text that is cut out between tokens is read as before. So the imports of a file,
after any changes, are read from the tokens of its text. -/
theorem aligned_slices_read_alike {text : Text} {tokens : List Token}
    (read : Token.lex text = .ok tokens) :
    Token.SlicesAlike text tokens ∧
      ∀ path file, parse path text = .ok file → ∀ steps, (file.applyAll steps).ReadsBlock := by
  refine ⟨Token.slicesAlike_of_lex read, fun path file parsed steps => ?_⟩
  exact ((IsCurrent.of_parse parsed).applyAll steps).readsBlock

/-- A file with two single imports, behind which a sign belongs to a number. -/
def fordFile : SourceFile :=
  let text := "package a\n\nimport /* c */ f \"fmt\"; import \"os\"\n\nvar x = 1e-2 / f.Y\n".toList
  ⟨"a.go", none, "a", text, (Span.scan text).toOption.getD []⟩

/-- The tokens of this text. -/
def fordTokens : List Token :=
  (Token.lex fordFile.text).toOption.getD []

theorem ford_read_alike :
    Token.lex fordFile.text = .ok fordTokens ∧ parse "a.go" fordFile.text = .ok fordFile ∧
      ImportLayout.ofFile fordFile =
        .ok (some ⟨[⟨⟨some "f", "fmt"⟩, 26, 33⟩, ⟨⟨none, "os"⟩, 42, 46⟩], none⟩) ∧
      Token.SlicesAlike fordFile.text fordTokens ∧
      (fordFile.applyAll [.send (some "b/a.go")]).ReadsBlock := by
  have read : Token.lex fordFile.text = .ok fordTokens := by decide +kernel
  have parsed : parse "a.go" fordFile.text = .ok fordFile := by decide +kernel
  obtain ⟨alike, block⟩ := aligned_slices_read_alike read
  exact ⟨read, parsed, by decide +kernel, alike, block "a.go" fordFile parsed _⟩

end SourceFile

end Repackage
