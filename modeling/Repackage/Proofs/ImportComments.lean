import Repackage.Proofs.StagedEdits

/-!
What adding imports does to comments. New lines hold none, and they go between the tokens of a file
or into one of them; so the comments stay as they are, with three exceptions. The new lines go into
a comment; they close a quoted literal, and two slashes in the new path start a comment; or the
first import is written inside a group and the comments between its keyword and itself are left
behind.
-/

set_option autoImplicit false
set_option relaxedAutoImplicit false

namespace Repackage

open Token (texts linesOf)

namespace Token

def commentsOf (tokens : List Token) : List Text :=
  (tokens.filter (·.kind = .comment)).map (·.text)

private theorem commentsOf_append (a b : List Token) :
    commentsOf (a ++ b) = commentsOf a ++ commentsOf b := by
  simp [commentsOf]

private theorem commentsOf_cons_of_ne {token : Token} (other : token.kind ≠ .comment)
    (tokens : List Token) : commentsOf (token :: tokens) = commentsOf tokens := by
  simp [commentsOf, other]

private theorem commentsOf_eq_nil_iff {tokens : List Token} :
    commentsOf tokens = [] ↔ ∀ token ∈ tokens, token.kind ≠ .comment := by
  simp [commentsOf]

private theorem commentsOf_space (text : Text) : commentsOf (space text) = [] := by
  unfold space
  split_ifs <;> simp [commentsOf]

private theorem commentsOf_linesOf {front back : Text} {specs : List Import}
    (writable : ∀ spec ∈ specs, spec.IsWritable) : commentsOf (linesOf front specs back) = [] := by
  induction specs generalizing front with
  | nil => simp [linesOf, commentsOf]
  | cons spec specs ih =>
    obtain ⟨first, later⟩ := List.forall_mem_cons.1 writable
    have own : commentsOf spec.tokens = [] := by
      rw [commentsOf_eq_nil_iff]
      cases named : spec.name with
      | none => simp [Import.tokens, named]
      | some name =>
        simp only [Import.tokens, named, List.forall_mem_append, List.forall_mem_cons]
        refine ⟨fun token member comment => ?_, by simp, by simp, by simp⟩
        have kinds := (Import.stand_nameTokens (first.name name named)).2 token member
        simp [comment] at kinds
    rw [linesOf, List.cons_append, commentsOf_cons_of_ne (by simp), commentsOf_append, own,
      ih later]
    rfl

end Token

namespace Outline

open Token (commentsOf)

variable {outline : Outline}

private theorem commentsOf_groupTokens (inside : List Token) :
    commentsOf (groupTokens inside) = commentsOf inside := by
  simp [groupTokens, commentsOf]

private theorem commentsOf_promotedTokens (spec : List Token) {added : List Import}
    (writable : ∀ spec ∈ added, spec.IsWritable) :
    commentsOf (promotedTokens spec added) = commentsOf spec := by
  rw [promotedTokens, commentsOf_groupTokens, Token.commentsOf_cons_of_ne (by simp),
    Token.commentsOf_append, Token.commentsOf_linesOf writable, List.append_nil]

private theorem commentsOf_withGroup (gap : outline.gap = []) (empty : outline.imports = [])
    {added : List Import} (writable : ∀ spec ∈ added, spec.IsWritable) :
    commentsOf (outline.withGroup added).tokens = commentsOf outline.tokens := by
  simp only [tokens, withGroup, gap, empty, Token.commentsOf_append, commentsOf_groupTokens,
    Token.commentsOf_linesOf writable]
  simp [commentsOf, List.filter_cons]

private theorem Room.commentsOf_fill (room : outline.Room) {added : List Import}
    (writable : ∀ spec ∈ added, spec.IsWritable) :
    commentsOf (room.fill (room.lines added)).tokens = commentsOf outline.tokens := by
  rw [room.tokens_fill, room.tokens_eq, room.spaced, Room.lines]
  simp only [Token.commentsOf_append, Token.commentsOf_linesOf writable, Token.commentsOf_space]

private theorem LineEnd.commentsOf_longer_iff (place : outline.LineEnd) {lines : Text}
    (present : lines ≠ []) :
    commentsOf (place.fill [place.longer lines]).tokens = commentsOf outline.tokens ↔
      place.token.kind ≠ .comment := by
  have longer : (place.longer lines).kind = place.token.kind := rfl
  rw [place.tokens_fill, place.tokens_eq, List.append_assoc, List.singleton_append,
    Token.commentsOf_append _ (place.longer lines :: _),
    Token.commentsOf_append _ (place.token :: _), List.append_cancel_left_eq]
  by_cases comment : place.token.kind = .comment
  · simp only [commentsOf, List.filter_cons, longer, comment, decide_true, if_true, List.map_cons,
      List.cons.injEq, and_true, ne_eq, not_true_eq_false, iff_false]
    simp [place.spelled, LineEnd.longer, present]
  · simp [Token.commentsOf_cons_of_ne, longer, comment]

private theorem Single.commentsOf_promoted_iff (single : outline.Single) {added : List Import}
    (writable : ∀ spec ∈ added, spec.IsWritable) :
    commentsOf (single.promoted added).tokens = commentsOf outline.tokens ↔
      ∀ token ∈ single.keyword :: single.lead, token.kind ≠ .comment := by
  rw [← Token.commentsOf_eq_nil_iff, Single.promoted, tokens_withImports, Outline.tokens_eq,
    single.whole]
  simp only [Token.commentsOf_append, commentsOf_promotedTokens _ writable, List.append_assoc,
    List.append_cancel_left_eq]
  exact List.self_eq_append_left

end Outline

namespace SourceFile

open Token (commentsOf)

variable {file : SourceFile} {outline : Outline} {imports required : List Import}

/-- Whether adding imports, if it succeeds, leaves the comments of a file as they are. -/
def KeepsComments (file : SourceFile) (required : List Import) : Prop :=
  ∀ edited added, file.reconcile required = .ok (edited, added) →
    ∃ before after, Token.lex file.text = .ok before ∧ Token.lex edited.text = .ok after ∧
      commentsOf after = commentsOf before

/-- Whether a file has no group and there is a comment between the keyword of its first import and
the import itself. -/
def HasCommentAhead (file : SourceFile) : Prop :=
  ∃ first others block between tokens,
    ImportLayout.ofFile file = .ok (some ⟨first :: others, none⟩) ∧
    Span.firstOf? .importBlock file.spans = some block ∧
    Text.slice? file.text block.start first.start = some between ∧
    Token.lex between = .ok tokens ∧ ∃ token ∈ tokens, token.kind = .comment

theorem HasOutline.lexed (has : file.HasOutline outline) :
    Token.lex file.text = .ok outline.tokens :=
  Token.lexFrom_eq_ok_iff.2 ⟨has.text.symm, has.stand⟩

private theorem HasOutline.hasCommentAhead_iff (has : file.HasOutline outline)
    {single : outline.Single} (begins : file.BeginsWith single) :
    file.HasCommentAhead ↔ ∃ token ∈ single.keyword :: single.lead, token.kind = .comment := by
  obtain ⟨first, others, layout, starts⟩ := begins
  have present : outline.imports ≠ [] := by simp [single.whole]
  have block : Span.firstOf? .importBlock file.spans =
      some ⟨Text.byteSize (texts outline.front), Text.newlines (texts outline.front) + 1,
        ⟨.importBlock, texts outline.imports⟩⟩ := by
    rw [has.spans, Span.firstOf?_importBlock, if_neg present]
  have tokens : outline.tokens = outline.front ++ ((single.keyword :: single.lead) ++
      (single.spec ++ (single.between ++ single.more) ++ outline.body)) := by
    rw [Outline.tokens_eq, single.whole]
    simp
  have sliced : Text.slice? file.text (Text.byteSize (texts outline.front)) first.start =
      some (texts (single.keyword :: single.lead)) := by
    rw [has.text, tokens, Token.texts_append, Token.texts_append (single.keyword :: single.lead),
      starts, ← Text.byteSize_append, ← List.append_assoc, Text.slice?_byteSize]
  have lexed : Token.lex (texts (single.keyword :: single.lead)) =
      .ok (single.keyword :: single.lead) := by
    obtain ⟨-, behind, -⟩ := Token.stand_append_iff.1 (tokens ▸ has.stand)
    exact Token.lexFrom_eq_ok_iff.2 ⟨rfl, (Token.stand_append_iff.1 behind).1⟩
  constructor
  · rintro ⟨first', others', block', between, found, layout', block'', sliced', lexed', holds⟩
    obtain ⟨rfl, -⟩ : first = first' ∧ others = others' := by
      simpa using layout.symm.trans layout'
    obtain rfl := Option.some.inj (block.symm.trans block'')
    obtain rfl := Option.some.inj (sliced.symm.trans sliced')
    obtain rfl := Except.ok.inj (lexed.symm.trans lexed')
    exact holds
  · intro holds
    exact ⟨first, others, _, _, _, layout, block, sliced, lexed, holds⟩

variable {edit : Edit} {added : List Import}

private theorem keepsComments_iff_of_leadsTo {outline' : Outline} (has : file.HasOutline outline)
    (leads : file.LeadsTo [edit] outline')
    (result : file.reconcile required = ((file.edit [edit]).mapError .ofEditError).map
      fun done => (done.1, added)) :
    file.KeepsComments required ↔ commentsOf outline'.tokens = commentsOf outline.tokens := by
  obtain ⟨edited, changed, done, -, has'⟩ := leads
  rw [done] at result
  constructor
  · intro keeps
    obtain ⟨before, after, lexed, lexed', same⟩ := keeps edited added result
    obtain rfl := Except.ok.inj (has.lexed.symm.trans lexed)
    obtain rfl := Except.ok.inj (has'.lexed.symm.trans lexed')
    exact same
  · intro same other taken reconciled
    obtain ⟨rfl, -⟩ := Prod.mk.inj (Except.ok.inj (result.symm.trans reconciled))
    exact ⟨_, _, has.lexed, has'.lexed, same⟩

private theorem keepsComments_of_free (current : file.IsCurrent) (read : file.imports = .ok imports)
    (ahead : ¬file.HasCommentAhead)
    (apart : ∀ offset, file.EndsLineAt offset → ¬Token.IsCommentAt file.text offset)
    (shut : ∀ offset, file.EndsLineAt offset → Token.IsQuotedAt file.text offset →
      ¬file.ClosesAt offset)
    (plain : ∀ spec ∈ required, spec.IsPlain) : file.KeepsComments required := by
  obtain ⟨outline, has⟩ := current.hasOutline
  by_cases all : ∀ spec ∈ required, spec.path ∈ imports.map (·.path)
  · intro edited added reconciled
    rw [reconcile_of_present read all] at reconciled
    obtain ⟨rfl, -⟩ := Prod.mk.inj (Except.ok.inj reconciled)
    exact ⟨_, _, has.lexed, has.lexed, rfl⟩
  have present := missingImports_ne_nil all
  have writable : ∀ spec ∈ missingImports (imports.map (·.path)) required, spec.IsWritable :=
    fun spec member => (plain spec (mem_of_mem_missingImports member).1).isWritable
  obtain ⟨edit, places, result⟩ := has.exists_places read present
  cases places with
  | newGroup empty =>
    exact (keepsComments_iff_of_leadsTo has (leadsTo_newGroup current has empty present writable)
      result).2 (Outline.commentsOf_withGroup (has.formed.imports.gap_eq_nil empty) empty writable)
  | tight room _ =>
    exact (keepsComments_iff_of_leadsTo has (leadsTo_room current has room present writable)
      result).2 (room.commentsOf_fill writable)
  | lineEnd _ room _ _ _ =>
    exact (keepsComments_iff_of_leadsTo has (leadsTo_room current has room present writable)
      result).2 (room.commentsOf_fill writable)
  | promoted single begins =>
    refine (keepsComments_iff_of_leadsTo has (leadsTo_promoted current has single present writable)
      result).2 ((single.commentsOf_promoted_iff writable).2 fun token member comment => ?_)
    exact ahead ((has.hasCommentAhead_iff begins).2 ⟨token, member, comment⟩)
  | solid place gap ends solid newlines =>
    rcases leadsTo_solid current has place solid newlines writable with leads | quoted
    · have notComment := mt (has.isCommentAt_offset_iff place).2 (apart _ ends)
      have some : gap ++ importLines (missingImports (imports.map (·.path)) required) ≠ [] := by
        obtain ⟨spec, rest, same⟩ := List.exists_cons_of_ne_nil present
        simp [same, importLines]
      exact (keepsComments_iff_of_leadsTo has leads result).2
        ((place.commentsOf_longer_iff some).2 notComment)
    · -- The text can no longer be read, and nothing is added.
      intro edited added reconciled
      obtain ⟨spec, rest, same⟩ := List.exists_cons_of_ne_nil present
      rw [result, same] at reconciled
      rw [same] at writable
      cases done : file.edit [.insertAt place.offset (gap ++ importLines (spec :: rest))] with
      | error cause =>
        rw [done] at reconciled
        cases reconciled
      | ok pair =>
        have closes := ((exists_edit_iff_of_quoted current has quoted newlines writable).1
          ⟨pair.1, pair.2, done⟩).2.2
        exact absurd closes (shut _ ends ((has.isQuotedAt_offset_iff place).2 quoted))

section Lost

variable {path : String}

private theorem HasOutline.comment_mem_of_reconcile {letters : String} {edited : SourceFile}
    {tokens : List Token} {place : outline.LineEnd} {front : Text} (has : file.HasOutline outline)
    (current : file.IsCurrent) (read : file.imports = .ok imports)
    (begins : place.front = '"' :: front)
    (closed : Token.quotedLength '"' (front ++ '\n' :: place.back) =
      some (front ++ '\n' :: place.back).length)
    (ends : file.EndsLineAt place.offset) (own : ∀ c ∈ letters.toList, c = 'a')
    (fresh : "a//" ++ letters ∉ imports.map (·.path))
    (standard : Import.isStandard ("a//" ++ letters))
    (reconciled : file.reconcile [⟨none, "a//" ++ letters⟩] = .ok (edited, added))
    (lexed : Token.lex edited.text = .ok tokens) :
    '/' :: '/' :: (letters.toList ++ ['"']) ∈ commentsOf tokens := by
  obtain ⟨text, offset⟩ := has.text_around_lineEnd place
  obtain ⟨changed, edit⟩ := exists_edit_of_reconcile read ends standard fresh reconciled
  have single : '\n' ∉ letters.toList ++ ['"'] := by
    intro member
    rcases List.mem_append.1 member with inside | mark
    · exact absurd (own _ inside) (by decide)
    · exact absurd mark (by decide)
  have remark : Token.Stand [⟨.comment, '/' :: '/' :: (letters.toList ++ ['"'])⟩] :=
    ⟨.remark single (by simp [texts]), trivial⟩
  have letter : ∀ c ∈ ['a'], Text.isAsciiAlphanumeric c ∨ c ∈ ['.', '_', '-', '~', '/'] := by
    simp only [List.mem_singleton, forall_eq]
    decide
  obtain ⟨path, spelled, stands, -⟩ := Token.exists_path_tokens letter (by decide) remark
  rw [offset] at edit
  have spliced := Edit.splice_singleton
    (texts (outline.front ++ place.ahead) ++ place.front ++ ['\n']) [] place.remainder
    ('\t' :: '"' :: (("a//" ++ letters).toList ++ ['"', '\n']))
  rw [List.append_nil, ← text] at spliced
  obtain ⟨result, -⟩ := edit_eq_ok current.scanned spliced edit
  obtain ⟨same, stand⟩ := Token.lexFrom_eq_ok_iff.1 lexed
  have parts : texts tokens = texts (outline.front ++ place.ahead) ++
      (texts (place.closedTokens front ['\t'] path (letters.toList ++ ['"']) []) ++
        place.remainder.dropWhile Text.isBlank) := by
    rw [same, result, Outline.LineEnd.texts_closedTokens, spelled, begins]
    simp [importLines]
  obtain ⟨more, rfl, -⟩ := Outline.LineEnd.exists_of_closed has begins closed (by simp) single
    stands (by simp) stand parts
  simp [commentsOf, Outline.LineEnd.closedTokens]

private theorem not_keepsComments_of_ahead (current : file.IsCurrent)
    (read : file.imports = .ok imports)
    (ahead : file.HasCommentAhead) (plain : (⟨none, path⟩ : Import).IsPlain)
    (absent : path ∉ imports.map (·.path)) : ¬file.KeepsComments [⟨none, path⟩] := by
  obtain ⟨outline, has⟩ := current.hasOutline
  obtain ⟨first, others, -, -, -, layout, -⟩ := id ahead
  obtain ⟨single, begins, result⟩ := has.exists_promotion read layout
  have missing : missingImports (imports.map (·.path)) [⟨none, path⟩] = [⟨none, path⟩] :=
    missingImports_singleton absent
  have writable : ∀ spec ∈ [(⟨none, path⟩ : Import)], spec.IsWritable := by
    simpa using plain.isWritable
  have chosen := result [⟨none, path⟩] (by simp [missing])
  rw [missing] at chosen
  rw [keepsComments_iff_of_leadsTo has
    (leadsTo_promoted current has single (List.cons_ne_nil _ _) writable) chosen,
    single.commentsOf_promoted_iff writable]
  obtain ⟨token, member, comment⟩ := (has.hasCommentAhead_iff begins).1 ahead
  exact fun none => none token member comment

private theorem not_keepsComments_of_comment {offset : Nat} (current : file.IsCurrent)
    (read : file.imports = .ok imports) (ends : file.EndsLineAt offset)
    (comment : Token.IsCommentAt file.text offset) (plain : (⟨none, path⟩ : Import).IsPlain)
    (absent : path ∉ imports.map (·.path)) : ¬file.KeepsComments [⟨none, path⟩] := by
  obtain ⟨outline, has⟩ := current.hasOutline
  obtain ⟨place, rfl⟩ := has.exists_lineEnd ends
  have kind := (has.isCommentAt_offset_iff place).1 comment
  have writable : ∀ spec ∈ [(⟨none, path⟩ : Import)], spec.IsWritable := by
    simpa using plain.isWritable
  have missing : missingImports (imports.map (·.path)) [⟨none, path⟩] = [⟨none, path⟩] :=
    missingImports_singleton absent
  obtain ⟨last, behind⟩ := endsLineAt_iff.1 ends
  have chosen := reconcile_of_endsLineBehind read behind (List.cons_ne_nil _ _) missing
  rcases leadsTo_solid current has place (by simp [kind]) eq_newline_of_mem_gapBehind writable
    with leads | quoted
  · rw [keepsComments_iff_of_leadsTo has leads chosen,
      place.commentsOf_longer_iff (by simp [importLines])]
    exact fun other => other kind
  · rw [quoted.1] at kind
    cases kind

private theorem isPlain_slashes {letters : String} (own : ∀ c ∈ letters.toList, c = 'a') :
    (⟨none, "a//" ++ letters⟩ : Import).IsPlain := by
  have spelled : ("a//" ++ letters).toList = 'a' :: '/' :: '/' :: letters.toList := by simp
  refine ⟨fun empty => ?_, fun c member => ?_, by simp⟩
  · exact absurd (spelled.symm.trans (congrArg String.toList empty)) (List.cons_ne_nil _ _)
  · rw [spelled] at member
    simp only [List.mem_cons] at member
    rcases member with rfl | rfl | rfl | among
    · exact .inl (by decide)
    · exact .inr (by decide)
    · exact .inr (by decide)
    · rw [own c among]
      exact .inl (by decide)

private theorem isStandard_slashes (letters : String) : Import.isStandard ("a//" ++ letters) := by
  have spelled : ("a//" ++ letters).toList = 'a' :: '/' :: '/' :: letters.toList := by simp
  rw [Import.isStandard, spelled]
  rfl

/-- Some path with two slashes is not imported, and what follows them is no comment with a quote
behind it. -/
private theorem exists_absent_slashes (paths : List String) (comments : List Text) :
    ∃ letters : String, (∀ c ∈ letters.toList, c = 'a') ∧ "a//" ++ letters ∉ paths ∧
      '/' :: '/' :: (letters.toList ++ ['"']) ∉ comments := by
  obtain ⟨letters, -, own, absent⟩ := exists_absent_path
    (paths.map (fun path => String.ofList (path.toList.drop 3)) ++
      comments.map fun comment => String.ofList ((comment.drop 2).dropLast))
  rw [List.mem_append, not_or] at absent
  refine ⟨letters, own, fun member => absent.1 ?_, fun member => absent.2 ?_⟩
  · exact List.mem_map.2 ⟨_, member, by simp⟩
  · exact List.mem_map.2 ⟨_, member, by simp⟩

private theorem exists_not_keepsComments_of_quoted {offset : Nat} (current : file.IsCurrent)
    (read : file.imports = .ok imports) (ends : file.EndsLineAt offset)
    (crossed : Token.IsQuotedAt file.text offset) (closes : file.ClosesAt offset) :
    ∃ required, (∀ spec ∈ required, spec.IsPlain) ∧ ¬file.KeepsComments required := by
  obtain ⟨outline, has⟩ := current.hasOutline
  obtain ⟨place, rfl⟩ := has.exists_lineEnd ends
  have quoted := (has.isQuotedAt_offset_iff place).1 crossed
  obtain ⟨letters, own, fresh, new⟩ :=
    exists_absent_slashes (imports.map (·.path)) (commentsOf outline.tokens)
  have plain := isPlain_slashes own
  have standard := isStandard_slashes letters
  refine ⟨[⟨none, "a//" ++ letters⟩], by simpa using plain, ?_⟩
  intro keeps
  have writable : ∀ spec ∈ [(⟨none, "a//" ++ letters⟩ : Import)], spec.IsWritable := by
    simpa using plain.isWritable
  obtain ⟨last, behind⟩ := endsLineAt_iff.1 ends
  obtain ⟨edited, reconciled⟩ := (exists_reconcile_iff_of_quoted current has read behind quoted
    writable (missingImports_singleton fresh)).2
      ⟨by simp [gapBehind, standard], ⟨['a'], letters.toList, by simp⟩, closes⟩
  obtain ⟨before, after, lexed, lexed', same⟩ := keeps edited _ reconciled
  obtain rfl := Except.ok.inj (has.lexed.symm.trans lexed)
  obtain ⟨-, quote, front, begins, isQuote, closed⟩ := id quoted
  rcases isQuote with rfl | rfl
  · have comment := has.comment_mem_of_reconcile current read begins closed ends own fresh standard
      reconciled lexed'
    rw [same] at comment
    exact new comment
  · exact has.not_closesAt begins closed closes

end Lost

/-- Adding imports changes no comment, whatever is added, exactly when none stands between the
keyword and the first import of a file without a group, none goes across the place for new lines,
and no quoted literal that goes across that place can be closed there. -/
theorem comments_kept_iff {path : String} {text : Text} (parsed : parse path text = .ok file)
    (read : file.imports = .ok imports) :
    (∀ required : List Import, (∀ spec ∈ required, spec.IsPlain) → file.KeepsComments required) ↔
      ¬file.HasCommentAhead ∧
        (∀ offset, file.EndsLineAt offset → ¬Token.IsCommentAt file.text offset) ∧
        ∀ offset, file.EndsLineAt offset → Token.IsQuotedAt file.text offset →
          ¬file.ClosesAt offset := by
  have current : file.IsCurrent := .of_parse parsed
  constructor
  · intro keeps
    obtain ⟨path, nonempty, letters, absent⟩ := exists_absent_path (imports.map (·.path))
    have plain := isPlain_letters nonempty letters
    have kept := keeps [⟨none, path⟩] (by simpa using plain)
    refine ⟨fun ahead => ?_, fun offset ends comment => ?_, fun offset ends crossed closes => ?_⟩
    · exact not_keepsComments_of_ahead current read ahead plain absent kept
    · exact not_keepsComments_of_comment current read ends comment plain absent kept
    · obtain ⟨required, plain, lost⟩ :=
        exists_not_keepsComments_of_quoted current read ends crossed closes
      exact lost (keeps required plain)
  · rintro ⟨ahead, apart, shut⟩ required plain
    exact keepsComments_of_free current read ahead apart shut plain

/-- A file whose only import has a comment between the keyword and the path. -/
def pierFile (imports : String) : SourceFile :=
  let text := ("package a\n\nimport " ++ imports ++ "\n").toList
  ⟨"a.go", none, "a", text, (Span.scan text).toOption.getD []⟩

/-- The comment is gone when the import is written inside a group. -/
theorem pier_comment_lost :
    parse "a.go" (pierFile "/* c */ \"fmt\"").text = .ok (pierFile "/* c */ \"fmt\"") ∧
      (pierFile "/* c */ \"fmt\"").imports = .ok [⟨none, "fmt"⟩] ∧
      (pierFile "/* c */ \"fmt\"").reconcile [⟨none, "m/b"⟩] =
        .ok (pierFile "(\n\t\"fmt\"\n\t\"m/b\"\n)", [⟨none, "m/b"⟩]) ∧
      ¬∀ required : List Import, (∀ spec ∈ required, spec.IsPlain) →
        (pierFile "/* c */ \"fmt\"").KeepsComments required := by
  have parsed : parse "a.go" (pierFile "/* c */ \"fmt\"").text =
      .ok (pierFile "/* c */ \"fmt\"") := by
    decide +kernel
  have read : (pierFile "/* c */ \"fmt\"").imports = .ok [⟨none, "fmt"⟩] := by decide +kernel
  have spans : (pierFile "/* c */ \"fmt\"").spans =
      [⟨.packageClause, "package a".toList⟩, ⟨.other, ['\n', '\n']⟩,
        ⟨.importBlock, "import /* c */ \"fmt\"".toList⟩, ⟨.other, ['\n']⟩] := by
    decide +kernel
  refine ⟨parsed, read, by decide +kernel, fun keeps => ?_⟩
  refine ((comments_kept_iff parsed read).1 keeps).1
    ⟨⟨⟨none, "fmt"⟩, 26, 31⟩, [], ⟨11, 3, ⟨.importBlock, "import /* c */ \"fmt\"".toList⟩⟩,
      "import /* c */ ".toList, [⟨.word, "import".toList⟩, ⟨.blank, [' ']⟩,
        ⟨.comment, "/* c */".toList⟩, ⟨.blank, [' ']⟩], ?_, ?_, ?_, ?_, ?_⟩
  · decide +kernel
  · rw [spans]
    rfl
  · decide +kernel
  · decide +kernel
  · decide

end SourceFile

end Repackage
