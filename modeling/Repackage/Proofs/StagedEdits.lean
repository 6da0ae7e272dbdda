import Repackage.Proofs.ImportFrame
import Repackage.Proofs.QualifiedText
import Repackage.Proofs.SplitLiterals

/-!
The edits of a file in a row: its references are qualified, the imports that they need are added,
and the package clause is changed. Each stage reads the text that the one before has made. A file
goes through all of them unless its own names or its own imports get in the way: a local name that
is the keyword `import`, in front of the first thing behind the imports, or a quoted literal that
goes on over the line end behind which new imports are put, and cannot be closed there.
-/

set_option autoImplicit false
set_option relaxedAutoImplicit false

namespace Repackage

open Token (texts)

/-- Whether the import paths of a table are made of ASCII letters, digits and a few marks. -/
def Table.HasPlainPaths (table : Table) : Prop :=
  ∀ package ∈ table.packages.values, ∀ c ∈ package.importPath.toList,
    Text.isAsciiAlphanumeric c ∨ c ∈ ['.', '_', '-', '~', '/']

/-- Whether a quoted literal goes across an offset of a text. -/
def Token.IsQuotedAt (text : Text) (offset : Nat) : Prop :=
  ∃ before token after, lex text = .ok (before ++ token :: after) ∧
    Text.byteSize (texts before) < offset ∧ offset < Text.byteSize (texts (before ++ [token])) ∧
    token.kind = .literal ∧ token.text.head? ≠ some '\x60'

private theorem Outline.LineEnd.isQuoted_iff {outline : Outline} (place : outline.LineEnd)
    {rest : Text} (stands : place.token.Stands rest) :
    place.IsQuoted ↔ place.token.kind = .literal ∧ place.token.text.head? ≠ some '\x60' := by
  obtain ⟨c, cs, text, takes⟩ := stands.takes
  constructor
  · rintro ⟨literal, quote, ds, front, isQuote, -⟩
    refine ⟨literal, ?_⟩
    rw [place.spelled, front]
    rcases isQuote with rfl | rfl <;> simp
  · rintro ⟨literal, notRaw⟩
    rw [literal] at takes
    rcases takes with ⟨isQuote, closed⟩ | ⟨rfl, -⟩
    · refine ⟨literal, ?_⟩
      have spelled := text.symm.trans place.spelled
      cases front : place.front with
      | nil =>
        -- A literal does not start with a line end.
        rw [front] at spelled
        obtain ⟨rfl, -⟩ := List.cons.inj spelled
        rcases isQuote with quote | quote <;> exact absurd quote (by decide)
      | cons d ds =>
        rw [front] at spelled
        obtain ⟨rfl, rfl⟩ := List.cons.inj spelled
        exact ⟨c, ds, rfl, isQuote, closed⟩
    · simp [text] at notRaw

namespace Outline

def withName (outline : Outline) (name : Text) : Outline :=
  { outline with name := ⟨.word, name⟩ }

variable {outline : Outline}

theorem IsWellFormed.withName (formed : outline.IsWellFormed) (name : Text) :
    (outline.withName name).IsWellFormed :=
  ⟨formed.header, formed.clause, rfl, formed.imports⟩

private theorem IsWellFormed.kind_of_getLast? (formed : outline.IsWellFormed) :
    ∀ last ∈ (outline.header ++ outline.clauseStart).getLast?,
      last.kind ≠ .number ∧ last.isMark '.' = false := by
  obtain ⟨keyword, gap, clause, package, gaps⟩ := formed.clause
  intro last found
  rw [List.getLast?_append_of_ne_nil _ (by simp [clause]), clause] at found
  rcases List.mem_cons.1 (List.mem_of_getLast? found) with rfl | inside
  · simp [Token.isMark, kind_of_isWord package]
  · have skipped := gaps last inside
    cases kind : last.kind <;>
      simp [isGap, Token.isSignificant, Token.isMark, kind] at skipped ⊢

private theorem withName_self (formed : outline.IsWellFormed) :
    outline.withName outline.name.text = outline := by
  have name : outline.name = ⟨.word, outline.name.text⟩ := by
    rw [← formed.name]
  rw [withName, ← name]

private theorem tokens_withName (outline : Outline) (name : Text) :
    (outline.withName name).tokens = (outline.header ++ outline.clauseStart) ++
      ⟨.word, name⟩ :: (outline.gap ++ outline.imports ++ outline.body) := by
  simp [tokens, withName]

private theorem stand_withName (formed : outline.IsWellFormed) (stand : Token.Stand outline.tokens)
    {name : Text} (spelled : Word.isSpelled name) : Token.Stand (outline.withName name).tokens := by
  have parts : outline.tokens = (outline.header ++ outline.clauseStart) ++
      outline.name :: (outline.gap ++ outline.imports ++ outline.body) := by
    simp [tokens]
  rw [parts] at stand
  rw [tokens_withName]
  obtain ⟨front, ⟨stands, behind⟩, -⟩ := Token.stand_append_iff.1 stand
  have word : Token.Stands ⟨.word, name⟩ (texts (outline.gap ++ outline.imports ++ outline.body)) :=
    .of_spelled spelled (stands.not_isWordChar formed.name)
  refine Token.stand_append_iff.2 ⟨front, ⟨word, behind⟩, fun last found next head => ?_⟩
  obtain ⟨notNumber, notDot⟩ := formed.kind_of_getLast? last found
  -- Both names start with a letter, and what stands before the one stands before the other.
  obtain ⟨a, first, wordStart⟩ := stands.isWordStart formed.name
  obtain ⟨b, second, wordStart'⟩ := word.isWordStart rfl
  have old : (texts (outline.name :: (outline.gap ++ outline.imports ++ outline.body))).head? =
      some a := by
    rw [Token.texts_cons, List.head?_append, first]
    rfl
  have new : (texts (⟨.word, name⟩ :: (outline.gap ++ outline.imports ++ outline.body))).head? =
      some b := by
    rw [Token.texts_cons, List.head?_append, second]
    rfl
  have before := (Token.stands_of_getLast? stand found).before_isWordChar old wordStart new
    (Text.isWordChar_of_isWordStart wordStart') notNumber notDot
  exact (Token.stands_iff.1 before).2 next head

end Outline

namespace SourceFile

open ImportLayout Qualification

variable {file other : SourceFile} {outline outline' : Outline} {imports added : List Import}

theorem HasOutline.isQuotedAt_offset_iff (has : file.HasOutline outline)
    (place : outline.LineEnd) : Token.IsQuotedAt file.text place.offset ↔ place.IsQuoted := by
  obtain ⟨-, ⟨stands, -⟩, -⟩ := Token.stand_append_iff.1 (place.tokens_eq ▸ has.stand)
  rw [place.isQuoted_iff stands]
  exact has.exists_across_offset_iff place fun token literal => by simp [literal.1]

/-- Whether new imports go behind a line end in a quoted literal. -/
def QuotesLineEnd (file : SourceFile) : Prop :=
  ∃ offset, file.EndsLineAt offset ∧ Token.IsQuotedAt file.text offset

private theorem HasOutline.quotesLineEnd_iff (has : file.HasOutline outline) :
    file.QuotesLineEnd ↔
      ∃ place : outline.LineEnd, file.EndsLineAt place.offset ∧ place.IsQuoted := by
  constructor
  · rintro ⟨offset, ends, quoted⟩
    obtain ⟨place, rfl⟩ := has.exists_lineEnd ends
    exact ⟨place, ends, (has.isQuotedAt_offset_iff place).1 quoted⟩
  · rintro ⟨place, ends, quoted⟩
    exact ⟨place.offset, ends, (has.isQuotedAt_offset_iff place).2 quoted⟩

section Front

variable (has : file.HasOutline outline) (has' : other.HasOutline outline')
  (front : outline'.front = outline.front) (block : outline'.imports = outline.imports)

include has has' front block

private theorem ofFile_eq_of_front : ofFile other = ofFile file := by
  have same : Span.firstOf? .importBlock other.spans = Span.firstOf? .importBlock file.spans := by
    rw [has.spans, has'.spans, Span.firstOf?_importBlock, Span.firstOf?_importBlock, front, block]
  rw [ofFile, ofFile, same]

private theorem imports_eq_of_front : other.imports = file.imports := by
  rw [SourceFile.imports, SourceFile.imports, ofFile_eq_of_front has has' front block]

private theorem endsLineAt_of_front {offset : Nat} (ends : file.EndsLineAt offset) :
    other.EndsLineAt offset := by
  obtain ⟨specs, start, stop, last, tail, done, found, sliced, newline, rfl⟩ := ends
  refine ⟨specs, start, stop, last, tail, ?_, found, ?_, newline, rfl⟩
  · rw [ofFile_eq_of_front has has' front block, done]
  · obtain ⟨group, whole, -, -, stops, -⟩ := has.exists_group done
    have fits : stop ≤ Text.byteSize (texts (outline.front ++ outline.imports)) := by
      rw [stops, whole, Outline.Group.tokens, Token.texts_append, Text.byteSize_append]
      simp only [Token.texts_append, Text.byteSize_append, Token.texts_cons]
      omega
    rw [has.text, Outline.tokens_eq, Token.texts_append, Text.slice?_append fits] at sliced
    rw [has'.text, Outline.tokens_eq, front, block, Token.texts_append, Text.slice?_append fits,
      sliced]

private theorem isQuotedAt_of_front {offset : Nat}
    (fits : offset ≤ Text.byteSize (texts (outline.front ++ outline.imports)))
    (quoted : Token.IsQuotedAt file.text offset) : Token.IsQuotedAt other.text offset := by
  obtain ⟨before, token, after, lexed, starts, ends, holds⟩ := quoted
  have own : Token.lex file.text = .ok (outline.front ++ outline.imports ++ outline.body) := by
    rw [has.text]
    exact Token.lexFrom_eq_ok_iff.2 ⟨rfl, has.stand⟩
  have later : Token.lex other.text = .ok (outline.front ++ outline.imports ++ outline'.body) := by
    rw [has'.text, ← front, ← block]
    exact Token.lexFrom_eq_ok_iff.2 ⟨rfl, has'.stand⟩
  have same := Except.ok.inj (own.symm.trans lexed)
  obtain ⟨more, whole⟩ : ∃ more, outline.front ++ outline.imports = before ++ token :: more := by
    rcases append_cases same with ⟨more, whole, -⟩ | ⟨extra, rfl, -⟩
    · exact ⟨more, whole⟩
    · rw [Token.texts_append, Text.byteSize_append] at starts
      omega
  refine ⟨before, token, more ++ outline'.body, ?_, starts, ends, holds⟩
  rw [later, whole]
  simp

private theorem quotesLineEnd_of_front (quotes : file.QuotesLineEnd) : other.QuotesLineEnd := by
  obtain ⟨offset, ends, quoted⟩ := quotes
  refine ⟨offset, endsLineAt_of_front has has' front block ends, ?_⟩
  refine isQuotedAt_of_front has has' front block ?_ quoted
  obtain ⟨place, rfl⟩ := has.exists_lineEnd ends
  have bound := place.offset_bounds.2
  rw [place.imports_eq, place.single]
  simp only [Outline.Slot.start, Token.texts_append, Text.byteSize_append, Token.texts_cons]
    at bound ⊢
  omega

end Front

private theorem reconcile_or_quoted (current : file.IsCurrent) (read : file.imports = .ok imports)
    (writable : ∀ spec ∈ added, spec.IsWritable)
    (missing : missingImports (imports.map (·.path)) added = added) :
    (∃ edited, file.reconcile added = .ok (edited, added)) ∨ added ≠ [] ∧ file.QuotesLineEnd := by
  by_cases present : added = []
  · subst present
    exact .inl ⟨file, reconcile_of_present read (by simp)⟩
  obtain ⟨outline, has⟩ := current.hasOutline
  obtain ⟨edit, places, result⟩ := has.exists_places read (missing.symm ▸ present)
  rw [missing] at places result
  have taken {outline' : Outline} (leads : file.LeadsTo [edit] outline') :
      ∃ edited, file.reconcile added = .ok (edited, added) := by
    obtain ⟨edited, changed, done, -⟩ := leads
    rw [result, done]
    exact ⟨edited, rfl⟩
  cases places with
  | newGroup empty => exact .inl (taken (leadsTo_newGroup current has empty present writable))
  | tight room _ => exact .inl (taken (leadsTo_room current has room present writable))
  | lineEnd _ room _ _ _ => exact .inl (taken (leadsTo_room current has room present writable))
  | promoted single _ => exact .inl (taken (leadsTo_promoted current has single present writable))
  | solid place gap ends solid newlines =>
    rcases leadsTo_solid current has place solid newlines writable with leads | quoted
    · exact .inl (taken leads)
    · exact .inr ⟨present, has.quotesLineEnd_iff.2 ⟨place, ends, quoted⟩⟩

theorem HasOutline.package_eq (has : file.HasOutline outline) (current : file.IsCurrent) :
    file.package = String.ofList outline.name.text := by
  rw [current.named, has.spans, clauseName_ofOutline has.formed has.stand]

theorem HasOutline.text_around (has : file.HasOutline outline) (current : file.IsCurrent) :
    file.text = texts (outline.header ++ outline.clauseStart) ++ file.package.toList ++
      texts (outline.gap ++ outline.imports ++ outline.body) := by
  rw [has.text, has.package_eq current, String.toList_ofList]
  simp [Outline.tokens, texts]

theorem HasOutline.nameRange_eq (has : file.HasOutline outline) (current : file.IsCurrent) :
    file.nameRange = (Text.byteSize (texts (outline.header ++ outline.clauseStart)),
      Text.byteSize (texts (outline.header ++ outline.clauseStart) ++ file.package.toList)) := by
  have whole : texts (outline.header ++ outline.clauseStart ++ [outline.name]) =
      texts (outline.header ++ outline.clauseStart) ++ file.package.toList := by
    rw [has.package_eq current, String.toList_ofList]
    simp [texts]
  rw [nameRange, clauseStop_of_spans has.spans, whole, Text.byteSize_append, Nat.add_sub_cancel]

private theorem exists_renamed (current : file.IsCurrent) (has : file.HasOutline outline)
    {name : String} (spelled : Word.isSpelled name.toList) :
    ∃ renamed, file.renameClause name =
        .ok (renamed, if file.package = name then none else some ⟨file.package, name⟩) ∧
      renamed.IsCurrent ∧ renamed.HasOutline (outline.withName name.toList) := by
  rw [renameClause]
  split_ifs with same
  · refine ⟨file, rfl, current, ?_⟩
    rwa [← same, has.package_eq current, String.toList_ofList, Outline.withName_self has.formed]
  · have spliced : Edit.splice file.text [⟨file.nameRange.1, file.nameRange.2, name.toList⟩] =
        some (texts (outline.withName name.toList).tokens) := by
      rw [has.nameRange_eq current, has.text_around current, Edit.splice_singleton]
      simp [Outline.tokens, Outline.withName, texts]
    obtain ⟨renamed, changed, done, current', has'⟩ := leadsTo_of_splice current
      (Outline.stand_withName has.formed has.stand spelled) (has.formed.withName name.toList)
      spliced
    exact ⟨renamed, by rw [done], current', has'⟩

private theorem isSpelled_clauseNameFor (file : SourceFile) {package : Package}
    (named : Word.isIdentifier package.name.toList) :
    Word.isSpelled (file.clauseNameFor package).toList := by
  have own := Token.isSpelled_of_isIdentifier named
  rw [clauseNameFor]
  split_ifs
  · have suffix : "_test".toList.all Text.isWordChar = true := by decide
    rw [String.toList_append]
    exact Word.isSpelled_append own (List.all_eq_true.1 suffix)
  · exact own

theorem exists_relocated (current : file.IsCurrent) (has : file.HasOutline outline)
    {package : Package} (named : Word.isIdentifier package.name.toList) (destination : String) :
    ∃ relocated, file.relocate package destination =
        (.ok (if file.package = file.clauseNameFor package then none
          else some ⟨file.package, file.clauseNameFor package⟩), relocated) ∧
      relocated.package = file.clauseNameFor package ∧ relocated.IsCurrent ∧
      relocated.HasOutline (outline.withName (file.clauseNameFor package).toList) := by
  have has' : { file with destination := some destination }.HasOutline outline :=
    ⟨has.text, has.spans, has.stand, has.formed⟩
  obtain ⟨relocated, done, current', renamed⟩ := exists_renamed (current.send (some destination))
    has' (isSpelled_clauseNameFor file named)
  refine ⟨relocated, ?_, (renamed.package_eq current').trans String.ofList_toList, current',
    renamed⟩
  have same : clauseNameFor { file with destination := some destination } package =
    file.clauseNameFor package := rfl
  simp only [relocate, same, done]

private theorem exists_relocate {config : Config} {table : Table}
    (loaded : Table.load config = .ok table)
    (current : file.IsCurrent) {package : Package} (known : package ∈ table.packages.values)
    (destination : String) :
    ∃ change relocated, file.relocate package destination = (.ok change, relocated) := by
  obtain ⟨outline, has⟩ := current.hasOutline
  obtain ⟨relocated, done, -⟩ := exists_relocated current has
    (Table.isIdentifier_of_mem_packages loaded known) destination
  exact ⟨_, relocated, done⟩

section Stages

variable {config : Config} {table : Table} {home : Option Package} {plan : ImportPlan}
  {package : Package} {destination : String}

/-- Whether the body of a file, with its words spelled anew, starts with the keyword of one more
import. -/
def OpensImport (file : SourceFile) (table : Table) (home : Option Package) : Prop :=
  ∃ imports plan outline, file.imports = .ok imports ∧ file.importPlan table home = .ok plan ∧
    file.HasOutline outline ∧
    Outline.startsImport (Span.respellBody (file.swap table home imports plan) outline).body

/-- Whether the references of a file need imports that it lacks. -/
def NeedsImports (file : SourceFile) (table : Table) (home : Option Package) : Prop :=
  ∃ plan, file.importPlan table home = .ok plan ∧ plan.additions ≠ []

/-- Whether the imports that the references of a file need go into a quoted literal that the first
one closes, with two slashes in its path that make a remark of what is left of the line. -/
def ClosesWithRemark (file : SourceFile) (table : Table) (home : Option Package) : Prop :=
  ∃ qualified result spec others last offset,
    file.qualify table home = .ok (qualified, result) ∧ result.imports = spec :: others ∧
    ['/', '/'] <:+: spec.path.toList ∧ qualified.EndsLineBehind last offset ∧
    gapBehind last (spec :: others) = [] ∧ qualified.ClosesAt offset

/-- How the stages of a file are meant to end. -/
inductive EndsAsMeant (file : SourceFile) (table : Table) (home : Option Package)
    (package : Package) (destination : String) : Prop where
  /-- The imports of the file cannot be read as they are, and the first stage says so. -/
  | malformed {line : Nat} (unread : file.imports = .error (.malformedImport line))
      (stopped : file.qualify table home = .error (.ambiguous (.malformedImport line)))
  /-- A package that is needed is imported for its side effects only. -/
  | blank {imports : List Import} {spec : Import} (read : file.imports = .ok imports)
      (listed : spec ∈ imports) (unnamed : spec.name = some "_")
      (stopped : file.qualify table home = .error (ImportPlan.blankConflict spec.path))
  /-- All stages are done, and the imports that are added are those that the first one asks for. -/
  | done {qualified reconciled relocated : SourceFile} {result : Qualification}
      {change : Option PackageChange}
      (qualifies : file.qualify table home = .ok (qualified, result))
      (reconciles : qualified.reconcile result.imports = .ok (reconciled, result.imports))
      (relocates : reconciled.relocate package destination = (.ok change, relocated))

private theorem isWritable_additions (loaded : Table.load config = .ok table)
    (plain : table.HasPlainPaths) (read : file.imports = .ok imports)
    (planned : file.importPlan table home = .ok plan) :
    ∀ spec ∈ plan.additions, spec.IsWritable := by
  intro spec member
  rw [importPlan_eq read] at planned
  refine ImportPlan.isWritable_of_mem_additions (isIdentifier_of_needed loaded) ?_ planned member
  intro entry listed
  obtain ⟨package, known, path, -⟩ := exists_package_of_needed loaded listed
  rw [← path]
  exact plain package known

private theorem exists_quoted_place (quotes : file.QuotesLineEnd) (has : file.HasOutline outline) :
    ∃ (place : outline.LineEnd) (last : PlacedImport),
      file.EndsLineBehind last place.offset ∧ place.IsQuoted := by
  obtain ⟨place, ends, quoted⟩ := has.quotesLineEnd_iff.1 quotes
  obtain ⟨last, behind⟩ := endsLineAt_iff.1 ends
  exact ⟨place, last, behind, quoted⟩

private theorem exists_reconcile_of_closes (current : file.IsCurrent)
    (read : file.imports = .ok imports) (writable : ∀ spec ∈ added, spec.IsWritable)
    (missing : missingImports (imports.map (·.path)) added = added) (quotes : file.QuotesLineEnd)
    {spec : Import} {others : List Import} {last : PlacedImport} {offset : Nat}
    (asked : added = spec :: others) (slashes : ['/', '/'] <:+: spec.path.toList)
    (ends : file.EndsLineBehind last offset) (tight : gapBehind last (spec :: others) = [])
    (closes : file.ClosesAt offset) : ∃ edited, file.reconcile added = .ok (edited, added) := by
  subst asked
  obtain ⟨outline, has⟩ := current.hasOutline
  obtain ⟨place, last', ends', quoted⟩ := exists_quoted_place quotes has
  obtain ⟨rfl, rfl⟩ := ends.unique ends'
  exact (exists_reconcile_iff_of_quoted current has read ends quoted writable missing).2
    ⟨tight, slashes, closes⟩

private theorem endsAsMeant_of_plan (current : file.IsCurrent)
    (loaded : Table.load config = .ok table)
    (plain : table.HasPlainPaths) (known : package ∈ table.packages.values)
    (read : file.imports = .ok imports) (planned : file.importPlan table home = .ok plan)
    (opens : ¬file.OpensImport table home)
    (free : file.NeedsImports table home → file.QuotesLineEnd → file.ClosesWithRemark table home) :
    file.EndsAsMeant table home package destination := by
  obtain ⟨outline, has⟩ := current.hasOutline
  obtain ⟨-, qualified, result, body, qualifies, asked, current', has'⟩ | ⟨keyword, -⟩ :=
    qualify_cases current loaded has read planned
  · have read' : qualified.imports = .ok imports :=
      (imports_eq_of_front has has' rfl rfl).trans read
    have missing := ImportPlan.missingImports_additions (importPlan_eq read ▸ planned)
    have writable := isWritable_additions loaded plain read planned
    obtain ⟨reconciled, reconciles⟩ : ∃ reconciled,
        qualified.reconcile plan.additions = .ok (reconciled, plan.additions) := by
      obtain done | ⟨present, quotes⟩ := reconcile_or_quoted current' read' writable missing
      · exact done
      · obtain ⟨other, result', spec, others, last, offset, qualifies', listed, slashes, ends,
          tight, closes⟩ :=
          free ⟨plan, planned, present⟩ (quotesLineEnd_of_front has' has rfl rfl quotes)
        obtain ⟨rfl, rfl⟩ := Prod.mk.inj (Except.ok.inj (qualifies.symm.trans qualifies'))
        exact exists_reconcile_of_closes current' read' writable missing quotes
          (asked.symm.trans listed) slashes ends tight closes
    obtain ⟨change, relocated, relocates⟩ :=
      exists_relocate loaded (current'.reconcile reconciles) known destination
    rw [← asked] at reconciles
    exact .done qualifies reconciles relocates
  · exact absurd ⟨imports, plan, outline, read, planned, has, keyword⟩ opens

private theorem endsAsMeant_of_free (current : file.IsCurrent)
    (loaded : Table.load config = .ok table)
    (plain : table.HasPlainPaths) (known : package ∈ table.packages.values)
    (opens : ¬file.OpensImport table home)
    (free : file.NeedsImports table home → file.QuotesLineEnd → file.ClosesWithRemark table home) :
    file.EndsAsMeant table home package destination := by
  cases read : file.imports with
  | error cause =>
    obtain ⟨outline, has⟩ := current.hasOutline
    obtain ⟨line, rfl⟩ := has.imports_eq_error read
    exact .malformed read (by simp only [qualify, tryQualify, read]; rfl)
  | ok imports =>
    cases planned : file.importPlan table home with
    | error failure =>
      have stopped := planned
      rw [importPlan_eq read] at stopped
      obtain ⟨spec, listed, unnamed, rfl⟩ := ImportPlan.exists_blank_of_planFrom stopped
      exact .blank read listed unnamed (qualify_of_importPlan_error read planned)
    | ok plan => exact endsAsMeant_of_plan current loaded plain known read planned opens free

private theorem EndsAsMeant.qualify_ne_ambiguous
    (ends : file.EndsAsMeant table home package destination)
    (read : file.imports = .ok imports) (cause : ScanError) :
    file.qualify table home ≠ .error (.ambiguous cause) := by
  intro failed
  cases ends with
  | malformed unread _ => simp [read] at unread
  | blank _ _ _ stopped => simp [failed, ImportPlan.blankConflict] at stopped
  | done qualifies _ _ => simp [failed] at qualifies

private theorem EndsAsMeant.not_opensImport (ends : file.EndsAsMeant table home package destination)
    (current : file.IsCurrent) (loaded : Table.load config = .ok table) :
    ¬file.OpensImport table home := by
  rintro ⟨imports, plan, outline, read, planned, has, keyword⟩
  obtain ⟨silent, -⟩ | ⟨-, cause, failed⟩ := qualify_cases current loaded has read planned
  · rw [silent] at keyword
    cases keyword
  · exact ends.qualify_ne_ambiguous read cause failed

private theorem EndsAsMeant.closesWithRemark
    (ends : file.EndsAsMeant table home package destination)
    (current : file.IsCurrent) (loaded : Table.load config = .ok table)
    (plain : table.HasPlainPaths) (needs : file.NeedsImports table home)
    (quotes : file.QuotesLineEnd) : file.ClosesWithRemark table home := by
  obtain ⟨plan, planned, present⟩ := needs
  obtain ⟨imports, read⟩ := imports_of_importPlan planned
  obtain ⟨outline, has⟩ := current.hasOutline
  obtain ⟨-, qualified, result, body, done, asked, current', has'⟩ | ⟨-, cause, failed⟩ :=
    qualify_cases current loaded has read planned
  · cases ends with
    | malformed unread _ => simp [read] at unread
    | blank _ _ _ stopped => simp [done] at stopped
    | done qualifies reconciles _ =>
      obtain ⟨rfl, rfl⟩ := Prod.mk.inj (Except.ok.inj (done.symm.trans qualifies))
      have read' : qualified.imports = .ok imports :=
        (imports_eq_of_front has has' rfl rfl).trans read
      have writable := isWritable_additions loaded plain read planned
      have missing := ImportPlan.missingImports_additions (importPlan_eq read ▸ planned)
      obtain ⟨place, last, ends, quoted⟩ :=
        exists_quoted_place (quotesLineEnd_of_front has has' rfl rfl quotes) has'
      obtain ⟨spec, others, added⟩ := List.exists_cons_of_ne_nil present
      rw [added] at writable missing
      rw [asked, added] at reconciles
      obtain ⟨tight, slashes, closes⟩ := (exists_reconcile_iff_of_quoted current' has' read' ends
        quoted writable missing).1 ⟨_, reconciles⟩
      exact ⟨qualified, result, spec, others, last, place.offset, done, asked.trans added, slashes,
        ends, tight, closes⟩
  · exact absurd failed (ends.qualify_ne_ambiguous read cause)

/-- The edits of a file never make it unreadable, with two exceptions. Whatever the table, the home
package and the destination, the stages end as they are meant to exactly when the body does not come
to start with the keyword `import`, and no new imports go into a quoted literal unless they close it
and make a remark of their own second half. -/
theorem staged_edits_end (loaded : Table.load config = .ok table) (plain : table.HasPlainPaths)
    {path : String} {text : Text} (parsed : parse path text = .ok file) (home : Option Package)
    (known : package ∈ table.packages.values) (destination : String) :
    file.EndsAsMeant table home package destination ↔
      ¬file.OpensImport table home ∧
        (file.NeedsImports table home → file.QuotesLineEnd →
          file.ClosesWithRemark table home) := by
  have current : file.IsCurrent := .of_parse parsed
  constructor
  · intro ends
    exact ⟨ends.not_opensImport current loaded, ends.closesWithRemark current loaded plain⟩
  · rintro ⟨opens, free⟩
    exact endsAsMeant_of_free current loaded plain known opens free

end Stages

/-- A file with a literal over two lines for its last import, and a reference to another package. -/
def shoalFile : SourceFile :=
  harbourFile "package a\n\nimport (\n\t\"fmt\" \"x\\\n\ty\")\n\nvar z = Plain\n"

private theorem needsImports_shoalFile :
    shoalFile.NeedsImports harbourTable (harbourTable.package? "a") := by
  have view : (shoalFile.importPlan harbourTable (harbourTable.package? "a")).toOption.map
      (·.additions) = some [⟨none, "m/b"⟩] := by
    decide +kernel
  obtain ⟨plan, planned, additions⟩ := exists_of_view view
  exact ⟨plan, planned, by simp [additions]⟩

private theorem quotesLineEnd_shoalFile : shoalFile.QuotesLineEnd := by
  have layout : ofFile shoalFile = .ok (some ⟨[⟨⟨none, "fmt"⟩, 21, 26⟩,
      ⟨⟨none, "x\\\n\ty"⟩, 27, 34⟩], some (18, 34)⟩) := by
    decide +kernel
  have sliced : Text.slice? shoalFile.text 26 34 = some " \"x\\\n\ty\"".toList := by
    decide +kernel
  have lexed : Token.lex shoalFile.text =
      .ok ([⟨.word, "package".toList⟩, ⟨.blank, [' ']⟩, ⟨.word, ['a']⟩, ⟨.blank, ['\n', '\n']⟩,
          ⟨.word, "import".toList⟩, ⟨.blank, [' ']⟩, ⟨.mark, ['(']⟩, ⟨.blank, ['\n', '\t']⟩,
          ⟨.literal, "\"fmt\"".toList⟩, ⟨.blank, [' ']⟩] ++
        ⟨.literal, "\"x\\\n\ty\"".toList⟩ :: ((Token.lex shoalFile.text).toOption.getD []).drop
          11) := by
    decide +kernel
  refine ⟨31, ⟨_, _, _, ⟨⟨none, "fmt"⟩, 21, 26⟩, _, layout, by decide, sliced, by decide,
    by decide⟩, ?_⟩
  exact ⟨_, _, _, lexed, by decide, by decide, rfl, by decide⟩

private theorem not_closesWithRemark_shoalFile :
    ¬shoalFile.ClosesWithRemark harbourTable (harbourTable.package? "a") := by
  have view : (shoalFile.qualify harbourTable (harbourTable.package? "a")).toOption.map
      (·.2.imports) = some [⟨none, "m/b"⟩] := by
    decide +kernel
  rintro ⟨qualified, result, spec, others, last, offset, qualifies, asked, slashes, -⟩
  rw [qualifies] at view
  have listed : [⟨none, "m/b"⟩] = spec :: others := (Option.some.inj view).symm.trans asked
  obtain ⟨rfl, -⟩ := List.cons.inj listed
  exact absurd slashes (by decide)

/-- The literal takes in the first quote of the new import, and the stages do not end as meant. -/
theorem shoal_breaks_stages :
    parse "a/x.go" shoalFile.text = .ok shoalFile ∧
      shoalFile.imports = .ok [⟨none, "fmt"⟩, ⟨none, "x\\\n\ty"⟩] ∧
      ¬shoalFile.EndsAsMeant harbourTable (harbourTable.package? "a") ⟨"a", "a", "m/a"⟩
        "a/x.go" := by
  have loaded : Table.load harbourConfig = .ok harbourTable :=
    Table.load_of_sorted rfl rfl rfl (by decide +kernel) rfl rfl
  have parsed : parse "a/x.go" shoalFile.text = .ok shoalFile := by decide +kernel
  have checked : harbourTable.packages.values.all (fun package =>
      package.importPath.toList.all fun c => Text.isAsciiAlphanumeric c || c == '/') = true := by
    decide +kernel
  have plain : harbourTable.HasPlainPaths := by
    intro package member c among
    have char := List.all_eq_true.1 (List.all_eq_true.1 checked package member) c among
    rcases Bool.or_eq_true_iff.1 char with ascii | slash
    · exact .inl ascii
    · exact .inr (by simp [eq_of_beq slash])
  have known : (⟨"a", "a", "m/a"⟩ : Package) ∈ harbourTable.packages.values := by decide +kernel
  refine ⟨parsed, by decide +kernel, fun ends => ?_⟩
  obtain ⟨-, free⟩ := (staged_edits_end loaded plain parsed (harbourTable.package? "a") known
    "a/x.go").1 ends
  exact not_closesWithRemark_shoalFile (free needsImports_shoalFile quotesLineEnd_shoalFile)

end SourceFile

end Repackage
