import Repackage.Proofs.ImportBlock
import Repackage.Proofs.Requalification
import Repackage.Run
import Repackage.Token.Cursor
import Repackage.Tree.Memory

/-!
Every offset falls between characters. Whatever is noted about a text, its spans and tokens, the
words and their qualifiers, the imports and the name in the package clause, is found in the text at
the offsets noted for it, and every line that an error names is a line of the text. So the edits
that are derived from these offsets always fit, and no file is ever stopped because one does not.
-/

set_option autoImplicit false
set_option relaxedAutoImplicit false

namespace Repackage

/-- The line that an error names. -/
def ScanError.line? : ScanError → Option Nat
  | .unterminated _ line => some line
  | .missingPackageClause => none
  | .malformedImport line => some line

namespace Token

theorem lexFrom_eq_error {line : Nat} {text : Text} {cause : ScanError}
    (failed : lexFrom line text = .error cause) :
    ∃ what before after, text = before ++ after ∧
      cause = .unterminated what (line + Text.newlines before) := by
  fun_induction lexFrom line text generalizing cause with
  | case1 line => cases failed
  | case2 line c cs what stopped =>
    cases failed
    exact ⟨what, [], c :: cs, rfl, rfl⟩
  | case3 line c cs kind n found e inner ih =>
    cases failed
    obtain ⟨what, before, after, rest, rfl⟩ := ih inner
    refine ⟨what, c :: cs.take n ++ before, after, ?_, ?_⟩
    · rw [List.append_assoc, ← rest, List.cons_append, List.take_append_drop]
    · rw [Text.newlines_append, Nat.add_assoc]
  | case4 line c cs kind n found rest lexed ih => cases failed

end Token

namespace Outline

theorem splitImports_eq_error {line : Nat} {tokens : List Token} {cause : ScanError}
    (failed : splitImports line tokens = .error cause) :
    ∃ before after, tokens = before ++ after ∧
      cause = .malformedImport (line + Token.newlines before) := by
  fun_induction splitImports line tokens generalizing cause with
  | case1 line tokens found => cases failed
  | case2 line tokens keyword rest found isImport start =>
    cases failed
    refine ⟨tokens.takeWhile separates, tokens.dropWhile separates, ?_, rfl⟩
    rw [List.takeWhile_append_dropWhile]
  | case3 line tokens keyword rest found isImport start n extent e inner =>
    rename_i ih
    cases failed
    obtain ⟨before, after, parts, rfl⟩ := ih inner
    refine ⟨tokens.takeWhile separates ++ (keyword :: rest.take n ++ before), after, ?_, ?_⟩
    · have whole := List.takeWhile_append_dropWhile (p := separates) (l := tokens)
      rw [found, ← List.take_append_drop n rest, parts] at whole
      refine whole.symm.trans ?_
      simp
    · simp only [start, Token.newlines, Token.texts_append, Text.newlines_append]
      congr 1
      omega
  | case4 => cases failed
  | case5 => cases failed

theorem ofTokens_eq_error {tokens : List Token} {cause : ScanError}
    (stand : Token.Stand tokens) (failed : ofTokens tokens = .error cause) :
    ∀ line ∈ cause.line?, ∃ before after, tokens = before ++ after ∧
      line = Token.newlines before + 1 := by
  have gaps := List.takeWhile_append_dropWhile (p := isGap) (l := tokens)
  unfold ofTokens at failed
  split at failed
  · cases failed
    simp [ScanError.line?]
  next keyword afterKeyword opens =>
    split_ifs at failed with package
    · have inside := List.takeWhile_append_dropWhile (p := isGap) (l := afterKeyword)
      split at failed
      · cases failed
        simp [ScanError.line?]
      next name rest names =>
        split_ifs at failed with word
        · dsimp only at failed
          split at failed
          next e split =>
            cases failed
            obtain ⟨before, after, rfl, rfl⟩ := splitImports_eq_error split
            rw [names] at inside
            rw [opens, ← inside] at gaps
            intro line named
            obtain rfl := Option.some.inj named
            refine ⟨tokens.takeWhile isGap ++ keyword :: afterKeyword.takeWhile isGap ++
              name :: before, after, ?_, ?_⟩
            · conv_lhs => rw [← gaps]
              simp
            · -- The name of the package is a word, so it holds no line end.
              have stands : name.Stands (Token.texts (before ++ after)) := by
                rw [← gaps, ← List.cons_append, ← List.append_assoc] at stand
                exact (Token.stand_append_iff.1 stand).2.1.1
              have single : Text.newlines name.text = 0 :=
                List.count_eq_zero.2 (Word.newline_not_mem (stands.isSpelled word))
              simp only [Token.newlines, Token.texts_append, Token.texts_cons,
                Text.newlines_append, single]
              omega
          · cases failed
        · cases failed
          simp [ScanError.line?]
    · cases failed
      simp [ScanError.line?]

end Outline

private theorem Span.lineAt?_of_scan {text : Text} {cause : ScanError}
    (failed : Span.scan text = .error cause) :
    ∀ line ∈ cause.line?, ∃ offset, Text.lineAt? text offset = some line := by
  intro line named
  unfold Span.scan at failed
  split at failed
  next e lexed =>
    cases failed
    obtain ⟨what, before, after, rfl, rfl⟩ := Token.lexFrom_eq_error lexed
    obtain rfl := Option.some.inj named
    refine ⟨Text.byteSize before, ?_⟩
    rw [Text.lineAt?_byteSize, Nat.add_comm]
  next tokens lexed =>
    obtain ⟨rfl, stand⟩ := Token.lexFrom_eq_ok_iff.1 lexed
    cases outlined : Outline.ofTokens tokens with
    | ok outline =>
      rw [outlined] at failed
      cases failed
    | error e =>
      rw [outlined] at failed
      cases failed
      obtain ⟨before, after, rfl, rfl⟩ := Outline.ofTokens_eq_error stand outlined line named
      refine ⟨Text.byteSize (Token.texts before), ?_⟩
      rw [Token.texts_append, Text.lineAt?_byteSize]
      rfl

namespace Site

private theorem exists_span_of_mem_itemsFrom {newline adjacent : Bool} {spans : List Span.Located}
    {item : Item} (member : item ∈ itemsFrom newline adjacent spans) :
    ∃ located ∈ spans, item.start = located.start ∧ item.text = located.span.text := by
  induction spans generalizing newline adjacent with
  | nil => cases member
  | cons located spans ih =>
    rw [itemsFrom] at member
    split_ifs at member with skipped
    · obtain ⟨found, later, same⟩ := ih member
      exact ⟨found, List.mem_cons_of_mem _ later, same⟩
    · rcases List.mem_cons.1 member with rfl | later
      · exact ⟨located, List.mem_cons_self, rfl, rfl⟩
      · obtain ⟨found, later, same⟩ := ih later
        exact ⟨found, List.mem_cons_of_mem _ later, same⟩

theorem slice?_of_mem_classify {spans : List Span} {identifier : Identifier}
    (member : identifier ∈ classify spans) :
    Text.slice? (Span.texts spans) identifier.word.start identifier.word.stop =
        some identifier.word.text ∧
      ∀ qualifier, identifier.site = .selected (some qualifier) →
        Text.slice? (Span.texts spans) qualifier.start qualifier.stop = some qualifier.text := by
  have sliced {item : Item} (among : item ∈ items spans) :
      Text.slice? (Span.texts spans) item.occurrence.start item.occurrence.stop =
        some item.occurrence.text := by
    obtain ⟨located, found, start, text⟩ := exists_span_of_mem_itemsFrom among
    have slice := (Span.slice?_of_mem_locate found).1
    rw [Span.Located.stop, ← text, ← start] at slice
    exact slice
  obtain ⟨front, item, rest, split, -, rfl⟩ := mem_classifyFrom_iff.1 member
  refine ⟨sliced (by simp [split]), fun qualifier selected => ?_⟩
  obtain ⟨dot, word, earlier, behind, -, -, rfl⟩ := exists_of_qualified selected
  have among : word ∈ front := List.mem_reverse.1 (by rw [List.append_nil] at behind; simp [behind])
  exact sliced (by simp [split, among])

end Site

private theorem ImportPlan.make_eq_error {existing : List Import} {needed : Dict Need}
    {declared : List String} {failure : Failure}
    (failed : make existing needed declared = .error failure) :
    ∃ detail, failure = .conflict detail := by
  obtain ⟨entry, -, rfl⟩ := planFrom_eq_error_iff.1 failed
  exact ⟨_, rfl⟩

namespace SourceFile

variable {file : SourceFile} {outline : Outline}

private theorem edit_ne_misplaced {edits : List Edit} (fits : ∀ edit ∈ edits, edit.Fits file.text) :
    file.edit edits ≠ .error .misplaced := by
  obtain ⟨text, spliced⟩ := Edit.exists_splice fits
  simp only [edit_eq, spliced]
  split_ifs
  · simp
  · simp
  · cases file.withText text <;> simp

namespace HasOutline

private theorem isBoundary_of_imports (has : file.HasOutline outline) {before after : List Token}
    (parts : outline.imports = before ++ after) :
    Text.IsBoundary file.text
      (Text.byteSize (Token.texts outline.front) + Text.byteSize (Token.texts before)) := by
  refine ⟨Token.texts (outline.front ++ before), Token.texts (after ++ outline.body), ?_, ?_⟩
  · have tokens : outline.tokens = outline.front ++ outline.imports ++ outline.body := rfl
    rw [has.text, tokens, parts, ← Token.texts_append]
    simp
  · rw [Token.texts_append, Text.byteSize_append]

private theorem isBoundary_of_layout (has : file.HasOutline outline) {layout : ImportLayout}
    (done : ImportLayout.ofFile file = .ok (some layout)) :
    (∀ placed ∈ layout.specs,
      Text.byteSize (Token.texts outline.front) ≤ placed.start ∧ placed.start ≤ placed.stop ∧
        Text.IsBoundary file.text placed.start ∧ Text.IsBoundary file.text placed.stop) ∧
      ∀ opening closing, layout.group = some (opening, closing) →
        Text.IsBoundary file.text closing := by
  obtain ⟨-, reading, -, tells, rfl⟩ := has.exists_reading done
  constructor
  · intro placed member
    obtain ⟨before, middle, literal, after, parts, -, start, stop⟩ := tells.specs placed member
    have first : outline.imports = before ++ (middle ++ literal :: after) := by simp [parts]
    have second : outline.imports = (before ++ middle ++ [literal]) ++ after := by simp [parts]
    have ordered : Text.byteSize (Token.texts before) ≤
        Text.byteSize (Token.texts (before ++ middle ++ [literal])) := by
      rw [List.append_assoc, Token.texts_append, Text.byteSize_append]
      omega
    refine ⟨by omega, by omega, ?_, ?_⟩
    · rw [start]
      exact has.isBoundary_of_imports first
    · rw [stop]
      exact has.isBoundary_of_imports second
  · intro opening closing group
    obtain ⟨start, -, closes⟩ := Option.bind_eq_some_iff.1 group
    obtain ⟨stop, closed, same⟩ := Option.map_eq_some_iff.1 closes
    cases same
    obtain ⟨before, mark, after, parts, -, place⟩ :=
      Token.markAt?_eq_some (tells.closed.symm.trans closed)
    rw [place]
    exact has.isBoundary_of_imports parts

private theorem lineAt?_of_layout (has : file.HasOutline outline) {cause : ScanError}
    (failed : ImportLayout.ofFile file = .error cause) :
    ∀ line ∈ cause.line?, ∃ offset, Text.lineAt? file.text offset = some line := by
  have tokens : file.text =
      Token.texts outline.front ++ Token.texts outline.imports ++ Token.texts outline.body := by
    rw [has.text, ← Token.texts_append, ← Token.texts_append]
    rfl
  intro line named
  by_cases empty : outline.imports = []
  · rw [has.ofFile_of_none empty] at failed
    cases failed
  · rw [has.ofFile_of_some empty] at failed
    split at failed
    next stopped =>
      cases failed
      obtain ⟨token, member, rfl⟩ := ImportLayout.Reading.exists_of_run_error stopped
      obtain rfl := Option.some.inj named
      rw [tokens]
      exact ⟨token.start, (Token.slice?_of_mem_locateFrom (List.mem_of_mem_filter member)).2⟩
    next reading read =>
      split_ifs at failed
      cases failed
      obtain rfl := Option.some.inj named
      refine ⟨Text.byteSize (Token.texts outline.front), ?_⟩
      rw [tokens, List.append_assoc, Text.lineAt?_byteSize]

end HasOutline

private theorem extendGroup_fits {text : Text} {specs : List PlacedImport} {start stop : Nat}
    (placed : ∀ placed ∈ specs, Text.IsBoundary text placed.stop)
    (closing : Text.IsBoundary text stop) (added : List Import) :
    ∃ edit, extendGroup text specs start stop added = some edit ∧ edit.Fits text := by
  unfold extendGroup
  dsimp only
  split
  next last found =>
    have member := List.mem_filter.1 (List.mem_of_getLast? found)
    have inside : last.stop < stop := by
      have kept := member.2
      simp only [Bool.and_eq_true, decide_eq_true_eq] at kept
      exact kept.2
    obtain ⟨before, tail, after, rfl, first, rfl⟩ :=
      Text.exists_between (placed last member.1) closing inside.le
    rw [first, Text.slice?_byteSize]
    by_cases newline : tail.contains '\n' = true
    · obtain ⟨rest, line⟩ := Text.exists_line (by simpa using newline)
      refine ⟨_, if_pos newline, le_rfl, ?_⟩
      have place : Text.IsBoundary (before ++ tail ++ after)
          (Text.byteSize before + Text.byteSize (tail.takeWhile (· ≠ '\n')) + 1) := by
        refine ⟨before ++ tail.takeWhile (· ≠ '\n') ++ ['\n'], rest ++ after, ?_, ?_⟩
        · conv_lhs => rw [line]
          simp
        · have size : Text.byteSize ['\n'] = 1 := rfl
          rw [Text.byteSize_append, Text.byteSize_append, size]
      exact ⟨place, place⟩
    · refine ⟨_, if_neg newline, le_rfl, ?_⟩
      have place := Text.isBoundary_byteSize before (tail ++ after)
      rw [← List.append_assoc] at place
      exact ⟨place, place⟩
  next none =>
    obtain ⟨before, after, rfl, rfl⟩ := closing
    rw [Text.cut?_byteSize]
    have place := Text.isBoundary_byteSize before after
    exact ⟨_, rfl, le_rfl, place, place⟩

private theorem promoteSingle_fits {text : Text} {first : PlacedImport} {blockStart : Nat}
    (block : Text.IsBoundary text blockStart) (after : blockStart ≤ first.start)
    (ordered : first.start ≤ first.stop) (start : Text.IsBoundary text first.start)
    (stop : Text.IsBoundary text first.stop) (added : List Import) :
    ∃ edit, promoteSingle text first blockStart added = some edit ∧ edit.Fits text := by
  obtain ⟨spec, sliced⟩ := Text.exists_slice start stop ordered
  refine ⟨_, by rw [promoteSingle, sliced]; rfl, ?_, block, stop⟩
  exact le_trans after ordered

private theorem importEdit?_fits (has : file.HasOutline outline) {layout : Option ImportLayout}
    (read : ImportLayout.ofFile file = .ok layout) (added : List Import) :
    ∃ found, file.importEdit? layout added = some found ∧
      ∀ edit, found = some edit → edit.Fits file.text := by
  cases layout with
  | none =>
    have place : Text.IsBoundary file.text file.clauseStop := by
      rw [clauseStop_of_spans has.spans, has.text]
      have parts : outline.tokens = (outline.header ++ outline.clauseStart ++ [outline.name]) ++
          (outline.gap ++ outline.imports ++ outline.body) := by
        simp [Outline.tokens]
      rw [parts, Token.texts_append]
      exact Text.isBoundary_byteSize _ _
    refine ⟨some (newGroup file.clauseStop added), rfl, fun edit made => ?_⟩
    obtain rfl := Option.some.inj made
    exact ⟨le_rfl, place, place⟩
  | some layout =>
    obtain ⟨placed, closing⟩ := has.isBoundary_of_layout read
    obtain ⟨specs, group⟩ := layout
    cases group with
    | some offsets =>
      obtain ⟨start, stop⟩ := offsets
      obtain ⟨edit, extended, fits⟩ := @extendGroup_fits _ specs start stop
        (fun spec member => (placed spec member).2.2.2) (closing start stop rfl) added
      refine ⟨some edit, by simp only [importEdit?, extended, Option.map_some], ?_⟩
      intro other made
      obtain rfl := Option.some.inj made
      exact fits
    | none =>
      cases specs with
      | nil => exact ⟨none, rfl, by simp⟩
      | cons first specs =>
        obtain ⟨after, ordered, starts, stops⟩ := placed first List.mem_cons_self
        obtain ⟨present, -⟩ := has.exists_reading read
        have block : Text.IsBoundary file.text (Text.byteSize (Token.texts outline.front)) :=
          has.isBoundary_of_imports (List.nil_append outline.imports).symm
        obtain ⟨edit, promoted, fits⟩ := promoteSingle_fits block after ordered starts stops added
        have found : Span.firstOf? .importBlock file.spans =
            some ⟨Text.byteSize (Token.texts outline.front),
              Text.newlines (Token.texts outline.front) + 1,
              ⟨.importBlock, Token.texts outline.imports⟩⟩ := by
          rw [has.spans, Span.firstOf?_importBlock, if_neg present]
        refine ⟨some edit, by simp only [importEdit?, found, promoted, Option.map_some], ?_⟩
        intro other made
        obtain rfl := Option.some.inj made
        exact fits

private theorem reconcile_ne_misplaced (has : file.HasOutline outline) (required : List Import) :
    file.reconcile required ≠ .error .misplacedEdit := by
  rw [reconcile_eq]
  cases read : ImportLayout.ofFile file with
  | error cause => simp
  | ok layout =>
    dsimp only
    split_ifs with nothing
    · simp
    · obtain ⟨found, made, fits⟩ := importEdit?_fits has read
        (missingImports (layout.elim [] fun layout => layout.specs.map (·.spec.path)) required)
      rw [made]
      cases found with
      | none => simp
      | some edit =>
        have placed : file.edit [edit] ≠ .error .misplaced :=
          edit_ne_misplaced (by simpa using fits)
        dsimp only
        split
        next e failed =>
          cases e with
          | unscannable cause => simp [Failure.ofEditError]
          | misplaced => exact absurd failed placed
        · simp

private theorem qualify_ne_misplaced (current : file.IsCurrent) (table : Table)
    (home : Option Package) : file.qualify table home ≠ .error .misplacedEdit := by
  cases read : file.imports with
  | error cause => simp [qualify, tryQualify, succeeded, Except.map, read]
  | ok imports =>
    cases planned : file.importPlan table home with
    | error failure =>
      rw [importPlan_eq read] at planned
      obtain ⟨detail, rfl⟩ := ImportPlan.make_eq_error planned
      simp only [needed, scope] at planned
      simp only [qualify, tryQualify, succeeded, Except.map, read, planned]
      simp
    | ok plan =>
      have fits : ∀ edit ∈ (file.scope table home imports).edits plan file.sites,
          edit.Fits file.text := by
        intro edit member
        obtain ⟨⟨word, spelling⟩, listed, rfl⟩ := List.mem_map.1 member
        obtain ⟨identifier, site, found⟩ := List.mem_filterMap.1 listed
        obtain ⟨spelling', -, same⟩ := Option.map_eq_some_iff.1 found
        cases same
        have sliced := (Site.slice?_of_mem_classify site).1
        rw [Span.texts_of_scan current.scanned] at sliced
        exact Text.isBoundary_of_slice? sliced
      have placed := edit_ne_misplaced fits
      rw [qualify_eq read planned]
      cases done : file.edit ((file.scope table home imports).edits plan file.sites) with
      | ok outcome => simp [Except.mapError, Except.map]
      | error e =>
        cases e with
        | unscannable cause => simp [Except.mapError, Except.map, Failure.ofEditError]
        | misplaced => exact absurd done placed

private theorem slice?_nameRange (current : file.IsCurrent) :
    Text.byteSize file.package.toList ≤ file.clauseStop ∧
      Text.slice? file.text file.nameRange.1 file.nameRange.2 = some file.package.toList := by
  obtain ⟨outline, lexed, -, spans, named, range⟩ := current.exists_outline
  obtain ⟨text, -⟩ := Token.lexFrom_eq_ok_iff.1 lexed
  have parts : Token.texts outline.tokens = Token.texts (outline.header ++ outline.clauseStart) ++
      outline.name.text ++ Token.texts (outline.gap ++ outline.imports ++ outline.body) := by
    simp [Outline.tokens, Token.texts]
  have clause : Token.texts (outline.header ++ outline.clauseStart ++ [outline.name]) =
      Token.texts (outline.header ++ outline.clauseStart) ++ outline.name.text := by
    simp [Token.texts]
  rw [clauseStop_of_spans spans, range, named, String.toList_ofList, clause, ← text, parts]
  refine ⟨?_, Text.slice?_byteSize _ _ _⟩
  rw [Text.byteSize_append]
  omega

private theorem renameClause_ne_misplaced (current : file.IsCurrent) (name : String) :
    file.renameClause name ≠ .error .misplacedEdit := by
  have fits := Text.isBoundary_of_slice? (slice?_nameRange current).2
  have placed : file.edit [⟨file.nameRange.1, file.nameRange.2, name.toList⟩] ≠
      .error .misplaced := by
    refine edit_ne_misplaced fun edit member => ?_
    obtain rfl := List.mem_singleton.1 member
    exact fits
  unfold renameClause
  split
  · simp
  · split
    next e failed =>
      cases e with
      | unscannable cause => simp [Failure.ofEditError]
      | misplaced => exact absurd failed placed
    · simp

private theorem relocate_ne_misplaced (current : file.IsCurrent) (package : Package)
    (destination : String) :
    (file.relocate package destination).1 ≠ .error .misplacedEdit := by
  have renamed := renameClause_ne_misplaced (current.send (some destination))
    (SourceFile.clauseNameFor { file with destination := some destination } package)
  unfold relocate
  dsimp only
  split
  next failure failed =>
    rintro same
    obtain rfl : failure = .misplacedEdit := by simpa using same
    exact renamed failed
  · simp

/-- Whether everything that is noted about a file, and everything that is cut out of its text in
order to change it, lies in the text between characters. -/
structure SlicesExist (file : SourceFile) : Prop where
  spans : ∀ located ∈ Span.locate file.spans,
    Text.slice? file.text located.start located.stop = some located.span.text
  block : ∀ block, Span.firstOf? .importBlock file.spans = some block →
    ∃ tokens, Token.lex block.span.text = .ok tokens ∧
      ∀ located ∈ Token.locateFrom block.start block.line tokens,
        Text.slice? file.text located.start located.stop = some located.token.text ∧
          Text.lineAt? file.text located.start = some located.line
  malformed : ∀ cause, ImportLayout.ofFile file = .error cause →
    ∀ line ∈ cause.line?, ∃ offset, Text.lineAt? file.text offset = some line
  imports : ∀ layout, ImportLayout.ofFile file = .ok (some layout) → ∀ placed ∈ layout.specs,
    (∃ spec, Text.slice? file.text placed.start placed.stop = some spec) ∧
      ∀ opening closing, layout.group = some (opening, closing) →
        (∃ before, Text.slice? file.text 0 closing = some before) ∧
          (placed.stop < closing →
            ∃ tail, Text.slice? file.text placed.stop closing = some tail)
  words : ∀ identifier ∈ file.sites,
    Text.slice? file.text identifier.word.start identifier.word.stop =
        some identifier.word.text ∧
      ∀ qualifier, identifier.site = .selected (some qualifier) →
        Text.slice? file.text qualifier.start qualifier.stop = some qualifier.text
  name : Text.byteSize file.package.toList ≤ file.clauseStop ∧
    Text.slice? file.text file.nameRange.1 file.nameRange.2 = some file.package.toList
  qualified : ∀ table home, file.qualify table home ≠ .error .misplacedEdit
  reconciled : ∀ required, file.reconcile required ≠ .error .misplacedEdit
  relocated : ∀ package destination,
    (file.relocate package destination).1 ≠ .error .misplacedEdit

private theorem IsCurrent.slicesExist (current : file.IsCurrent) : file.SlicesExist := by
  obtain ⟨outline, has⟩ := current.hasOutline
  have whole := Span.texts_of_scan current.scanned
  refine ⟨?_, ?_, ?_, ?_, ?_, slice?_nameRange current, qualify_ne_misplaced current,
    reconcile_ne_misplaced has, relocate_ne_misplaced current⟩
  · intro located member
    rw [← whole]
    exact (Span.slice?_of_mem_locate member).1
  · intro block found
    rw [has.spans, Span.firstOf?_importBlock] at found
    split_ifs at found
    cases found
    refine ⟨outline.imports,
      Token.lexFrom_eq_ok_iff.2 ⟨rfl, Outline.stand_imports has.stand⟩, ?_⟩
    intro located member
    have parts : file.text =
        Token.texts outline.front ++ Token.texts outline.imports ++ Token.texts outline.body := by
      rw [has.text, ← Token.texts_append, ← Token.texts_append]
      rfl
    rw [parts]
    exact Token.slice?_of_mem_locateFrom member
  · intro cause failed
    exact has.lineAt?_of_layout failed
  · intro layout done placed member
    obtain ⟨specs, group⟩ := has.isBoundary_of_layout done
    obtain ⟨-, ordered, start, stop⟩ := specs placed member
    refine ⟨Text.exists_slice start stop ordered, fun opening closing found => ?_⟩
    have close := group opening closing found
    exact ⟨Text.exists_slice (Text.isBoundary_zero _) close (Nat.zero_le _),
      fun inside => Text.exists_slice stop close inside.le⟩
  · intro identifier member
    rw [← whole]
    exact Site.slice?_of_mem_classify member

end SourceFile

namespace Failure

private theorem message_ne_misplacedEdit {failure : Failure} (other : failure ≠ .misplacedEdit) :
    failure.message ≠ misplacedEdit.message := by
  intro same
  have first : failure.message.toList.head? = "an edit lies outside the text".toList.head? :=
    congrArg (fun message => message.toList.head?) same
  cases failure with
  | ambiguous cause =>
    change ("parse ambiguity: " ++ cause.message).toList.head? = _ at first
    simp at first
  | conflict detail =>
    change ("conflict: " ++ detail).toList.head? = _ at first
    simp at first
  | tree stage path cause =>
    change (stage.label ++ ": io error on '" ++ path ++ "': " ++ cause.message).toList.head? = _
      at first
    cases stage <;> simp [Stage.label] at first
  | readBackMismatch path =>
    change ("read-back of '" ++ path ++ "' does not match the written content").toList.head? = _
      at first
    simp at first
  | misplacedEdit => exact other rfl

end Failure

namespace Run

variable {σ : Type} [Tree σ]

private theorem outcomeOf_ne_misplaced {failure : Failure} (other : failure ≠ .misplacedEdit)
    (reached stage : Stage) :
    outcomeOf failure reached ≠ .failed stage Failure.misplacedEdit.message := by
  have message := Failure.message_ne_misplacedEdit other
  cases failure with
  | ambiguous cause =>
    unfold outcomeOf
    dsimp only
    split_ifs
    · simp [Outcome.unscannable]
    · simp [message]
  | conflict detail => simp [outcomeOf]
  | tree stage path cause => simp [outcomeOf, message]
  | readBackMismatch path => simp [outcomeOf, message]
  | misplacedEdit => exact absurd rfl other

private theorem settle_ne_misplaced (tree : σ) (read : Text) (file : SourceFile)
    (report : FileReport) (stage : Stage) :
    (settle tree read file report).report.outcome ≠
      .failed stage Failure.misplacedEdit.message := by
  unfold settle
  split
  next failure failed =>
    refine outcomeOf_ne_misplaced ?_ _ _
    rintro rfl
    unfold SourceFile.checkDestination at failed
    split at failed
    · cases failed
    · split at failed
      · cases failed
      · split at failed <;> cases failed
  · dsimp only [Slot.report]
    split_ifs <;> simp

private theorem planFile_ne_misplaced (tree : σ) (table : Table) (target : Target)
    {file : SourceFile} (current : file.IsCurrent) (report : FileReport) (stage : Stage) :
    (planFile tree table target file report).report.outcome ≠
      .failed stage Failure.misplacedEdit.message := by
  unfold planFile
  split
  next failure failed =>
    refine outcomeOf_ne_misplaced ?_ _ _
    rintro rfl
    exact current.slicesExist.qualified _ _ failed
  next qualified result done =>
    have later := current.qualify done
    dsimp only
    split
    next failure failed =>
      refine outcomeOf_ne_misplaced ?_ _ _
      rintro rfl
      exact later.slicesExist.reconciled _ failed
    next reconciled added done =>
      have last := later.reconcile done
      split
      next failure sent failed =>
        refine outcomeOf_ne_misplaced ?_ _ _
        rintro rfl
        exact last.slicesExist.relocated target.package target.destination (by rw [failed])
      · exact settle_ne_misplaced _ _ _ _ _

private theorem planTarget_ne_misplaced (table : Table) (tree : σ) (target : Target) (stage : Stage)
    : (planTarget table tree target).report.outcome ≠
      .failed stage Failure.misplacedEdit.message := by
  unfold planTarget
  dsimp only
  split
  next failure failed =>
    refine outcomeOf_ne_misplaced ?_ _ _
    rintro rfl
    unfold readTarget at failed
    split at failed
    · cases failed
    · split at failed <;> cases failed
  next file read =>
    refine planFile_ne_misplaced tree table target ?_ _ stage
    unfold readTarget at read
    split at read
    · cases read
    · split at read
      · cases read
      next parsed =>
        cases read
        exact (SourceFile.IsCurrent.of_parse parsed).send _

/-- No text is ever cut outside itself or inside a character. All cuts that the lexer makes at its
cursor exist, and the tokens of every text lie in it at their offsets and lines, and an error names
a line of the text; all that is noted about a parsed file, through any changes, can be cut out of
its text, and the edits of a qualification, of added imports and of a move fit it; so no file of any
tree is stopped by an edit that does not. -/
theorem every_cut_fits (table : Table) (tree : σ) (target : Target) :
    (∀ text, (⟨text, 0⟩ : Token.Cursor).tokenize? =
      some ((Token.lex text).map fun tokens =>
        (Token.locateFrom 0 1 tokens).map Token.Placed.of)) ∧
    (∀ text, match Token.lex text with
      | .error cause => ∀ line ∈ cause.line?, ∃ offset, Text.lineAt? text offset = some line
      | .ok tokens => ∀ located ∈ Token.locateFrom 0 1 tokens,
        Text.slice? text located.start located.stop = some located.token.text ∧
          Text.lineAt? text located.start = some located.line) ∧
    (∀ path text, match SourceFile.parse path text with
      | .error cause => ∀ line ∈ cause.line?, ∃ offset, Text.lineAt? text offset = some line
      | .ok file => ∀ steps, (file.applyAll steps).SlicesExist) ∧
    ∀ stage, (planTarget table tree target).report.outcome ≠
      .failed stage Failure.misplacedEdit.message := by
  refine ⟨Token.Cursor.tokenize?_eq, fun text => ?_, fun path text => ?_,
    planTarget_ne_misplaced table tree target⟩
  · cases lexed : Token.lex text with
    | error cause =>
      obtain ⟨what, before, after, rfl, rfl⟩ := Token.lexFrom_eq_error lexed
      intro line named
      obtain rfl := Option.some.inj named
      refine ⟨Text.byteSize before, ?_⟩
      rw [Text.lineAt?_byteSize, Nat.add_comm]
    | ok tokens =>
      obtain ⟨rfl, -⟩ := Token.lexFrom_eq_ok_iff.1 lexed
      intro located member
      have found := @Token.slice?_of_mem_locateFrom [] [] _ _ member
      rwa [List.nil_append, List.append_nil] at found
  · cases parsed : SourceFile.parse path text with
    | ok file =>
      intro steps
      exact ((SourceFile.IsCurrent.of_parse parsed).applyAll steps).slicesExist
    | error cause =>
      unfold SourceFile.parse at parsed
      cases scanned : Span.scan text with
      | error e =>
        rw [scanned] at parsed
        cases parsed
        exact Span.lineAt?_of_scan scanned
      | ok spans =>
        rw [scanned] at parsed
        cases parsed

/-- A file with letters of two bytes in its names and comments. -/
def fjordFile : SourceFile :=
  let text := "package å\n\nimport \"fmt\" // ø\n\nvar æ = å.Ø\n".toList
  ⟨"a/x.go", none, "å", text, (Span.scan text).toOption.getD []⟩

/-- The name of the package takes two bytes, and after an import has been added and the file been
sent on everything is still found where it is noted. -/
theorem fjord_cut :
    SourceFile.parse "a/x.go" fjordFile.text = .ok fjordFile ∧ fjordFile.nameRange = (8, 10) ∧
      Text.slice? fjordFile.text 8 10 = some ['å'] ∧ Text.slice? fjordFile.text 8 9 = none ∧
      (fjordFile.applyAll [.reconcile [⟨none, "m/b"⟩],
        .relocate ⟨"øre", "b", "m/b"⟩ "b/x.go"]).SlicesExist := by
  have parsed : SourceFile.parse "a/x.go" fjordFile.text = .ok fjordFile := by decide +kernel
  have cuts := (every_cut_fits ⟨"m", Dict.empty, Dict.empty, [], [], true⟩
    (Memory.ofFiles [("a/x.go", fjordFile.text)])
    ⟨"a/x.go", ⟨"øre", "b", "m/b"⟩, "b/x.go"⟩).2.2.1 "a/x.go" fjordFile.text
  rw [parsed] at cuts
  exact ⟨parsed, by decide +kernel, by decide +kernel, by decide +kernel, cuts _⟩

end Run

end Repackage
