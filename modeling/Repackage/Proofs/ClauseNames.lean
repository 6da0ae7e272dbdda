import Repackage.Proofs.Plan
import Repackage.Proofs.StagedEdits
import Repackage.Proofs.UnreadText

/-!
What sending a file to a package does to its text. The name in the package clause is replaced, and
everything around it is read as before: the tokens on both sides of the name, the spans on both
sides of the clause, and the imports. Sending the file once more changes nothing, unless the package
has a name like that of an external test package and the file holds tests of another kind.
-/

set_option autoImplicit false
set_option relaxedAutoImplicit false

namespace Repackage

open Token (texts)

private theorem ImportLayout.Reading.map_stage_run_congr {reading reading' : Reading}
    (same : reading'.stage = reading.stage) (start start' line : Nat) (tokens : List Token) :
    (reading'.run (Token.significantFrom start' line tokens)).map stage =
      (reading.run (Token.significantFrom start line tokens)).map stage := by
  induction tokens generalizing reading reading' start start' line with
  | nil => exact congrArg Except.ok same
  | cons token tokens ih =>
    rw [Token.significantFrom_cons, Token.significantFrom_cons]
    split_ifs with significant
    · have steps : (reading'.step ⟨start', line, token⟩).map stage =
          (reading.step ⟨start, line, token⟩).map stage := by
        rw [map_stage_step _ _ significant, map_stage_step _ _ significant, same]
      rw [run, run]
      cases next : reading.step ⟨start, line, token⟩ with
      | none =>
        rw [next] at steps
        rw [Option.map_eq_none_iff.1 steps]
      | some after =>
        rw [next] at steps
        obtain ⟨after', next', same⟩ := Option.map_eq_some_iff.1 steps
        rw [next']
        exact ih same _ _ _
    · exact ih same _ _ _

namespace SourceFile

open ImportLayout

variable {file other : SourceFile} {outline outline' : Outline} {package : Package}

private theorem HasOutline.map_imports (has : file.HasOutline outline) :
    file.imports.map (fun _ => ()) =
      if outline.imports = [] then .ok ()
      else
        ((Reading.run {} (Token.significantFrom (Text.byteSize (texts outline.front))
          (Text.newlines (texts outline.front) + 1) outline.imports)).map Reading.stage).bind
            fun stage =>
              if stage.1 = 0 then .ok ()
              else .error (.malformedImport (Text.newlines (texts outline.front) + 1)) := by
  split_ifs with empty
  · rw [SourceFile.imports, has.ofFile_of_none empty]
    rfl
  · rw [SourceFile.imports, has.ofFile_of_some empty]
    generalize Reading.run {} _ = outcome
    cases outcome with
    | error refused => rfl
    | ok reading =>
      simp only [Except.map, Except.bind, Reading.stage]
      split_ifs <;> rfl

theorem HasOutline.imports_congr (has : file.HasOutline outline)
    (has' : other.HasOutline outline') (block : outline'.imports = outline.imports)
    (lines : Text.newlines (texts outline'.front) = Text.newlines (texts outline.front)) :
    other.imports = file.imports := by
  have alike : other.imports.map (fun _ => ()) = file.imports.map fun _ => () := by
    rw [has.map_imports, has'.map_imports, block, lines,
      @Reading.map_stage_run_congr {} {} rfl (Text.byteSize (texts outline.front))]
  cases read : file.imports with
  | ok imports => exact has.imports_of_eq has' block read
  | error cause =>
    rw [read] at alike
    cases read' : other.imports with
    | ok imports' =>
      rw [read'] at alike
      cases alike
    | error cause' =>
      rw [read'] at alike
      cases alike
      rfl

private theorem HasOutline.newlines_front (has : file.HasOutline outline) :
    Text.newlines (texts outline.front) =
      Text.newlines (texts (outline.header ++ outline.clauseStart)) +
        Text.newlines (texts outline.gap) := by
  have parts : outline.tokens = (outline.header ++ outline.clauseStart) ++
      outline.name :: (outline.gap ++ outline.imports ++ outline.body) := by
    simp [Outline.tokens]
  obtain ⟨-, ⟨stands, -⟩, -⟩ := Token.stand_append_iff.1 (parts ▸ has.stand)
  have none : Text.newlines outline.name.text = 0 :=
    List.count_eq_zero.2 (Word.newline_not_mem (stands.isSpelled has.formed.name))
  rw [Outline.front, Token.texts_append, Token.texts_cons, Text.newlines_append,
    Text.newlines_append, none, Nat.zero_add]

/-- Everything in a file but the name of its package: the tokens on both sides of the name, and the
spans on both sides of the clause, of which the beginning belongs to it as well. -/
structure ClauseFrame where
  before : List Token
  after : List Token
  front : List Span
  clause : Text
  behind : List Span

/-- Whether a file consists of the name of its package and a frame around it. -/
structure HasFrame (file : SourceFile) (frame : ClauseFrame) : Prop where
  text : file.text = texts frame.before ++ file.package.toList ++ texts frame.after
  lexed : Token.lex file.text =
    .ok (frame.before ++ ⟨.word, file.package.toList⟩ :: frame.after)
  spans : file.spans =
    frame.front ++ ⟨.packageClause, frame.clause ++ file.package.toList⟩ :: frame.behind
  nameRange : file.nameRange = (Text.byteSize (texts frame.before),
    Text.byteSize (texts frame.before ++ file.package.toList))

def clauseFrame (outline : Outline) : ClauseFrame where
  before := outline.header ++ outline.clauseStart
  after := outline.gap ++ outline.imports ++ outline.body
  front := outline.header.map Span.ofToken
  clause := texts outline.clauseStart
  behind := outline.gap.map Span.ofToken ++
    (if outline.imports = [] then [] else [⟨.importBlock, texts outline.imports⟩]) ++
    outline.body.map Span.ofToken

private theorem HasOutline.hasFrame (has : file.HasOutline outline) (current : file.IsCurrent) :
    file.HasFrame (clauseFrame outline) where
  text := has.text_around current
  lexed := by
    have name : outline.name = ⟨.word, file.package.toList⟩ := by
      rw [has.package_eq current, String.toList_ofList, ← has.formed.name]
    have lexed : Token.lex (texts outline.tokens) = .ok outline.tokens :=
      Token.lexFrom_eq_ok_iff.2 ⟨rfl, has.stand⟩
    rw [has.text, lexed, ← name]
    simp [Outline.tokens, clauseFrame]
  spans := by
    rw [has.spans, has.package_eq current, String.toList_ofList]
    simp [Span.ofOutline, clauseFrame]
  nameRange := has.nameRange_eq current

/-- Sending a file to a package with a proper name always succeeds. The clause then has the name for
that package, and nothing but this name has changed in the text. A change is told exactly when there
is one. -/
theorem relocation_renames_clause (current : file.IsCurrent)
    (named : Word.isIdentifier package.name.toList) (destination : String) :
    ∃ change relocated frame, file.relocate package destination = (.ok change, relocated) ∧
      relocated.package = file.clauseNameFor package ∧
      file.HasFrame frame ∧ relocated.HasFrame frame ∧ relocated.imports = file.imports ∧
      relocated.path = file.path ∧ relocated.destination = some destination ∧
      (change.isSome ↔ relocated.text ≠ file.text) ∧
      ∀ told ∈ change, told = ⟨file.package, relocated.package⟩ := by
  obtain ⟨outline, has⟩ := current.hasOutline
  obtain ⟨relocated, done, called, current', has'⟩ :=
    exists_relocated current has named destination
  have framed := has.hasFrame current
  have framed' : relocated.HasFrame (clauseFrame outline) := has'.hasFrame current'
  have lines : Text.newlines (texts (outline.withName
      (file.clauseNameFor package).toList).front) = Text.newlines (texts outline.front) := by
    rw [has.newlines_front, has'.newlines_front]
    rfl
  have block : relocated.imports = file.imports := has.imports_congr has' rfl lines
  obtain ⟨path, sent⟩ := relocate_place done
  have same : relocated.text = file.text ↔ file.package = file.clauseNameFor package := by
    rw [framed.text, framed'.text, List.append_cancel_right_eq, List.append_cancel_left_eq,
      String.toList_inj, called, eq_comm]
  refine ⟨_, relocated, clauseFrame outline, done, called, framed, framed', block, path, sent, ?_,
    ?_⟩
  · rw [ne_eq, same]
    split_ifs with equal <;> simp [equal]
  · intro told found
    rw [called]
    split_ifs at found
    · cases found
    · exact (Option.some.inj found).symm

/-- A file of an external test package, with comments around the name in its clause. -/
def buoyFile : SourceFile :=
  let text := "// p\npackage /* q */ buoy_test // r\n\nimport \"fmt\"\n".toList
  ⟨"a/x_test.go", none, "buoy_test", text, (Span.scan text).toOption.getD []⟩

/-- The file keeps the suffix of its name, its comments and its import in another package. -/
theorem buoy_renamed :
    parse "a/x_test.go" buoyFile.text = .ok buoyFile ∧ Word.isIdentifier "skiff".toList ∧
      ∃ change relocated frame, buoyFile.relocate ⟨"skiff", "b", "m/b"⟩ "b/x_test.go" =
          (.ok (some change), relocated) ∧ change = ⟨"buoy_test", "skiff_test"⟩ ∧
        buoyFile.HasFrame frame ∧ relocated.HasFrame frame ∧
        relocated.imports = .ok [⟨none, "fmt"⟩] := by
  have parsed : parse "a/x_test.go" buoyFile.text = .ok buoyFile := by decide +kernel
  have named : Word.isIdentifier "skiff".toList := by decide +kernel
  have target : buoyFile.clauseNameFor ⟨"skiff", "b", "m/b"⟩ = "skiff_test" := by decide +kernel
  have read : buoyFile.imports = .ok [⟨none, "fmt"⟩] := by decide +kernel
  refine ⟨parsed, named, ?_⟩
  obtain ⟨change, relocated, frame, done, called, framed, framed', block, -, -, told, change_eq⟩ :=
    @relocation_renames_clause buoyFile ⟨"skiff", "b", "m/b"⟩ (.of_parse parsed) named "b/x_test.go"
  rw [target] at called
  have differ : relocated.text ≠ buoyFile.text := by
    rw [framed.text, framed'.text, called]
    simp [buoyFile]
  obtain ⟨change, rfl⟩ := Option.isSome_iff_exists.1 (told.2 differ)
  refine ⟨change, relocated, frame, done, ?_, framed, framed', block.trans read⟩
  rw [change_eq change rfl, called]
  rfl

/-- Whether a file is taken for one of an external test package only after it has been sent to a
package: it holds tests, and the name of the package ends like that of an external test package, but
the name in its own clause does not. -/
def TurnsExternal (file : SourceFile) (package : Package) : Prop :=
  file.isTest ∧ Path.hasSuffix "_test" package.name ∧ Path.hasSuffix "_test" file.package = false

private theorem hasSuffix_append (name suffix : String) : Path.hasSuffix suffix
    (name ++ suffix) := by
  rw [Path.hasSuffix, List.isPrefixOf_iff_prefix, String.toList_append, List.reverse_append]
  exact List.prefix_append _ _

private theorem relocate_of_named {destination : String}
    (sent : file.destination = some destination)
    (called : file.clauseNameFor package = file.package) :
    file.relocate package destination = (.ok none, file) := by
  have same : { file with destination := some destination } = file := by rw [← sent]
  simp only [relocate, same, called, renameClause, if_true]

section Sent

variable (path : other.path = file.path) (called : other.package = file.clauseNameFor package)

include path called

private theorem clauseNameFor_of_turns (turns : file.TurnsExternal package) :
    other.package = package.name ∧ other.clauseNameFor package = package.name ++ "_test" := by
  obtain ⟨test, ends, plain⟩ := turns
  have own : other.package = package.name := by
    rw [called, clauseNameFor, if_neg (by simp [plain])]
  have test' : other.isTest := by rwa [isTest, path]
  exact ⟨own, by rw [clauseNameFor, own, if_pos ⟨test', ends⟩]⟩

private theorem clauseNameFor_of_not_turns (stays : ¬file.TurnsExternal package) :
    other.clauseNameFor package = other.package := by
  have test : other.isTest = file.isTest := by rw [isTest, isTest, path]
  rw [clauseNameFor, test, called, clauseNameFor]
  by_cases external : file.isTest ∧ Path.hasSuffix "_test" file.package
  · rw [if_pos external, if_pos ⟨external.1, hasSuffix_append _ _⟩]
  · rw [if_neg external, if_neg]
    rintro ⟨test, ends⟩
    exact stays ⟨test, ends, by simpa [test] using external⟩

end Sent

/-- A file that has been sent to a package with a proper name is not changed by sending it there
once more, unless it is now taken for one of an external test package. Then the name of the package
gets the suffix a second time, and that is the end of it. -/
theorem relocation_settles_iff (current : file.IsCurrent)
    (named : Word.isIdentifier package.name.toList) (destination : String) :
    ∃ change once, file.relocate package destination = (.ok change, once) ∧
      (once.relocate package destination = (.ok none, once) ↔ ¬file.TurnsExternal package) ∧
      (file.TurnsExternal package → ∃ twice, once.relocate package destination =
          (.ok (some ⟨package.name, package.name ++ "_test"⟩), twice) ∧
        twice.package = package.name ++ "_test" ∧
        twice.relocate package destination = (.ok none, twice)) := by
  obtain ⟨outline, has⟩ := current.hasOutline
  obtain ⟨once, done, called, current', has'⟩ := exists_relocated current has named destination
  obtain ⟨path, sent⟩ := relocate_place done
  have again (turns : file.TurnsExternal package) : ∃ twice, once.relocate package destination =
        (.ok (some ⟨package.name, package.name ++ "_test"⟩), twice) ∧
      twice.package = package.name ++ "_test" ∧
      twice.relocate package destination = (.ok none, twice) := by
    obtain ⟨own, next⟩ := clauseNameFor_of_turns path called turns
    obtain ⟨twice, done', called', -⟩ := exists_relocated current' has' named destination
    rw [next] at done' called'
    have longer : package.name ≠ package.name ++ "_test" := by
      intro same
      simpa using congrArg String.length same
    rw [own, if_neg longer] at done'
    obtain ⟨path', sent'⟩ := relocate_place done'
    have test : twice.isTest := by
      rw [isTest, path', path]
      exact turns.1
    refine ⟨twice, done', called', relocate_of_named sent' ?_⟩
    rw [clauseNameFor, called', if_pos ⟨test, hasSuffix_append _ _⟩]
  refine ⟨_, once, done, ⟨fun settled turns => ?_, fun stays => ?_⟩, again⟩
  · obtain ⟨twice, done', -⟩ := again turns
    rw [settled] at done'
    cases done'
  · exact relocate_of_named sent (clauseNameFor_of_not_turns path called stays)

/-- A test file of a package. -/
def tideFile : SourceFile :=
  let text := "package foo\n".toList
  ⟨"a/x_test.go", none, "foo", text, (Span.scan text).toOption.getD []⟩

/-- Sent twice to a package with a name like that of an external test package, the file is changed
twice. -/
theorem tide_changed_twice :
    parse "a/x_test.go" tideFile.text = .ok tideFile ∧ Word.isIdentifier "bar_test".toList ∧
      ∃ change once twice,
        tideFile.relocate ⟨"bar_test", "a", "m/a"⟩ "a/x_test.go" = (.ok change, once) ∧
        once.relocate ⟨"bar_test", "a", "m/a"⟩ "a/x_test.go" =
          (.ok (some ⟨"bar_test", "bar_test_test"⟩), twice) ∧
        twice.package = "bar_test_test" := by
  have parsed : parse "a/x_test.go" tideFile.text = .ok tideFile := by decide +kernel
  have named : Word.isIdentifier "bar_test".toList := by decide +kernel
  have turns : tideFile.TurnsExternal ⟨"bar_test", "a", "m/a"⟩ :=
    ⟨by decide +kernel, by decide +kernel, by decide +kernel⟩
  obtain ⟨change, once, done, -, again⟩ := @relocation_settles_iff tideFile
    ⟨"bar_test", "a", "m/a"⟩ (.of_parse parsed) named "a/x_test.go"
  obtain ⟨twice, done', called, -⟩ := again turns
  exact ⟨parsed, named, change, once, twice, done, done', called⟩

end SourceFile

end Repackage
