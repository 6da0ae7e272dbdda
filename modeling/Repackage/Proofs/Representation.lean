import Repackage.Import.Reconcile
import Repackage.Proofs.Respelling
import Repackage.Proofs.TokenShapes
import Repackage.Qualify
import Repackage.Relocate

/-!
A file and its text. The spans and the package name of a file are taken anew from every text that it
gets, and a change that fails takes nothing over, so they describe the text after any number of
changes. The name is cut from the end of the clause, and that is the name token, since white space
and comments before it cannot end like a word.
-/

set_option autoImplicit false
set_option relaxedAutoImplicit false

namespace Repackage

namespace Outline

variable {outline : Outline}

private theorem getLast?_clauseStart (formed : outline.IsWellFormed)
    (stand : Token.Stand outline.tokens) :
    ∀ last ∈ (Token.texts outline.clauseStart).getLast?, Text.isWordChar last = false := by
  have parts : outline.tokens = outline.header ++ (outline.clauseStart ++
      outline.name :: (outline.gap ++ (outline.imports ++ outline.body))) := by
    simp [tokens]
  rw [parts] at stand
  have clause := (Token.stand_append_iff.1 stand).2.1
  have name := (Token.stand_append_iff.1 clause).2.1
  obtain ⟨a, first, start⟩ := name.1.isWordStart formed.name
  have head : (Token.texts (outline.name ::
      (outline.gap ++ (outline.imports ++ outline.body)))).head? = some a := by
    rw [Token.texts_cons, List.head?_append, first]
    rfl
  obtain ⟨keyword, inside, spelled, package, gaps⟩ := formed.clause
  rw [spelled] at clause ⊢
  rcases List.eq_nil_or_concat inside with rfl | ⟨front, gap, rfl⟩
  · -- The keyword alone would go on with the name.
    have ends := clause.1.not_isWordChar (kind_of_isWord package) a head
    rw [Text.isWordChar_of_isWordStart start] at ends
    cases ends
  · have apart : keyword :: (front ++ [gap]) ++ outline.name ::
        (outline.gap ++ (outline.imports ++ outline.body)) =
          (keyword :: front) ++ gap :: outline.name ::
            (outline.gap ++ (outline.imports ++ outline.body)) := by
      simp
    rw [List.concat_eq_append, apart] at clause
    have stands := (Token.stand_append_iff.1 clause).2.1.1
    have isGap := gaps gap (by simp)
    have kind : gap.kind = .blank ∨ gap.kind = .comment := by
      cases kind : gap.kind <;> simp [Outline.isGap, Token.isSignificant, kind] at isGap ⊢
    intro last found
    refine stands.getLast?_of_gap kind head start last ?_
    obtain ⟨c, cs, text, -⟩ := stands
    have whole : Token.texts (keyword :: (front.concat gap)) =
        Token.texts (keyword :: front) ++ gap.text := by
      simp [Token.texts]
    rw [whole, List.getLast?_append, text] at found
    rw [text]
    simpa using found

end Outline

namespace SourceFile

variable {outline : Outline}

private theorem reverse_takeWhile_append {p : Char → Bool} {front word : Text}
    (all : ∀ c ∈ word, p c) (stops : ∀ last ∈ front.getLast?, p last = false) :
    ((front ++ word).reverse.takeWhile p).reverse = word := by
  have backwards : ∀ c ∈ word.reverse, p c := fun c member => all c (List.mem_reverse.1 member)
  have none : front.reverse.takeWhile p = [] := by
    rcases List.eq_nil_or_concat front with rfl | ⟨init, last, rfl⟩
    · rfl
    · have stopped : p last = false := stops last (by simp)
      simp [stopped]
  rw [List.reverse_append, List.takeWhile_append_of_pos backwards, none, List.append_nil,
    List.reverse_reverse]

theorem clauseName_ofOutline (formed : outline.IsWellFormed)
    (stand : Token.Stand outline.tokens) :
    clauseName (Span.ofOutline outline) = outline.name.text := by
  have spelled : Word.isSpelled outline.name.text := by
    have parts : outline.tokens = (outline.header ++ outline.clauseStart) ++
        outline.name :: (outline.gap ++ (outline.imports ++ outline.body)) := by
      simp [Outline.tokens]
    rw [parts] at stand
    exact (Token.stand_append_iff.1 stand).2.1.1.isSpelled formed.name
  have all : ∀ c ∈ outline.name.text, Text.isWordChar c := by
    cases text : outline.name.text with
    | nil => simp
    | cons c cs =>
      rw [text, Word.isSpelled, Bool.and_eq_true, List.all_eq_true] at spelled
      exact List.forall_mem_cons.2 ⟨Text.isWordChar_of_isWordStart spelled.1, spelled.2⟩
  have found : (Span.ofOutline outline).find? (·.kind = .packageClause) =
      some ⟨.packageClause, Token.texts outline.clauseStart ++ outline.name.text⟩ := by
    have header : (outline.header.map Span.ofToken).find? (·.kind = .packageClause) = none :=
      List.find?_eq_none.2 fun span member => by
        simpa using (Span.kind_of_mem_map_ofToken span member).1
    simp only [Span.ofOutline, List.append_assoc, List.cons_append, List.find?_append, header,
      List.find?_cons, Option.none_or, decide_true]
  rw [clauseName, found]
  exact reverse_takeWhile_append all (Outline.getLast?_clauseStart formed stand)

theorem clauseStop_of_spans {file : SourceFile} (spans : file.spans = Span.ofOutline outline) :
    file.clauseStop =
      Text.byteSize (Token.texts (outline.header ++ outline.clauseStart ++ [outline.name])) := by
  have found : Span.firstOf? .packageClause file.spans =
      some ⟨Text.byteSize (Token.texts outline.header),
        1 + Text.newlines (Token.texts outline.header),
        ⟨.packageClause, Token.texts outline.clauseStart ++ outline.name.text⟩⟩ := by
    rw [spans, Span.firstOf?, Span.locate, Span.ofOutline]
    simp only [List.append_assoc, List.cons_append]
    rw [Span.locateFrom_append, List.find?_append,
      Span.find?_locateFrom_eq_none fun span member => (Span.kind_of_mem_map_ofToken span member).1,
      Option.none_or, Span.texts_map_ofToken]
    simp [Span.locateFrom]
  rw [clauseStop, found]
  simp only [Span.Located.stop, Token.texts_append, Token.texts_cons, Text.byteSize_append]
  simp only [Token.texts, List.flatMap_nil, Text.byteSize]
  omega

/-- Whether the spans and the package name of a file are those read from its text. -/
structure IsCurrent (file : SourceFile) : Prop where
  scanned : Span.scan file.text = .ok file.spans
  named : file.package = String.ofList (clauseName file.spans)

theorem IsCurrent.of_parse {path : String} {text : Text} {file : SourceFile}
    (parsed : parse path text = .ok file) : file.IsCurrent := by
  unfold parse at parsed
  cases scanned : Span.scan text with
  | error cause =>
    rw [scanned] at parsed
    cases parsed
  | ok spans =>
    rw [scanned] at parsed
    cases parsed
    exact ⟨scanned, rfl⟩

theorem IsCurrent.of_withText {file changed : SourceFile} {text : Text}
    (taken : file.withText text = .ok changed) : changed.IsCurrent := by
  unfold withText at taken
  cases scanned : Span.scan text with
  | error cause =>
    rw [scanned] at taken
    cases taken
  | ok spans =>
    rw [scanned] at taken
    cases taken
    exact ⟨scanned, rfl⟩

theorem IsCurrent.edit {file edited : SourceFile} {edits : List Edit} {changed : Bool}
    (current : file.IsCurrent) (done : file.edit edits = .ok (edited, changed)) :
    edited.IsCurrent := by
  rcases edit_cases done with rfl | ⟨text, taken⟩
  · exact current
  · exact .of_withText taken

theorem IsCurrent.qualify {file qualified : SourceFile} {table : Table} {home : Option Package}
    {result : Qualification} (current : file.IsCurrent)
    (done : file.qualify table home = .ok (qualified, result)) : qualified.IsCurrent := by
  obtain ⟨edits, changed, spliced⟩ := exists_edit_of_qualify done
  exact current.edit spliced

theorem IsCurrent.reconcile {file reconciled : SourceFile} {required added : List Import}
    (current : file.IsCurrent) (done : file.reconcile required = .ok (reconciled, added)) :
    reconciled.IsCurrent := by
  rcases reconcile_cases done with rfl | ⟨edit, changed, spliced⟩
  · exact current
  · exact current.edit spliced

theorem IsCurrent.renameClause {file renamed : SourceFile} {name : String}
    {change : Option PackageChange} (current : file.IsCurrent)
    (done : file.renameClause name = .ok (renamed, change)) : renamed.IsCurrent := by
  unfold SourceFile.renameClause at done
  split at done
  · cases done
    exact current
  · split at done
    · cases done
    next spliced =>
      cases done
      exact current.edit spliced

theorem IsCurrent.send {file : SourceFile} (current : file.IsCurrent)
    (destination : Option String) : { file with destination := destination }.IsCurrent :=
  ⟨current.scanned, current.named⟩

/-- The changes that a file can be put through. -/
inductive Step where
  | edit (edits : List Edit)
  | send (destination : Option String)
  | relocate (package : Package) (destination : String)
  | reconcile (required : List Import)
  | qualify (table : Table) (home : Option Package)

def failure? {α : Type} : Except Failure α → Option Failure
  | .error failure => some failure
  | .ok _ => none

def apply (file : SourceFile) : Step → Option Failure × SourceFile
  | .edit edits => (failure? ((file.tryEdit edits).1.mapError .ofEditError), (file.tryEdit edits).2)
  | .send destination => (none, { file with destination := destination })
  | .relocate package destination =>
    (failure? (file.relocate package destination).1, (file.relocate package destination).2)
  | .reconcile required =>
    (failure? (file.tryReconcile required).1, (file.tryReconcile required).2)
  | .qualify table home => (failure? (file.tryQualify table home).1, (file.tryQualify table home).2)

/-- A file after changes of which any may have failed. -/
def applyAll (file : SourceFile) (steps : List Step) : SourceFile :=
  steps.foldl (fun file step => (file.apply step).2) file

theorem IsCurrent.attempt {ε α : Type} {file : SourceFile} (current : file.IsCurrent)
    {attempt : Except ε α × SourceFile} (kept : ∀ e, attempt.1 = .error e → attempt.2 = file)
    (taken : ∀ changed extra, succeeded attempt = .ok (changed, extra) → changed.IsCurrent) :
    attempt.2.IsCurrent := by
  obtain ⟨result, left⟩ := attempt
  cases result with
  | error e =>
    obtain rfl : left = file := kept e rfl
    exact current
  | ok extra => exact taken left extra rfl

theorem IsCurrent.apply {file : SourceFile} (current : file.IsCurrent) (step : Step) :
    (file.apply step).2.IsCurrent := by
  cases step with
  | edit edits =>
    exact current.attempt (fun _ => tryEdit_of_error) fun _ _ done => current.edit done
  | send destination => exact current.send destination
  | relocate package destination =>
    have sent := current.send (some destination)
    simp only [SourceFile.apply, SourceFile.relocate]
    cases renamed : SourceFile.renameClause { file with destination := some destination }
        (SourceFile.clauseNameFor { file with destination := some destination } package) with
    | error failure => exact sent
    | ok outcome => exact sent.renameClause renamed
  | reconcile required =>
    exact current.attempt (fun _ => tryReconcile_of_error) fun _ _ done => current.reconcile done
  | qualify table home =>
    exact current.attempt (fun _ => tryQualify_of_error) fun _ _ done => current.qualify done

theorem IsCurrent.applyAll {file : SourceFile} (current : file.IsCurrent) (steps : List Step) :
    (file.applyAll steps).IsCurrent := by
  induction steps generalizing file with
  | nil => exact current
  | cons step steps ih => exact ih (current.apply step)

private theorem eq_error_of_failure? {α : Type} {result : Except Failure α} {failure : Failure}
    (failed : failure? result = some failure) : result = .error failure := by
  cases result with
  | error _ => exact congrArg _ (Option.some.inj failed)
  | ok _ => cases failed

private theorem kept_of_failed {file : SourceFile} {step : Step} {failure : Failure}
    (failed : (file.apply step).1 = some failure) :
    (file.apply step).2.text = file.text ∧ (file.apply step).2.spans = file.spans ∧
      (file.apply step).2.package = file.package := by
  cases step with
  | edit edits =>
    have stopped := eq_error_of_failure? failed
    have same : (file.tryEdit edits).2 = file := by
      cases result : (file.tryEdit edits).1 with
      | error e => exact tryEdit_of_error result
      | ok changed =>
        rw [result] at stopped
        cases stopped
    simp only [apply, same, and_self]
  | send destination => cases failed
  | relocate package destination =>
    have stopped := eq_error_of_failure? failed
    simp only [apply, relocate] at stopped ⊢
    cases renamed : SourceFile.renameClause { file with destination := some destination }
        (SourceFile.clauseNameFor { file with destination := some destination } package) with
    | error _ => simp
    | ok outcome =>
      rw [renamed] at stopped
      cases stopped
  | reconcile required =>
    have same := tryReconcile_of_error (eq_error_of_failure? failed)
    simp only [apply, same, and_self]
  | qualify table home =>
    have same := tryQualify_of_error (eq_error_of_failure? failed)
    simp only [apply, same, and_self]

theorem IsCurrent.exists_outline {file : SourceFile} (current : file.IsCurrent) :
    ∃ outline : Outline, Token.lex file.text = .ok outline.tokens ∧
      Outline.ofTokens outline.tokens = .ok outline ∧ file.spans = Span.ofOutline outline ∧
      file.package = String.ofList outline.name.text ∧
      file.nameRange =
        (Text.byteSize (Token.texts (outline.header ++ outline.clauseStart)),
          Text.byteSize (Token.texts (outline.header ++ outline.clauseStart ++
            [outline.name]))) := by
  obtain ⟨tokens, lexed, outline, found, spans⟩ := Span.outline_of_scan current.scanned
  obtain ⟨rfl, formed⟩ := Outline.ofTokens_eq_ok_iff.1 found
  have named : file.package = String.ofList outline.name.text := by
    rw [current.named, ← spans,
      clauseName_ofOutline formed (Token.lexFrom_eq_ok_iff.1 lexed).2]
  refine ⟨outline, lexed, found, spans.symm, named, ?_⟩
  rw [nameRange, clauseStop_of_spans spans.symm, named, String.toList_ofList]
  have size : Text.byteSize (Token.texts (outline.header ++ outline.clauseStart ++
      [outline.name])) = Text.byteSize (Token.texts (outline.header ++ outline.clauseStart)) +
        Text.byteSize outline.name.text := by
    rw [Token.texts_append, Text.byteSize_append]
    simp [Token.texts]
  rw [size, Nat.add_sub_cancel]

/-- A file always describes its text. After any changes to a parsed file, failed ones included, its
spans are those of its text, its package name is the text of the name token of the clause, and the
range of the name is that of this token; and the next change that fails leaves all this alone. -/
theorem file_describes_text {path : String} {text : Text} {file : SourceFile}
    (parsed : parse path text = .ok file) (steps : List Step) :
    let later := file.applyAll steps
    Span.scan later.text = .ok later.spans ∧
      (∃ tokens outline, Token.lex later.text = .ok tokens ∧
        Outline.ofTokens tokens = .ok outline ∧
        later.package = String.ofList outline.name.text ∧
        later.nameRange =
          (Text.byteSize (Token.texts (outline.header ++ outline.clauseStart)),
            Text.byteSize (Token.texts (outline.header ++ outline.clauseStart ++
              [outline.name])))) ∧
      ∀ step failure, (later.apply step).1 = some failure →
        (later.apply step).2.text = later.text ∧ (later.apply step).2.spans = later.spans ∧
          (later.apply step).2.package = later.package := by
  intro later
  have current : later.IsCurrent := (IsCurrent.of_parse parsed).applyAll steps
  obtain ⟨outline, lexed, outlined, -, named, range⟩ := current.exists_outline
  refine ⟨current.scanned, ⟨outline.tokens, outline, lexed, outlined, named, range⟩, ?_⟩
  intro step failure failed
  exact kept_of_failed failed

/-- A file whose clause holds a comment before the name and is followed by one. -/
def quayFile : SourceFile :=
  let text := "// p\npackage /* q */ quay // r\n".toList
  ⟨"a/x.go", none, "quay", text, (Span.scan text).toOption.getD []⟩

def quayBreak : Step :=
  .edit [⟨5, 5, ['"']⟩]

/-- The step fails, and the file keeps its text, its package name and the range of the name. -/
theorem quay_described :
    parse "a/x.go" quayFile.text = .ok quayFile ∧
      let later := quayFile.applyAll [.send (some "b/x.go")]
      later.package = "quay" ∧ later.nameRange = (21, 25) ∧
        (later.apply quayBreak).1 = some (.ambiguous (.unterminated .stringLiteral 2)) ∧
        (later.apply quayBreak).2.text = quayFile.text := by
  have parsed : parse "a/x.go" quayFile.text = .ok quayFile := by decide +kernel
  have kept := (file_describes_text parsed [.send (some "b/x.go")]).2.2
  have spliced : Edit.splice quayFile.text [⟨5, 5, ['"']⟩] =
      some "// p\n\"package /* q */ quay // r\n".toList :=
    Edit.splice_singleton "// p\n".toList [] "package /* q */ quay // r\n".toList ['"']
  have failed : ((quayFile.applyAll [.send (some "b/x.go")]).apply quayBreak).1 =
      some (.ambiguous (.unterminated .stringLiteral 2)) := by
    simp only [applyAll, List.foldl_cons, List.foldl_nil, apply, quayBreak, tryEdit, spliced]
    decide +kernel
  exact ⟨parsed, by decide +kernel, by decide +kernel, failed, (kept _ _ failed).1⟩

end SourceFile

end Repackage
