import Repackage.Proofs.ImportAdditions
import Repackage.Proofs.Requalification

/-!
When a file can be given every import that it lacks. New imports are put behind the first line end
after the last import of the first group. A comment or a literal that goes over lines can hold that
line end: a comment takes the new line in, a raw literal makes it part of its path, and a quoted
literal with a line end behind a backslash ends at the first quote of the new line. The imports can
be added, whatever they are, exactly when there is no such comment or literal.
-/

set_option autoImplicit false
set_option relaxedAutoImplicit false

namespace Repackage

open Token (texts)

namespace Token

private theorem commentLength_prepend {lines rest : Text} (free : '*' ∉ lines)
    (found : commentLength rest = some rest.length) :
    commentLength (lines ++ rest) = some (lines ++ rest).length := by
  induction lines with
  | nil => exact found
  | cons c lines ih =>
    rw [List.mem_cons, not_or] at free
    obtain ⟨first, later⟩ := free
    have other : ¬(c = '*' ∧ (lines ++ rest).head? = some '/') := fun ends => first ends.1.symm
    rw [List.cons_append, commentLength, if_neg other, ih later]
    rfl

private theorem commentLength_insert {front back lines : Text} (free : '*' ∉ lines)
    (found : commentLength (front ++ '\n' :: back) = some (front ++ '\n' :: back).length) :
    commentLength (front ++ '\n' :: (lines ++ back)) =
      some (front ++ '\n' :: (lines ++ back)).length := by
  induction front with
  | nil =>
    rw [List.nil_append, commentLength, if_neg (by simp)] at found
    have rest : commentLength back = some back.length := by simpa using found
    rw [List.nil_append, commentLength, if_neg (by simp), commentLength_prepend free rest]
    rfl
  | cons c front ih =>
    have head : (front ++ '\n' :: (lines ++ back)).head? = (front ++ '\n' :: back).head? := by
      cases front <;> rfl
    rw [List.cons_append, commentLength] at found
    rw [List.cons_append, commentLength, head]
    split_ifs at found ⊢ with ends
    · have short := Option.some.inj found
      simp only [List.length_cons, List.length_append] at short
      cases front with
      | nil => simp at ends
      | cons d front =>
        simp only [List.length_cons] at short
        omega
    · rw [ih (by simpa using found)]
      rfl

private theorem rawLength_prepend {lines rest : Text} (free : '\x60' ∉ lines)
    (found : rawLength rest = some rest.length) :
    rawLength (lines ++ rest) = some (lines ++ rest).length := by
  induction lines with
  | nil => exact found
  | cons c lines ih =>
    rw [List.mem_cons, not_or] at free
    obtain ⟨first, later⟩ := free
    rw [List.cons_append, rawLength, if_neg (Ne.symm first), ih later]
    rfl

private theorem rawLength_insert {front back lines : Text} (free : '\x60' ∉ lines)
    (found : rawLength (front ++ '\n' :: back) = some (front ++ '\n' :: back).length) :
    rawLength (front ++ '\n' :: (lines ++ back)) =
      some (front ++ '\n' :: (lines ++ back)).length := by
  induction front with
  | nil =>
    rw [List.nil_append, rawLength, if_neg (by decide)] at found
    have rest : rawLength back = some back.length := by simpa using found
    rw [List.nil_append, rawLength, if_neg (by decide), rawLength_prepend free rest]
    rfl
  | cons c front ih =>
    rw [List.cons_append, rawLength] at found
    rw [List.cons_append, rawLength]
    split_ifs at found ⊢ with ends
    · have short := Option.some.inj found
      simp only [List.length_cons, List.length_append] at short
      omega
    · rw [ih (by simpa using found)]
      rfl

theorem quotedLength_newline {quote : Char} {back : Text} (other : Text) :
    ∀ front : Text,
      quotedLength quote (front ++ '\n' :: back) = some (front ++ '\n' :: back).length →
      quotedLength quote (front ++ '\n' :: other) =
        (quotedLength quote other).map (· + (front.length + 1))
  | [], found => by simp [quotedLength_cons] at found
  | c :: front, found => by
    rw [List.cons_append, quotedLength_cons] at found ⊢
    split_ifs at found ⊢ with bare escape ends
    · -- A backslash takes the line end or another character along.
      cases front with
      | nil =>
        cases read : quotedLength quote other <;> simp [read]
      | cons d front =>
        rw [List.cons_append, List.tail?_cons, Option.bind_eq_bind, Option.bind_some,
          quotedLength_newline other front (by simpa using found), Option.map_map]
        rfl
    · have short := Option.some.inj found
      simp only [List.length_cons, List.length_append] at short
      omega
    · rw [quotedLength_newline other front (by simpa using found), Option.map_map]
      rfl

private theorem Stands.ne_nil_of_newline {token : Token} {rest front back : Text}
    (stands : token.Stands rest) (solid : token.kind ≠ .blank)
    (spelled : token.text = front ++ '\n' :: back) : front ≠ [] := by
  rintro rfl
  have notBlank := stands.not_isBlank solid '\n' (by simp [spelled])
  exact absurd notBlank (by decide)

theorem Stands.insert {token : Token} {rest front back lines : Text} (stands : token.Stands rest)
    (solid : token.kind ≠ .blank) (spelled : token.text = front ++ '\n' :: back)
    (comment : '*' ∉ lines) (raw : '\x60' ∉ lines) :
    Stands ⟨token.kind, front ++ '\n' :: (lines ++ back)⟩ rest ∨
      token.kind = .literal ∧ ∃ quote cs, front = quote :: cs ∧ (quote = '"' ∨ quote = '\'') ∧
        quotedLength quote (cs ++ '\n' :: back) = some (cs ++ '\n' :: back).length := by
  obtain ⟨c, cs, text, takes⟩ := stands.takes
  have ends := (stands_iff.1 stands).2
  obtain ⟨d, front, rfl⟩ := List.exists_cons_of_ne_nil (stands.ne_nil_of_newline solid spelled)
  obtain ⟨rfl, rfl⟩ := List.cons.inj (text.symm.trans spelled)
  rcases stands.kind_of_mem_newline (by simp [spelled]) with blank | isComment | literal
  · exact absurd blank solid
  · rw [isComment] at takes
    obtain ⟨rfl, ⟨slash, whole⟩ | ⟨star, m, closed, length⟩⟩ := takes
    · -- A line comment ends before the line end.
      have inLine := all_of_takeWhile whole '\n' (by simp)
      simp at inLine
    · obtain ⟨front, rfl⟩ : ∃ front', front = '*' :: front' := by
        cases front with
        | nil => simp at star
        | cons d front =>
          obtain rfl : d = '*' := by simpa using star
          exact ⟨front, rfl⟩
      obtain rfl : m = (front ++ '\n' :: back).length := by simpa using length.symm
      have inserted := commentLength_insert comment closed
      refine .inl ⟨'/', '*' :: (front ++ '\n' :: (lines ++ back)), rfl, ?_⟩
      refine extent_append_iff.2 ⟨?_, fun next _ => ?_⟩
      · simp [extent, inserted, isComment]
      · simp [goesOn, isComment]
  · rw [literal] at takes
    rcases takes with ⟨quote, closed⟩ | ⟨rfl, closed⟩
    · exact .inr ⟨literal, c, front, rfl, quote, closed⟩
    · have inserted := rawLength_insert raw closed
      have notBlank : Text.isBlank '\x60' = false := by decide
      refine .inl ⟨'\x60', front ++ '\n' :: (lines ++ back), rfl, ?_⟩
      refine extent_append_iff.2 ⟨?_, fun next _ => ?_⟩
      · simp [extent, notBlank, inserted, literal]
      · simp [goesOn, literal]

theorem not_isReadable_of_quotedLength {quote : Char} {cs : Text}
    (isQuote : quote = '"' ∨ quote = '\'') (unclosed : quotedLength quote cs = none) :
    ¬IsReadable (quote :: cs) := by
  rintro ⟨tokens, same, stand⟩
  cases tokens with
  | nil => cases same
  | cons token tokens =>
    obtain ⟨⟨c, ds, spelled, found⟩, -⟩ := stand
    rw [texts_cons, spelled, List.cons_append] at same
    obtain ⟨rfl, tail⟩ := List.cons.inj same
    rw [tail] at found
    have string : Text.isBlank '"' = false := by decide
    have rune : Text.isBlank '\'' = false := by decide
    rcases isQuote with rfl | rfl
    · simp [extent, string, unclosed] at found
    · simp [extent, rune, unclosed] at found

theorem quotedLength_row {quote : Char} {row rest : Text}
    (plain : ∀ c ∈ row, c ≠ '\n' ∧ c ≠ '\\' ∧ c ≠ quote) :
    quotedLength quote (row ++ rest) = (quotedLength quote rest).map (· + row.length) := by
  induction row with
  | nil => cases found : quotedLength quote rest <;> simp [found]
  | cons c row ih =>
    obtain ⟨⟨newline, escape, other⟩, later⟩ := List.forall_mem_cons.1 plain
    rw [List.cons_append, quotedLength_cons, if_neg newline, if_neg escape, if_neg other, ih later,
      Option.map_map]
    rfl

private theorem not_isReadable_path {path rest : Text}
    (plain : ∀ c ∈ path, Text.isAsciiAlphanumeric c ∨ c ∈ ['.', '_', '-', '~', '/'])
    (apart : ¬['/', '/'] <:+: path) : ¬IsReadable (path ++ '"' :: '\n' :: rest) := by
  induction path with
  | nil => exact not_isReadable_of_quotedLength (.inl rfl) (by simp [quotedLength_cons])
  | cons c path ih =>
    obtain ⟨first, later⟩ := List.forall_mem_cons.1 plain
    have shorter := ih later fun inside => apart (inside.trans (List.infix_cons List.infix_rfl))
    have mark (found : extent c (path ++ '"' :: '\n' :: rest) = .ok (.mark, 0)) :
        ¬IsReadable (c :: path ++ '"' :: '\n' :: rest) := by
      rwa [List.cons_append, isReadable_cons_iff found]
    have inert (char : Text.isInert c) : ¬IsReadable (c :: path ++ '"' :: '\n' :: rest) := by
      have row : ∀ d ∈ [c], Text.isInert d := by simpa using char
      rwa [← List.singleton_append, List.append_assoc, isReadable_append_iff row]
    simp only [List.mem_cons, List.not_mem_nil, or_false] at first
    rcases first with char | rfl | rfl | rfl | rfl | rfl
    · exact inert (Text.isInert_of_isWordChar (Text.isWordChar_of_isAsciiAlphanumeric char))
    · exact inert (by decide)
    · exact inert (by decide)
    · exact inert (by decide)
    · refine mark ?_
      have notBlank : Text.isBlank '~' = false := by decide
      have noWord : Text.isWordStart '~' = false := by decide
      simp [extent, notBlank, noWord]
    · -- Neither kind of comment starts here.
      refine mark ?_
      have next : (path ++ '"' :: '\n' :: rest).head? ≠ some '/' ∧
          (path ++ '"' :: '\n' :: rest).head? ≠ some '*' := by
        cases path with
        | nil => simp
        | cons d path =>
          obtain ⟨second, -⟩ := List.forall_mem_cons.1 later
          simp only [List.cons_append, List.head?_cons, ne_eq, Option.some.injEq]
          constructor
          · rintro rfl
            exact apart ⟨[], path, rfl⟩
          · rintro rfl
            exact absurd second (by decide)
      have notBlank : Text.isBlank '/' = false := by decide
      have noWord : Text.isWordStart '/' = false := by decide
      generalize path ++ '"' :: '\n' :: rest = text at next ⊢
      simp [extent, next, notBlank, noWord]

theorem exists_lead {spec : Import} (fits : spec.IsWritable) :
    ∃ lead, '\t' :: spec.render = lead ++ '"' :: (spec.path.toList ++ ['"']) ∧
      ∀ c ∈ lead, c ≠ '\n' ∧ c ≠ '\\' ∧ c ≠ '"' ∧ c ≠ '\'' := by
  unfold Import.render
  cases named : spec.name with
  | none =>
    refine ⟨['\t'], rfl, List.forall_mem_singleton.2 ?_⟩
    decide
  | some name =>
    refine ⟨'\t' :: (name.toList ++ [' ']), by simp, ?_⟩
    refine List.forall_mem_cons.2 ⟨by decide, List.forall_mem_append.2 ⟨fun c member => ?_, ?_⟩⟩
    · have inert := Text.isInert_of_isWordChar (fits.name name named c member)
      exact ⟨Text.ne_of_isInert inert (by decide), Text.ne_of_isInert inert (by decide),
        Text.ne_of_isInert inert (by decide), Text.ne_of_isInert inert (by decide)⟩
    · refine List.forall_mem_singleton.2 ?_
      decide

private theorem not_isReadable_of_quoted {quote : Char} {cs back gap rest : Text}
    (isQuote : quote = '"' ∨ quote = '\'')
    (closed : quotedLength quote (cs ++ '\n' :: back) = some (cs ++ '\n' :: back).length)
    (newlines : ∀ c ∈ gap, c = '\n') {spec : Import} (fits : spec.IsWritable)
    (apart : quote = '"' → gap = [] → ¬['/', '/'] <:+: spec.path.toList) (added : List Import) :
    ¬IsReadable
      (quote :: (cs ++ '\n' :: (gap ++ SourceFile.importLines (spec :: added) ++ rest))) := by
  have read :=
    quotedLength_newline (gap ++ SourceFile.importLines (spec :: added) ++ rest) cs closed
  cases gap with
  | cons c gap =>
    obtain rfl : c = '\n' := newlines c List.mem_cons_self
    refine not_isReadable_of_quotedLength isQuote (read.trans ?_)
    simp [quotedLength_cons]
  | nil =>
    obtain ⟨lead, line, plain⟩ := exists_lead fits
    have text : [] ++ SourceFile.importLines (spec :: added) ++ rest = lead ++ '"' ::
        (spec.path.toList ++ '"' :: '\n' :: (SourceFile.importLines added ++ rest)) := by
      simp only [SourceFile.importLines, List.flatMap_cons, ← List.cons_append, line]
      simp
    rw [text] at read ⊢
    rcases isQuote with rfl | rfl
    · -- The literal ends at the first quote, and the second one has the line end behind it.
      have ends (c : Char) (member : c ∈ lead) : c ≠ '\n' ∧ c ≠ '\\' ∧ c ≠ '"' :=
        ⟨(plain c member).1, (plain c member).2.1, (plain c member).2.2.1⟩
      have string : Text.isBlank '"' = false := by decide
      rw [quotedLength_row ends] at read
      have found : extent '"' (cs ++ '\n' :: (lead ++ '"' :: (spec.path.toList ++ '"' :: '\n' ::
          (SourceFile.importLines added ++ rest)))) =
          .ok (.literal, (cs ++ '\n' :: (lead ++ ['"'])).length) := by
        simp [extent, string, read, quotedLength_cons]
        omega
      rw [isReadable_cons_iff found]
      have parts : cs ++ '\n' :: (lead ++ '"' :: (spec.path.toList ++ '"' :: '\n' ::
          (SourceFile.importLines added ++ rest))) = (cs ++ '\n' :: (lead ++ ['"'])) ++
            (spec.path.toList ++ '"' :: '\n' :: (SourceFile.importLines added ++ rest)) := by
        simp
      rw [parts, List.drop_left]
      exact not_isReadable_path fits.path (apart rfl rfl)
    · -- The line end of the new line is inside the literal.
      have row : ∀ c ∈ lead ++ '"' :: (spec.path.toList ++ ['"']),
          c ≠ '\n' ∧ c ≠ '\\' ∧ c ≠ '\'' := by
        refine List.forall_mem_append.2 ⟨fun c member => ?_, List.forall_mem_cons.2 ⟨by decide,
          List.forall_mem_append.2 ⟨fun c member => ?_, List.forall_mem_singleton.2 (by decide)⟩⟩⟩
        · exact ⟨(plain c member).1, (plain c member).2.1, (plain c member).2.2.2⟩
        · have char := fits.path c member
          refine ⟨?_, ?_, ?_⟩ <;> rintro rfl <;> exact absurd char (by decide)
      have parts : lead ++ '"' :: (spec.path.toList ++ '"' :: '\n' ::
          (SourceFile.importLines added ++ rest)) = (lead ++ '"' :: (spec.path.toList ++ ['"'])) ++
            '\n' :: (SourceFile.importLines added ++ rest) := by
        simp
      refine not_isReadable_of_quotedLength (.inr rfl) (read.trans ?_)
      rw [parts, quotedLength_row row]
      simp [quotedLength_cons]

end Token

namespace ImportLayout

theorem count_newline_unquote (literal : Text) :
    (unquote literal).toList.count '\n' = literal.count '\n' := by
  have kept (text : Text) :
      (text.dropWhile (fun c => c == '"' || c == '\x60')).count '\n' = text.count '\n' := by
    have parts := congrArg (List.count '\n')
      (List.takeWhile_append_dropWhile (p := fun c => c == '"' || c == '\x60') (l := text))
    have quotes : (text.takeWhile (fun c => c == '"' || c == '\x60')).count '\n' = 0 := by
      rw [List.count_eq_zero]
      intro quote
      have isQuote := List.mem_takeWhile_imp quote
      simp at isQuote
    rw [List.count_append] at parts
    omega
  rw [unquote, String.toList_ofList, List.count_reverse, kept, List.count_reverse, kept]

private theorem newline_mem_of_mem_pathsOf {token : Token} {path : String}
    (newline : '\n' ∈ token.text) (member : path ∈ pathsOf [token]) : '\n' ∈ path.toList := by
  by_cases literal : token.kind = .literal
  · rw [pathsOf_cons_of_eq literal] at member
    obtain rfl : path = unquote token.text := by simpa [pathsOf] using member
    rw [← List.count_pos_iff, count_newline_unquote]
    exact List.count_pos_iff.2 newline
  · rw [pathsOf_cons_of_ne literal] at member
    simp [pathsOf] at member

end ImportLayout

def Outline.LineEnd.IsQuoted {outline : Outline} (place : outline.LineEnd) : Prop :=
  place.token.kind = .literal ∧ ∃ quote cs, place.front = quote :: cs ∧
    (quote = '"' ∨ quote = '\'') ∧ Token.quotedLength quote (cs ++ '\n' :: place.back) =
      some (cs ++ '\n' :: place.back).length

namespace SourceFile

open ImportLayout (pathsOf)

private theorem not_mem_importLines {added : List Import}
    (writable : ∀ spec ∈ added, spec.IsWritable) {c : Char} (noWord : Text.isWordChar c = false)
    (other : c ∉ ['.', '-', '~', '/', '"', ' ', '\t', '\n']) : c ∉ importLines added := by
  intro member
  obtain ⟨spec, among, line⟩ := List.mem_flatMap.1 member
  have fits := writable spec among
  have path : c ∉ spec.path.toList := by
    intro inPath
    rcases fits.path c inPath with char | mark
    · rw [Text.isWordChar_of_isAsciiAlphanumeric char] at noWord
      cases noWord
    · have underscore : c ≠ '_' := by
        rintro rfl
        exact absurd noWord (by decide)
      simp only [List.mem_cons, List.not_mem_nil, or_false, not_or] at mark other
      tauto
  simp only [List.mem_cons, List.not_mem_nil, or_false, not_or] at other
  have render : c ∉ spec.render := by
    unfold Import.render
    cases named : spec.name with
    | none => simp [other, path]
    | some name =>
      have inName : c ∉ name.toList := by
        intro char
        rw [fits.name name named c char] at noWord
        cases noWord
      simp [other, path, inName]
  simp [other, render] at line

variable {file edited : SourceFile} {outline : Outline} {imports after : List Import}
  {changed : Bool}

private theorem leadsTo_longer (current : file.IsCurrent) (has : file.HasOutline outline)
    (place : outline.LineEnd) (solid : place.token.kind ≠ .blank) {lines : Text}
    (taken : (place.longer lines).Stands (texts (place.behind ++ outline.body))) :
    file.LeadsTo [.insertAt place.offset lines] (place.fill [place.longer lines]) := by
  have stand : Token.Stand (place.fill [place.longer lines]).tokens := by
    obtain ⟨before, ⟨stands, behind⟩, ends⟩ :=
      Token.stand_append_iff.1 (place.tokens_eq ▸ has.stand)
    rw [place.tokens_fill, List.append_assoc, List.singleton_append]
    refine Token.stand_append_iff.2 ⟨before, ⟨taken, behind⟩, fun last found c head => ?_⟩
    refine ends last found c ?_
    obtain ⟨d, ds, spelled⟩ :=
      List.exists_cons_of_ne_nil (stands.ne_nil_of_newline solid place.spelled)
    simpa [Token.texts_cons, place.spelled, Outline.LineEnd.longer, spelled] using head
  have free : ∀ token ∈ [place.longer lines], token.isMark ')' = false := by
    simp only [List.mem_singleton, forall_eq]
    rw [Bool.eq_false_iff]
    intro mark
    have newline : '\n' ∈ (place.longer lines).text := by simp [Outline.LineEnd.longer]
    simp [(Token.isMark_iff.1 mark).2] at newline
  have parts : texts place.middle = (place.front ++ ['\n']) ++ place.back := by
    rw [place.single]
    simp [texts, place.spelled]
  refine leadsTo_fill current has place.toSlot parts ?_ free stand
  simp [texts, Outline.LineEnd.longer]

theorem leadsTo_solid (current : file.IsCurrent) (has : file.HasOutline outline)
    (place : outline.LineEnd) (solid : place.token.kind ≠ .blank) {gap : Text}
    (newlines : ∀ c ∈ gap, c = '\n') {added : List Import}
    (writable : ∀ spec ∈ added, spec.IsWritable) :
    file.LeadsTo [.insertAt place.offset (gap ++ importLines added)]
        (place.fill [place.longer (gap ++ importLines added)]) ∨ place.IsQuoted := by
  have free {c : Char} (noWord : Text.isWordChar c = false)
      (other : c ∉ ['.', '-', '~', '/', '"', ' ', '\t', '\n']) : c ∉ gap ++ importLines added := by
    rw [List.mem_append, not_or]
    refine ⟨fun member => ?_, not_mem_importLines writable noWord other⟩
    rw [newlines c member] at other
    exact other (by decide)
  obtain ⟨-, ⟨stands, -⟩, -⟩ := Token.stand_append_iff.1 (place.tokens_eq ▸ has.stand)
  rcases stands.insert solid place.spelled (free (c := '*') (by decide) (by decide))
    (free (c := '\x60') (by decide) (by decide)) with taken | quoted
  · exact .inl (leadsTo_longer current has place solid taken)
  · exact .inr quoted

theorem edit_ne_ok_of_quoted (current : file.IsCurrent) (has : file.HasOutline outline)
    (place : outline.LineEnd) (quoted : place.IsQuoted) {gap : Text}
    (newlines : ∀ c ∈ gap, c = '\n') {spec : Import} (fits : spec.IsWritable)
    (apart : place.front.head? = some '"' → gap = [] → ¬['/', '/'] <:+: spec.path.toList)
    (added : List Import) :
    file.edit [.insertAt place.offset (gap ++ importLines (spec :: added))] ≠
      .ok (edited, changed) := by
  intro done
  obtain ⟨-, quote, cs, starts, isQuote, closed⟩ := quoted
  have whole : file.text = texts (outline.front ++ place.ahead) ++ (place.front ++ ['\n']) ++
      (place.back ++ texts (place.behind ++ outline.body)) := by
    rw [has.text, place.tokens_eq, Token.texts_append, Token.texts_cons, place.spelled]
    simp
  have spliced := Edit.splice_singleton
    (texts (outline.front ++ place.ahead) ++ (place.front ++ ['\n'])) []
    (place.back ++ texts (place.behind ++ outline.body)) (gap ++ importLines (spec :: added))
  rw [List.append_nil, ← whole, Text.byteSize_append, Token.texts_append outline.front,
    Text.byteSize_append] at spliced
  obtain ⟨text, -⟩ := edit_eq_ok current.scanned spliced done
  obtain ⟨outline', has'⟩ := (current.edit done).hasOutline
  obtain ⟨before, -, ends⟩ := Token.stand_append_iff.1 (place.tokens_eq ▸ has.stand)
  have same : texts outline'.tokens = texts (outline.front ++ place.ahead) ++
      quote :: (cs ++ '\n' :: (gap ++ importLines (spec :: added) ++
        (place.back ++ texts (place.behind ++ outline.body)))) := by
    rw [← has'.text, text, starts, Token.texts_append outline.front]
    simp
  obtain ⟨more, -, stand, rest⟩ := Token.exists_of_stand_append before (fun last found c head => by
    refine ends last found c ?_
    simpa [Token.texts_cons, place.spelled, starts] using head) has'.stand same
  refine Token.not_isReadable_of_quoted isQuote closed newlines fits ?_ added ⟨more, rest, stand⟩
  rintro rfl
  exact apart (by simp [starts])

theorem missingImports_singleton {present : List String} {spec : Import}
    (absent : spec.path ∉ present) : missingImports present [spec] = [spec] := by
  simp [missingImports, absent, Dict.insertNew, Dict.contains, Dict.insert, Dict.insertEntry,
    Dict.values, Dict.empty, Dict.find?, Dict.lookup]

theorem exists_absent_path (paths : List String) :
    ∃ path : String, path.toList ≠ [] ∧ (∀ c ∈ path.toList, c = 'a') ∧ path ∉ paths := by
  have longest : ∃ n, ∀ path ∈ paths, path.toList.length ≤ n := by
    induction paths with
    | nil => exact ⟨0, by simp⟩
    | cons first paths ih =>
      obtain ⟨n, bound⟩ := ih
      refine ⟨first.toList.length + n, List.forall_mem_cons.2 ⟨by omega, fun path member => ?_⟩⟩
      have := bound path member
      omega
  obtain ⟨n, bound⟩ := longest
  refine ⟨String.ofList (List.replicate (n + 1) 'a'), ?_, ?_, fun member => ?_⟩
  · simp
  · simp
  · have short := bound _ member
    rw [String.toList_ofList, List.length_replicate] at short
    omega

theorem isPlain_letters {path : String} (nonempty : path.toList ≠ [])
    (letters : ∀ c ∈ path.toList, c = 'a') : (⟨none, path⟩ : Import).IsPlain := by
  refine ⟨fun empty => nonempty (String.toList_eq_nil_iff.2 empty), fun c member => .inl ?_,
    by simp⟩
  rw [letters c member]
  decide

theorem isStandard_letters {path : String} (letters : ∀ c ∈ path.toList, c = 'a') :
    Import.isStandard path := by
  rw [Import.isStandard, Bool.not_eq_true', List.contains_eq_mem, decide_eq_false_iff_not]
  intro dot
  exact absurd (letters '.' ((List.takeWhile_sublist _).mem dot)) (by decide)

/-- Whether new imports go behind the line end before an offset, with the given import as the last
one ahead of them. -/
def EndsLineBehind (file : SourceFile) (last : PlacedImport) (offset : Nat) : Prop :=
  ∃ specs start stop tail,
    ImportLayout.ofFile file = .ok (some ⟨specs, some (start, stop)⟩) ∧
    (specs.filter fun placed => placed.start > start && placed.stop < stop).getLast? = some last ∧
    Text.slice? file.text last.stop stop = some tail ∧ '\n' ∈ tail ∧
    offset = last.stop + Text.byteSize (tail.takeWhile (· ≠ '\n')) + 1

theorem endsLineAt_iff {offset : Nat} :
    file.EndsLineAt offset ↔ ∃ last, file.EndsLineBehind last offset := by
  constructor
  · rintro ⟨specs, start, stop, last, tail, ends⟩
    exact ⟨last, specs, start, stop, tail, ends⟩
  · rintro ⟨last, specs, start, stop, tail, ends⟩
    exact ⟨specs, start, stop, last, tail, ends⟩

theorem EndsLineBehind.unique {last last' : PlacedImport} {offset offset' : Nat}
    (ends : file.EndsLineBehind last offset) (also : file.EndsLineBehind last' offset') :
    last = last' ∧ offset = offset' := by
  obtain ⟨specs, start, stop, tail, read, found, sliced, -, rfl⟩ := ends
  obtain ⟨specs', start', stop', tail', read', found', sliced', -, rfl⟩ := also
  cases read.symm.trans read'
  cases found.symm.trans found'
  cases sliced.symm.trans sliced'
  exact ⟨rfl, rfl⟩

theorem reconcile_of_endsLineBehind {last : PlacedImport} {offset : Nat} {added : List Import}
    (read : file.imports = .ok imports) (ends : file.EndsLineBehind last offset)
    (present : added ≠ [])
    (missing : missingImports (imports.map (·.path)) added = added) :
    file.reconcile added = ((file.edit [.insertAt offset (gapBehind last added ++
      importLines added)]).mapError .ofEditError).map fun done => (done.1, added) := by
  obtain ⟨specs, start, stop, tail, found, lastly, sliced, newline, rfl⟩ := ends
  obtain ⟨layout, same, paths⟩ := exists_layout read
  obtain rfl := Except.ok.inj (same.symm.trans found)
  have chosen := @extendGroup_of_line specs start stop last _ _ added lastly sliced newline
  simp only [reconcile_eq, importEdit?, found, paths, missing, present, chosen, Option.map_some,
    if_false]
  generalize file.edit _ = done
  cases done <;> rfl

theorem exists_edit_of_reconcile {offset : Nat} {path : String} {added : List Import}
    (read : file.imports = .ok imports) (ends : file.EndsLineAt offset)
    (standard : Import.isStandard path) (absent : path ∉ imports.map (·.path))
    (reconciled : file.reconcile [⟨none, path⟩] = .ok (edited, added)) :
    ∃ changed, file.edit [.insertAt offset ('\t' :: '"' :: (path.toList ++ ['"', '\n']))] =
      .ok (edited, changed) := by
  obtain ⟨last, behind⟩ := endsLineAt_iff.1 ends
  have line : gapBehind last [⟨none, path⟩] ++ importLines [⟨none, path⟩] =
      '\t' :: '"' :: (path.toList ++ ['"', '\n']) := by
    simp [gapBehind, standard, importLines, Import.render]
  rw [reconcile_of_endsLineBehind read behind (List.cons_ne_nil _ _)
    (missingImports_singleton absent), line] at reconciled
  cases done : file.edit [.insertAt offset ('\t' :: '"' :: (path.toList ++ ['"', '\n']))] with
  | error cause =>
    rw [done] at reconciled
    cases reconciled
  | ok result =>
    rw [done] at reconciled
    obtain rfl := (Prod.mk.inj (Except.ok.inj reconciled)).1
    exact ⟨result.2, rfl⟩

theorem hasOutline_of_reconcile {path : String} {added : List Import} (current : file.IsCurrent)
    (has : file.HasOutline outline) (read : file.imports = .ok imports) (place : outline.LineEnd)
    (ends : file.EndsLineAt place.offset) (solid : place.token.kind ≠ .blank)
    (nonempty : path.toList ≠ []) (letters : ∀ c ∈ path.toList, c = 'a')
    (absent : path ∉ imports.map (·.path))
    (reconciled : file.reconcile [⟨none, path⟩] = .ok (edited, added)) :
    edited.HasOutline
      (place.fill [place.longer ('\t' :: '"' :: (path.toList ++ ['"', '\n']))]) := by
  obtain ⟨changed, edit⟩ := exists_edit_of_reconcile read ends
    (isStandard_letters letters) absent reconciled
  have line : [] ++ importLines [⟨none, path⟩] = '\t' :: '"' :: (path.toList ++ ['"', '\n']) := by
    simp [importLines, Import.render]
  have writable : ∀ spec ∈ [(⟨none, path⟩ : Import)], spec.IsWritable := by
    simpa using (isPlain_letters nonempty letters).isWritable
  have goes := leadsTo_solid current has place solid (by simp : ∀ c ∈ [], c = '\n') writable
  rw [line] at goes
  rcases goes with ⟨edited', changed', done, -, has'⟩ | quoted
  · obtain ⟨rfl, -⟩ := Prod.mk.inj (Except.ok.inj (done.symm.trans edit))
    exact has'
  · have apart : ¬['/', '/'] <:+: path.toList := by
      intro slashes
      exact absurd (letters '/' (slashes.subset (by simp))) (by decide)
    rw [← line] at edit
    exact absurd edit (edit_ne_ok_of_quoted current has place quoted (by simp)
      (writable _ (List.mem_singleton_self _)) (fun _ _ => apart) [])

private theorem exists_not_importsOnce {offset : Nat} (current : file.IsCurrent)
    (read : file.imports = .ok imports) (ends : file.EndsLineAt offset)
    (shut : ¬Token.IsOpenAt file.text offset) :
    ∃ required, (∀ spec ∈ required, spec.IsPlain) ∧ ¬file.ImportsOnce required := by
  obtain ⟨outline, has⟩ := current.hasOutline
  obtain ⟨place, rfl⟩ := has.exists_lineEnd ends
  have solid : place.token.kind ≠ .blank := mt (has.isOpenAt_offset_iff place).2 shut
  obtain ⟨path, nonempty, letters, absent⟩ := exists_absent_path (imports.map (·.path))
  refine ⟨[⟨none, path⟩], by simpa using isPlain_letters nonempty letters, ?_⟩
  rintro ⟨before, edited, added, after, read', reconciled, readAfter, once, -, -⟩
  obtain rfl : imports = before := Except.ok.inj (read.symm.trans read')
  have has' := hasOutline_of_reconcile current has read place ends solid nonempty letters absent
    reconciled
  have member : path ∈ after.map (·.path) := by
    have counted := once ⟨none, path⟩ (by simp) absent
    exact List.count_pos_iff.1 (by rw [counted]; decide)
  -- The path is none of the others, and the token gives no path of letters.
  rw [has.paths_of_imports read, place.imports_eq, place.single] at absent
  rw [has'.paths_of_imports readAfter, place.fill_imports] at member
  simp only [ImportLayout.pathsOf_append, List.mem_append, not_or] at absent member
  rcases member with (ahead | new) | behind
  · exact absent.1.1 ahead
  · have spread := ImportLayout.newline_mem_of_mem_pathsOf (by simp [Outline.LineEnd.longer]) new
    exact absurd (letters '\n' spread) (by decide)
  · exact absent.2 behind

/-- Whatever a file lacks can be added to it, once, exactly when its first group has room for new
lines behind its last import. -/
theorem imported_once_iff {path : String} {text : Text} (parsed : parse path text = .ok file)
    (read : file.imports = .ok imports) :
    (∀ required : List Import, (∀ spec ∈ required, spec.IsPlain) → file.ImportsOnce required) ↔
      file.HasOpenEnd := by
  have current : file.IsCurrent := .of_parse parsed
  constructor
  · intro once
    rw [hasOpenEnd_iff]
    intro offset ends
    by_contra shut
    obtain ⟨required, plain, fails⟩ := exists_not_importsOnce current read ends shut
    exact fails (once required plain)
  · intro openEnd required plain
    exact importsOnce_of_openEnd current read openEnd plain

/-- A file with its only import before a remark. -/
def remarkFile (remark : String) : SourceFile :=
  let text := ("package a\n\nimport (\n\t\"fmt\" " ++ remark ++ "\n)\n").toList
  ⟨"a.go", none, "a", text, (Span.scan text).toOption.getD []⟩

private theorem not_hasOpenEnd_remarkFile : ¬(remarkFile "/* x\n\ty */").HasOpenEnd := by
  intro openEnd
  have layout : ImportLayout.ofFile (remarkFile "/* x\n\ty */") =
      .ok (some ⟨[⟨⟨none, "fmt"⟩, 21, 26⟩], some (18, 38)⟩) := by
    decide +kernel
  have sliced : Text.slice? (remarkFile "/* x\n\ty */").text 26 38 =
      some " /* x\n\ty */\n".toList := by
    decide +kernel
  have lexed : Token.lex (remarkFile "/* x\n\ty */").text =
      .ok ([⟨.word, "package".toList⟩, ⟨.blank, [' ']⟩, ⟨.word, ['a']⟩, ⟨.blank, ['\n', '\n']⟩,
          ⟨.word, "import".toList⟩, ⟨.blank, [' ']⟩, ⟨.mark, ['(']⟩, ⟨.blank, ['\n', '\t']⟩,
          ⟨.literal, "\"fmt\"".toList⟩, ⟨.blank, [' ']⟩] ++
        ⟨.comment, "/* x\n\ty */".toList⟩ :: [⟨.blank, ['\n']⟩, ⟨.mark, [')']⟩,
          ⟨.blank, ['\n']⟩]) := by
    decide +kernel
  have isOpen := openEnd _ _ _ ⟨⟨none, "fmt"⟩, 21, 26⟩ _ layout (by decide) sliced (by decide)
  have kind := isOpen _ _ _ lexed (by decide) (by decide)
  cases kind

/-- A comment over two lines takes the new import in, and the file does not have it afterwards. -/
theorem remark_takes_import :
    parse "a.go" (remarkFile "/* x\n\ty */").text = .ok (remarkFile "/* x\n\ty */") ∧
      (remarkFile "/* x\n\ty */").imports = .ok [⟨none, "fmt"⟩] ∧
      (remarkFile "/* x\n\ty */").reconcile [⟨none, "m/b"⟩] =
        .ok (remarkFile "/* x\n\t\"m/b\"\n\ty */", [⟨none, "m/b"⟩]) ∧
      (remarkFile "/* x\n\t\"m/b\"\n\ty */").imports = .ok [⟨none, "fmt"⟩] ∧
      ¬∀ required : List Import, (∀ spec ∈ required, spec.IsPlain) →
        (remarkFile "/* x\n\ty */").ImportsOnce required := by
  have parsed : parse "a.go" (remarkFile "/* x\n\ty */").text =
      .ok (remarkFile "/* x\n\ty */") := by
    decide +kernel
  have read : (remarkFile "/* x\n\ty */").imports = .ok [⟨none, "fmt"⟩] := by decide +kernel
  refine ⟨parsed, read, by decide +kernel, by decide +kernel, fun once => ?_⟩
  exact not_hasOpenEnd_remarkFile ((imported_once_iff parsed read).1 once)

end SourceFile

end Repackage
