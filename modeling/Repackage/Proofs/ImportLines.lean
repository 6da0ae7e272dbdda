import Repackage.Proofs.ImportBlock
import Repackage.Proofs.InertText

/-!
Lines of imports among other tokens. An import with a plain path is written as the tokens that it is
read from, and its line end and tab join the white space around them. Put between two tokens, such
lines leave all other tokens as they are, whatever characters of words their names are made of; with
names that are words they can be read wherever an import block can.
-/

set_option autoImplicit false
set_option relaxedAutoImplicit false

namespace Repackage

/-- Whether an import has a path of ASCII letters, digits and a few marks, and an identifier for its
name if it has one. -/
structure Import.IsPlain (spec : Import) : Prop where
  nonempty : spec.path ≠ ""
  path : ∀ c ∈ spec.path.toList, Text.isAsciiAlphanumeric c ∨ c ∈ ['.', '_', '-', '~', '/']
  name : ∀ name ∈ spec.name, Word.isIdentifier name.toList

theorem Import.IsPlain.isSpelled {spec : Import} (plain : spec.IsPlain) {name : String}
    (named : spec.name = some name) : Word.isSpelled name.toList :=
  (Bool.and_eq_true_iff.1 (plain.name name named)).1

/-- Whether an import can be written on a line: its path is that of a plain one, and its name, if it
has one, is made of word characters. -/
structure Import.IsWritable (spec : Import) : Prop where
  path : ∀ c ∈ spec.path.toList, Text.isAsciiAlphanumeric c ∨ c ∈ ['.', '_', '-', '~', '/']
  nonempty : ∀ name ∈ spec.name, name.toList ≠ []
  name : ∀ name ∈ spec.name, ∀ c ∈ name.toList, Text.isWordChar c

theorem Import.IsPlain.isWritable {spec : Import} (plain : spec.IsPlain) : spec.IsWritable where
  path := plain.path
  nonempty := by
    intro name named empty
    have spelled := plain.isSpelled named
    simp [empty, Word.isSpelled] at spelled
  name := fun name named => Word.isWordChar_of_isSpelled (plain.isSpelled named)

def Import.nameTokens (name : String) : List Token :=
  (Token.lex name.toList).toOption.getD [⟨.word, name.toList⟩]

/-- The tokens of an import. -/
def Import.tokens (spec : Import) : List Token :=
  let path : Token := ⟨.literal, '"' :: spec.path.toList ++ ['"']⟩
  match spec.name with
  | none => [path]
  | some name => nameTokens name ++ [⟨.blank, [' ']⟩, path]

namespace Token

theorem Stands.blank {space rest : Text} (present : space ≠ [])
    (all : ∀ c ∈ space, Text.isBlank c) (ends : ∀ next ∈ rest.head?, Text.isBlank next = false) :
    Stands ⟨.blank, space⟩ rest := by
  cases space with
  | nil => exact absurd rfl present
  | cons c cs =>
    obtain ⟨first, later⟩ := List.forall_mem_cons.1 all
    have slash : c ≠ '/' := by
      rintro rfl
      exact absurd first (by decide)
    have whole : cs.takeWhile Text.isBlank = cs := List.takeWhile_eq_self_iff.2 later
    refine ⟨c, cs, rfl, extent_append_iff.2 ⟨?_, ends⟩⟩
    simp [extent, slash, first, whole]

theorem Stands.not_isBlank {token : Token} {rest : Text} (stands : token.Stands rest)
    (solid : token.kind ≠ .blank) : ∀ c ∈ token.text.head?, Text.isBlank c = false := by
  obtain ⟨c, cs, spelled, takes⟩ := stands.takes
  intro first found
  obtain rfl : c = first := by simpa [spelled] using found
  cases kind : token.kind with
  | blank => exact absurd kind solid
  | word =>
    rw [kind] at takes
    exact Text.not_isBlank_of_isWordStart takes.1
  | literal =>
    rw [kind] at takes
    obtain ⟨rfl | rfl, -⟩ | ⟨rfl, -⟩ := takes <;> decide
  | comment =>
    rw [kind] at takes
    obtain ⟨rfl, -⟩ := takes
    decide
  | number =>
    rw [kind] at takes
    exact takes.1
  | mark =>
    rw [kind] at takes
    exact takes.1

theorem Stands.mark {c : Char} {rest : Text} (paren : c = '(' ∨ c = ')') :
    Stands ⟨.mark, [c]⟩ rest := by
  refine ⟨c, [], rfl, extent_append_iff.2 ?_⟩
  rcases paren with rfl | rfl
  · exact ⟨by decide +kernel, fun next _ => by simp [goesOn]⟩
  · exact ⟨by decide +kernel, fun next _ => by simp [goesOn]⟩

private theorem quotedLength_plain {path rest : Text}
    (plain : ∀ c ∈ path, Text.isAsciiAlphanumeric c ∨ c ∈ ['.', '_', '-', '~', '/']) :
    quotedLength '"' (path ++ '"' :: rest) = some (path.length + 1) := by
  induction path with
  | nil =>
    rw [List.nil_append, quotedLength.eq_def]
    simp
  | cons c path ih =>
    obtain ⟨first, later⟩ := List.forall_mem_cons.1 plain
    have newline : c ≠ '\n' := by
      rintro rfl
      exact absurd first (by decide)
    have escape : c ≠ '\\' := by
      rintro rfl
      exact absurd first (by decide)
    have quote : c ≠ '"' := by
      rintro rfl
      exact absurd first (by decide)
    rw [List.cons_append, quotedLength.eq_def]
    simp [newline, escape, quote, ih later]

theorem Stands.path {path rest : Text}
    (plain : ∀ c ∈ path, Text.isAsciiAlphanumeric c ∨ c ∈ ['.', '_', '-', '~', '/']) :
    Stands ⟨.literal, '"' :: path ++ ['"']⟩ rest := by
  have notBlank : Text.isBlank '"' = false := by decide
  refine ⟨'"', path ++ ['"'], rfl, ?_⟩
  rw [List.append_assoc, List.singleton_append]
  simp [extent, notBlank, quotedLength_plain plain]

end Token

namespace Import

private theorem texts_nameTokens (name : String) : Token.texts (nameTokens name) = name.toList := by
  unfold nameTokens
  cases lexed : Token.lex name.toList with
  | error cause => exact List.append_nil _
  | ok tokens => exact Token.texts_lexFrom lexed

private theorem texts_tokens (spec : Import) : Token.texts spec.tokens = spec.render := by
  cases named : spec.name with
  | none => simp [tokens, render, Token.texts, named]
  | some name =>
    simp only [tokens, render, named, Token.texts_append, texts_nameTokens]
    simp [Token.texts]

theorem nameTokens_of_isSpelled {name : String} (spelled : Word.isSpelled name.toList) :
    nameTokens name = [⟨.word, name.toList⟩] := by
  have alone : Token.Stand [⟨.word, name.toList⟩] :=
    ⟨.of_spelled spelled (by simp [Token.texts]), trivial⟩
  have lexed : Token.lex name.toList = .ok [⟨.word, name.toList⟩] :=
    Token.lexFrom_eq_ok_iff.2 ⟨List.append_nil _, alone⟩
  rw [nameTokens, lexed]
  rfl

theorem stand_nameTokens {name : String} (chars : ∀ c ∈ name.toList, Text.isWordChar c) :
    Token.Stand (nameTokens name) ∧ ∀ token ∈ nameTokens name,
      token.kind = .word ∨ token.kind = .number ∨ token.kind = .mark := by
  obtain ⟨tokens, lexed, kinds⟩ := Token.exists_lex_of_inert fun c member =>
    Text.isInert_of_isWordChar (chars c member)
  rw [nameTokens, lexed]
  exact ⟨(Token.lexFrom_eq_ok_iff.1 lexed).2, kinds⟩

variable {spec : Import} {rest : List Token}

private theorem head?_texts_tokens (writable : spec.IsWritable) (rest : Text) :
    ∃ c, (Token.texts spec.tokens ++ rest).head? = some c ∧ Text.isBlank c = false := by
  cases named : spec.name with
  | none => exact ⟨'"', by simp [tokens, named, Token.texts], by decide⟩
  | some name =>
    obtain ⟨c, cs, text⟩ := List.exists_cons_of_ne_nil (writable.nonempty name named)
    have char : Text.isWordChar c := writable.name name named c (by simp [text])
    refine ⟨c, ?_, Text.not_isBlank_of_isInert (Text.isInert_of_isWordChar char)⟩
    simp [texts_tokens, render, named, text]

private theorem stand_tokens (writable : spec.IsWritable) (stand : Token.Stand rest) :
    Token.Stand (spec.tokens ++ rest) := by
  cases named : spec.name with
  | none =>
    simp only [tokens, named, List.singleton_append]
    exact ⟨.path writable.path, stand⟩
  | some name =>
    obtain ⟨alone, kinds⟩ := stand_nameTokens (writable.name name named)
    simp only [tokens, named, List.append_assoc, List.cons_append, List.nil_append]
    refine Token.stand_append_iff.2 ⟨alone, ⟨.blank (by simp) ?_ ?_, .path writable.path, stand⟩,
      fun last found c head => ?_⟩
    · simp only [List.mem_singleton, forall_eq]
      decide
    · simp only [Token.texts_cons, List.cons_append, List.head?_cons, Option.mem_def,
        Option.some.injEq, forall_eq']
      decide
    · obtain rfl : ' ' = c := by simpa [Token.texts_cons] using head
      exact Token.endsBefore_blank (kinds last (List.mem_of_getLast? found)) (by decide)

private theorem not_isMark_of_mem_tokens (writable : spec.IsWritable) {c : Char}
    (never : Text.isWordChar c = false) : ∀ token ∈ spec.tokens, token.isMark c = false := by
  have path : Token.isMark c ⟨.literal, '"' :: spec.path.toList ++ ['"']⟩ = false := rfl
  cases named : spec.name with
  | none => simpa [tokens, named] using path
  | some name =>
    simp only [tokens, named, List.forall_mem_append, List.forall_mem_cons]
    refine ⟨fun token member => ?_, rfl, path, by simp⟩
    rw [Bool.eq_false_iff]
    intro mark
    have own : token.text = [c] := by simpa [Token.isMark] using (Bool.and_eq_true_iff.1 mark).2
    have char : Text.isWordChar c := by
      refine writable.name name named c ?_
      rw [← texts_nameTokens name]
      exact List.mem_flatMap.2 ⟨token, member, by simp [own]⟩
    rw [char] at never
    cases never

end Import

namespace Token

def linesOf (front : Text) : List Import → Text → List Token
  | [], back => [⟨.blank, front ++ back⟩]
  | spec :: specs, back => ⟨.blank, front ++ ['\t']⟩ :: spec.tokens ++ linesOf ['\n'] specs back

theorem texts_linesOf (front : Text) (specs : List Import) (back : Text) :
    texts (linesOf front specs back) = front ++ SourceFile.importLines specs ++ back := by
  induction specs generalizing front with
  | nil => simp [linesOf, texts, SourceFile.importLines]
  | cons spec specs ih =>
    rw [linesOf, List.cons_append, texts_cons, texts_append, ih, Import.texts_tokens]
    simp [SourceFile.importLines]

theorem not_isMark_of_mem_linesOf {front back : Text} {specs : List Import}
    (writable : ∀ spec ∈ specs, spec.IsWritable) :
    ∀ token ∈ linesOf front specs back, token.isMark ')' = false := by
  induction specs generalizing front with
  | nil => simp [linesOf, isMark]
  | cons spec specs ih =>
    obtain ⟨first, later⟩ := List.forall_mem_cons.1 writable
    simp only [linesOf, List.cons_append, List.forall_mem_cons, List.forall_mem_append]
    exact ⟨rfl, Import.not_isMark_of_mem_tokens first (by decide), ih later⟩

theorem stand_linesOf {front back : Text} {specs : List Import} {rest : List Token}
    (present : front ≠ [] ∨ specs ≠ []) (writable : ∀ spec ∈ specs, spec.IsWritable)
    (before : ∀ c ∈ front, Text.isBlank c) (after : ∀ c ∈ back, Text.isBlank c)
    (stand : Stand rest) (next : ∀ c ∈ (texts rest).head?, Text.isBlank c = false) :
    Stand (linesOf front specs back ++ rest) := by
  induction specs generalizing front with
  | nil =>
    have solid : front ≠ [] := present.resolve_right (by simp)
    exact ⟨.blank (by simp [solid]) (List.forall_mem_append.2 ⟨before, after⟩) next, stand⟩
  | cons spec specs ih =>
    obtain ⟨first, later⟩ := List.forall_mem_cons.1 writable
    have lines : Stand (linesOf ['\n'] specs back ++ rest) :=
      ih (.inl (by simp)) later (by simp only [List.mem_singleton, forall_eq]; decide)
    rw [linesOf, List.cons_append, List.cons_append, List.append_assoc]
    refine ⟨.blank (by simp) (List.forall_mem_append.2 ⟨before, ?_⟩) ?_,
      Import.stand_tokens first lines⟩
    · simp only [List.mem_singleton, forall_eq]
      decide
    · intro c found
      obtain ⟨head, starts, solid⟩ :=
        Import.head?_texts_tokens first (texts (linesOf ['\n'] specs back ++ rest))
      rw [← texts_append] at starts
      obtain rfl : head = c := by simpa [starts] using found
      exact solid

def space (text : Text) : List Token :=
  if text = [] then [] else [⟨.blank, text⟩]

@[simp] theorem texts_space (text : Text) : texts (space text) = text := by
  unfold space
  split_ifs with empty
  · rw [empty]
    rfl
  · simp [texts]

theorem Stands.head?_not_isBlank {token : Token} {rest : Text} (stands : token.Stands rest)
    (blank : token.kind = .blank) : ∀ c ∈ rest.head?, Text.isBlank c = false := by
  intro c found
  have ends := (stands_iff.1 stands).2 c found
  obtain ⟨first, cs, spelled, -⟩ := stands
  simpa [endsBefore, spelled, blank, goesOn] using ends

theorem exists_space {tokens rest : List Token} (stand : Stand (tokens ++ rest))
    (next : ∀ c ∈ (texts rest).head?, Text.isBlank c = false) :
    ∃ text tokens', tokens = space text ++ tokens' ∧
      ∀ c ∈ (texts (tokens' ++ rest)).head?, Text.isBlank c = false := by
  cases tokens with
  | nil => exact ⟨[], [], rfl, next⟩
  | cons token tokens =>
    obtain ⟨stands, -⟩ := stand
    have whole := stands
    obtain ⟨c, cs, spelled, -⟩ := whole
    by_cases blank : token.kind = .blank
    · refine ⟨token.text, tokens, ?_, stands.head?_not_isBlank blank⟩
      obtain ⟨kind, text⟩ := token
      obtain rfl : kind = .blank := blank
      simp_all [space]
    · refine ⟨[], token :: tokens, rfl, fun first found => ?_⟩
      refine stands.not_isBlank blank first ?_
      rw [List.cons_append, texts_cons, spelled] at found
      simpa [spelled] using found

theorem stand_insert {left right : List Token} {before front after : Text} {specs : List Import}
    (stand : Stand (left ++ space (before ++ after) ++ right)) (present : specs ≠ [])
    (writable : ∀ spec ∈ specs, spec.IsWritable) (blank : ∀ c ∈ front, Text.isBlank c)
    (apart : before = [] → front.head? = some '\n' ∧ ∀ last ∈ left.getLast?, last.kind ≠ .blank)
    (next : ∀ c ∈ (texts right).head?, Text.isBlank c = false) :
    Stand (left ++ linesOf (before ++ front) specs after ++ right) := by
  rw [List.append_assoc] at stand ⊢
  obtain ⟨first, rest, ends⟩ := stand_append_iff.1 stand
  have around : ∀ c ∈ before ++ after, Text.isBlank c := by
    unfold space at rest
    split_ifs at rest with empty
    · simp [empty]
    · exact rest.1.all_isBlank rfl
  obtain ⟨ahead, behind⟩ := List.forall_mem_append.1 around
  have lines : Stand (linesOf (before ++ front) specs after ++ right) :=
    stand_linesOf (.inr present) writable (List.forall_mem_append.2 ⟨ahead, blank⟩) behind
      (stand_append_iff.1 rest).2.1 next
  refine stand_append_iff.2 ⟨first, lines, fun last found c head => ?_⟩
  rw [texts_append, texts_linesOf] at head
  cases before with
  | nil =>
    obtain ⟨newline, solid⟩ := apart rfl
    obtain rfl : '\n' = c := by
      cases front with
      | nil => cases newline
      | cons d front =>
        obtain rfl : d = '\n' := by simpa using newline
        simpa using head
    exact endsBefore_newline (solid last found)
  | cons d before =>
    refine ends last found c ?_
    rw [texts_append, texts_space]
    simpa using head

end Token

namespace ImportLayout

open Token (linesOf space)

theorem unquote_plain {path : String}
    (plain : ∀ c ∈ path.toList, Text.isAsciiAlphanumeric c ∨ c ∈ ['.', '_', '-', '~', '/']) :
    unquote ('"' :: (path.toList ++ ['"'])) = path := by
  have solid : ∀ c ∈ path.toList, (c == '"' || c == '\x60') = false := by
    intro c member
    have allowed := plain c member
    rw [Bool.or_eq_false_iff, beq_eq_false_iff_ne, beq_eq_false_iff_ne]
    constructor
    · rintro rfl
      exact absurd allowed (by decide)
    · rintro rfl
      exact absurd allowed (by decide)
  have kept {text : Text} (none : ∀ c ∈ text, (c == '"' || c == '\x60') = false) :
      text.dropWhile (fun c => c == '"' || c == '\x60') = text := by
    cases text with
    | nil => rfl
    | cons c cs => rw [List.dropWhile_cons_of_neg (by simp [none c List.mem_cons_self])]
  rw [← String.toList_inj, unquote, String.toList_ofList, List.dropWhile_cons_of_pos (by simp)]
  cases text : path.toList with
  | nil => rfl
  | cons c cs =>
    rw [text] at solid
    have first := solid c List.mem_cons_self
    rw [List.cons_append, List.dropWhile_cons_of_neg (by simp [first]), ← List.cons_append,
      List.reverse_append, List.reverse_singleton, List.singleton_append,
      List.dropWhile_cons_of_pos (by simp),
      kept fun c member => solid c (List.mem_reverse.1 member), List.reverse_reverse]

theorem pathsOf_linesOf {front back : Text} {specs : List Import}
    (plain : ∀ spec ∈ specs, spec.IsPlain) :
    pathsOf (linesOf front specs back) = specs.map (·.path) := by
  induction specs generalizing front with
  | nil => simp [linesOf, pathsOf]
  | cons spec specs ih =>
    obtain ⟨first, later⟩ := List.forall_mem_cons.1 plain
    have own : pathsOf spec.tokens = [spec.path] := by
      cases named : spec.name with
      | none => simp [Import.tokens, named, pathsOf, unquote_plain first.path]
      | some name =>
        simp [Import.tokens, named, Import.nameTokens_of_isSpelled (first.isSpelled named), pathsOf,
          unquote_plain first.path]
    rw [linesOf, List.cons_append, pathsOf_cons_of_ne (by simp), pathsOf_append, own, ih later]
    rfl

theorem pathsOf_space (text : Text) : pathsOf (space text) = [] := by
  unfold space
  split_ifs <;> simp [pathsOf]

namespace Reading

private theorem foldlM_advance_space (text : Text) (stage : Nat × Bool) :
    (space text).foldlM advance stage = some stage := by
  unfold space
  split_ifs
  · rfl
  · rfl

private theorem foldlM_advance_tokens {spec : Import} (plain : spec.IsPlain) (stage : Nat × Bool) :
    spec.tokens.foldlM advance stage = some (stage.1, false) := by
  cases named : spec.name with
  | none => simp [Import.tokens, named, advance]
  | some name =>
    simp [Import.tokens, named, Import.nameTokens_of_isSpelled (plain.isSpelled named), advance]

theorem foldlM_advance_linesOf {front back : Text} {specs : List Import} (stage : Nat × Bool)
    (present : specs ≠ []) (plain : ∀ spec ∈ specs, spec.IsPlain) :
    (linesOf front specs back).foldlM advance stage = some (stage.1, false) := by
  induction specs generalizing front stage with
  | nil => exact absurd rfl present
  | cons spec specs ih =>
    obtain ⟨first, later⟩ := List.forall_mem_cons.1 plain
    have blank : advance stage ⟨.blank, front ++ ['\t']⟩ = some stage := rfl
    rw [linesOf, List.cons_append, List.foldlM_cons, blank, Option.bind_eq_bind, Option.bind_some,
      List.foldlM_append, foldlM_advance_tokens first, Option.bind_eq_bind, Option.bind_some]
    cases specs with
    | nil => rfl
    | cons other specs => exact ih _ (by simp) later

theorem foldlM_advance_insert {left right : List Token} {before front after : Text}
    {specs : List Import} {depth : Nat} {named : Bool} (present : specs ≠ [])
    (plain : ∀ spec ∈ specs, spec.IsPlain)
    (read : (left ++ space (before ++ after) ++ right).foldlM advance (0, false) =
      some (depth, named)) :
    ∃ named', (left ++ linesOf (before ++ front) specs after ++ right).foldlM advance (0, false) =
      some (depth, named') := by
  simp only [List.foldlM_append, Option.bind_eq_bind] at read ⊢
  obtain ⟨middle, first, rest⟩ := Option.bind_eq_some_iff.1 read
  obtain ⟨⟨open', waits⟩, begun, spaced⟩ := Option.bind_eq_some_iff.1 first
  rw [foldlM_advance_space] at spaced
  obtain rfl := Option.some.inj spaced
  rw [begun, Option.bind_some, foldlM_advance_linesOf _ present plain, Option.bind_some]
  exact foldlM_advance_loosened rest (by simp)

end Reading

end ImportLayout

end Repackage
