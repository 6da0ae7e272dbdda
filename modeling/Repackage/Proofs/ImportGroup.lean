import Repackage.Proofs.ImportLines

/-!
Where new imports go. The parentheses that are noted for a file are those of its first group, whose
inside can be exchanged for other tokens; without a group, the first import is a single one that can
be written inside a group; and without imports there is room for a group after the clause. In each
case the file takes the new lines in, and its imports are then the old ones and the new ones.
-/

set_option autoImplicit false
set_option relaxedAutoImplicit false

namespace Repackage

open Token (texts space linesOf)

theorem Token.isMark_iff {token : Token} {c : Char} :
    token.isMark c ↔ token.kind = .mark ∧ token.text = [c] := by
  simp [Token.isMark]

namespace Outline

/-- A group among the tokens of import declarations. -/
structure Group where
  before : List Token
  opening : Token
  inside : List Token
  closing : Token
  after : List Token

namespace Group

/-- The declarations with the group among them. -/
def tokens (group : Group) : List Token :=
  group.before ++ group.opening :: (group.inside ++ group.closing :: group.after)

def fill (group : Group) (inside : List Token) : Group :=
  { group with inside := inside }

/-- Whether the group is the first one and can have any inside that does not close it. -/
structure IsFirst (group : Group) (gap body : List Token) : Prop where
  opens : group.opening.isMark '('
  closes : group.closing.isMark ')'
  first : ∀ token ∈ group.before, token.isMark '(' = false ∧ token.isMark ')' = false
  free : ∀ token ∈ group.inside, token.isMark ')' = false
  fill : ∀ inside, (∀ token ∈ inside, token.isMark ')' = false) →
    HasImports gap (group.fill inside).tokens body
  later : ∃ between more, group.after = between ++ more ∧ HasImports between more body

end Group

theorem Group.IsFirst.closing_not_isBlank {group : Group} {gap body : List Token}
    (isFirst : group.IsFirst gap body) :
    ∀ c ∈ (texts [group.closing]).head?, Text.isBlank c = false := by
  have closing := (Token.isMark_iff.1 isFirst.closes).2
  simp only [texts, List.flatMap_cons, List.flatMap_nil, closing, List.singleton_append,
    List.head?_cons, Option.mem_def, Option.some.injEq, forall_eq']
  decide

theorem isMark_eq_false_of_word {token : Token} (word : token.kind = .word) (c : Char) :
    token.isMark c = false := by
  simp [Token.isMark, word]

theorem isMark_eq_false_of_literal {token : Token} (literal : token.kind = .literal) (c : Char) :
    token.isMark c = false := by
  simp [Token.isMark, literal]

theorem isMark_eq_false_of_isGap {token : Token} (gap : isGap token) (c : Char) :
    token.isMark c = false := by
  rw [Bool.eq_false_iff]
  intro mark
  rw [isGap_eq_false_of_isMark mark] at gap
  cases gap

theorem isMark_unique {token : Token} {c d : Char} (mark : token.isMark c) (other : c ≠ d) :
    token.isMark d = false := by
  rw [Token.isMark_iff] at mark
  simp [Token.isMark, mark, other]

theorem isMark_eq_false_of_separates {token : Token} (separator : separates token) {c : Char}
    (other : ';' ≠ c) : token.isMark c = false := by
  rcases Bool.or_eq_true_iff.1 separator with gap | semicolon
  · exact isMark_eq_false_of_isGap gap c
  · exact isMark_unique semicolon other

/-- The tokens of an import without parentheses, from its name or path on. -/
inductive IsSpec : List Token → Prop
  | plain {path : Token} : path.kind = .literal → IsSpec [path]
  | named {name path : Token} {between : List Token} : name.kind = .word ∨ name.isMark '.' →
    (∀ token ∈ between, isGap token) → path.kind = .literal → IsSpec (name :: (between ++ [path]))

theorem IsSpec.not_isMark {spec : List Token} (shape : IsSpec spec) {c : Char} (other : '.' ≠ c) :
    ∀ token ∈ spec, token.isMark c = false := by
  cases shape with
  | plain literal => simpa using isMark_eq_false_of_literal literal c
  | named name gaps literal =>
    simp only [List.forall_mem_cons, List.forall_mem_append]
    refine ⟨?_, fun token member => isMark_eq_false_of_isGap (gaps token member) c,
      isMark_eq_false_of_literal literal c, by simp⟩
    rcases name with word | dot
    · exact isMark_eq_false_of_word word c
    · exact isMark_unique dot other

theorem IsSpec.exists_literal {spec : List Token} (shape : IsSpec spec) :
    ∃ front path, spec = front ++ [path] ∧ path.kind = .literal := by
  cases shape with
  | plain literal => exact ⟨[], _, rfl, literal⟩
  | named name gaps literal => exact ⟨_ :: _, _, rfl, literal⟩

private theorem IsSpec.getLast?_kind {spec : List Token} (shape : IsSpec spec) :
    ∀ last ∈ spec.getLast?, last.kind = .literal := by
  obtain ⟨front, path, rfl, literal⟩ := shape.exists_literal
  intro last found
  obtain rfl : path = last := by simpa using found
  exact literal

theorem IsSpec.head?_not_isBlank {spec : List Token} (shape : IsSpec spec)
    (stand : Token.Stand spec) {rest : Text} :
    ∀ c ∈ (texts spec ++ rest).head?, Text.isBlank c = false := by
  have starts {token : Token} {tokens : List Token} (whole : Token.Stand (token :: tokens))
      (solid : token.kind ≠ .blank) :
      ∀ c ∈ (texts (token :: tokens) ++ rest).head?, Text.isBlank c = false := by
    obtain ⟨stands, -⟩ := whole
    have first := stands.not_isBlank solid
    obtain ⟨d, ds, spelled, -⟩ := stands
    intro c found
    refine first c ?_
    rw [Token.texts_cons, spelled] at found
    simpa [spelled] using found
  cases shape with
  | plain literal => exact starts stand (by simp [literal])
  | named name gaps literal =>
    refine starts stand ?_
    rcases name with word | dot
    · simp [word]
    · rw [Token.isMark_iff] at dot
      simp [dot.1]

open ImportLayout (Reading) in
theorem IsSpec.foldlM_advance {spec : List Token} (shape : IsSpec spec) (depth : Nat) :
    spec.foldlM Reading.advance (depth, false) = some (depth, false) := by
  have closes {path : Token} (literal : path.kind = .literal) (named : Bool) :
      [path].foldlM Reading.advance (depth, named) = some (depth, false) := by
    simp [Reading.advance, literal]
  cases shape with
  | plain literal => exact closes literal false
  | @named name path between isName gaps literal =>
    obtain ⟨named, first⟩ : ∃ named, Reading.advance (depth, false) name = some (depth, named) := by
      rcases isName with word | dot
      · exact ⟨name.text != "import".toList, by simp only [Reading.advance, word]⟩
      · rw [Token.isMark_iff] at dot
        exact ⟨true, by simp [Reading.advance, dot]⟩
    rw [List.foldlM_cons, first, Option.bind_eq_bind, Option.bind_some, List.foldlM_append,
      Reading.foldlM_advance_of_gap gaps, Option.bind_eq_bind, Option.bind_some]
    exact closes literal named

theorem IsImport.cases_spec {declaration : List Token} (shape : IsImport declaration) :
    (∃ gap opening inside closing, declaration = gap ++ opening :: (inside ++ [closing]) ∧
      (∀ token ∈ gap, isGap token) ∧ opening.isMark '(' ∧
      (∀ token ∈ inside, token.isMark ')' = false) ∧ closing.isMark ')') ∨
    ∃ gap spec, declaration = gap ++ spec ∧ (∀ token ∈ gap, isGap token) ∧ IsSpec spec := by
  cases shape with
  | group gaps opens free closes => exact .inl ⟨_, _, _, _, rfl, gaps, opens, free, closes⟩
  | named gaps name between literal => exact .inr ⟨_, _, rfl, gaps, .named name between literal⟩
  | plain gaps literal => exact .inr ⟨_, _, rfl, gaps, .plain literal⟩

theorem HasImports.exists_group {gap imports body : List Token}
    (shapes : HasImports gap imports body) (opens : ∃ token ∈ imports, token.isMark '(') :
    ∃ group : Group, imports = group.tokens ∧ group.IsFirst gap body := by
  induction shapes with
  | nil none => simp at opens
  | @cons gap declaration between more body keyword allGap isImport shape rest ih =>
    have word (c : Char) := isMark_eq_false_of_word (kind_of_isWord isImport) c
    rcases shape.cases_spec with
      ⟨lead, opening, inside, closing, rfl, gaps, opened, free, closed⟩ |
      ⟨lead, spec, rfl, gaps, single⟩
    · refine ⟨⟨keyword :: lead, opening, inside, closing, between ++ more⟩, ?_, opened, closed, ?_,
        free, fun other fits => ?_, between, more, rfl, rest⟩
      · simp [Group.tokens]
      · refine List.forall_mem_cons.2 ⟨⟨word '(', word ')'⟩, fun token member => ?_⟩
        exact ⟨isMark_eq_false_of_isGap (gaps token member) _,
          isMark_eq_false_of_isGap (gaps token member) _⟩
      · have filled := HasImports.cons allGap isImport (.group gaps opened fits closed) rest
        simpa [Group.fill, Group.tokens] using filled
    · -- The parenthesis is in a later declaration.
      have own : ∀ token ∈ keyword :: (lead ++ spec) ++ between,
          token.isMark '(' = false ∧ token.isMark ')' = false := by
        intro token member
        simp only [List.cons_append, List.mem_cons, List.mem_append] at member
        rcases member with rfl | (inLead | inSpec) | inBetween
        · exact ⟨word '(', word ')'⟩
        · exact ⟨isMark_eq_false_of_isGap (gaps token inLead) _,
            isMark_eq_false_of_isGap (gaps token inLead) _⟩
        · exact ⟨single.not_isMark (by decide) token inSpec,
            single.not_isMark (by decide) token inSpec⟩
        · have separator := rest.separates token inBetween
          exact ⟨isMark_eq_false_of_separates separator (by decide),
            isMark_eq_false_of_separates separator (by decide)⟩
      have later : ∃ token ∈ more, token.isMark '(' := by
        obtain ⟨token, member, mark⟩ := opens
        rcases List.mem_append.1 member with here | there
        · rw [(own token here).1] at mark
          cases mark
        · exact ⟨token, there, mark⟩
      obtain ⟨group, parts, found⟩ := ih later
      refine ⟨{ group with before := keyword :: (lead ++ spec) ++ between ++ group.before }, ?_,
        found.opens, found.closes, ?_, found.free, fun other fits => ?_, found.later⟩
      · rw [parts]
        simp [Group.tokens]
      · exact List.forall_mem_append.2 ⟨own, found.first⟩
      · have filled := HasImports.cons allGap isImport shape (found.fill other fits)
        simpa [Group.fill, Group.tokens] using filled

/-- A row of tokens inside the first group of an outline. -/
structure Slot (outline : Outline) where
  group : Group
  left : List Token
  middle : List Token
  right : List Token
  whole : outline.imports = group.tokens
  isFirst : group.IsFirst outline.gap outline.body
  inside : group.inside = left ++ middle ++ right

namespace Slot

variable {outline : Outline} (slot : outline.Slot)

def ahead : List Token :=
  slot.group.before ++ slot.group.opening :: slot.left

/-- The tokens of the imports behind the row. -/
def behind : List Token :=
  slot.right ++ slot.group.closing :: slot.group.after

/-- The offset at which the row starts. -/
def start : Nat :=
  Text.byteSize (texts outline.front) + Text.byteSize (texts slot.ahead)

def fill (tokens : List Token) : Outline :=
  outline.withImports (slot.ahead ++ tokens ++ slot.behind)

@[simp] theorem fill_imports (tokens : List Token) :
    (slot.fill tokens).imports = slot.ahead ++ tokens ++ slot.behind := rfl

theorem imports_eq : outline.imports = slot.ahead ++ slot.middle ++ slot.behind := by
  rw [slot.whole, Group.tokens, slot.inside]
  simp [ahead, behind]

theorem tokens_eq : outline.tokens =
    (outline.front ++ slot.ahead) ++ slot.middle ++ (slot.behind ++ outline.body) := by
  rw [Outline.tokens_eq, slot.imports_eq]
  simp

theorem tokens_fill (tokens : List Token) : (slot.fill tokens).tokens =
    (outline.front ++ slot.ahead) ++ tokens ++ (slot.behind ++ outline.body) := by
  rw [fill, tokens_withImports]
  simp

theorem isWellFormed_fill (formed : outline.IsWellFormed) {tokens : List Token}
    (free : ∀ token ∈ tokens, token.isMark ')' = false) : (slot.fill tokens).IsWellFormed := by
  refine formed.withImports ?_
  have others := slot.isFirst.free
  rw [slot.inside] at others
  simp only [List.forall_mem_append] at others
  have filled := slot.isFirst.fill (slot.left ++ tokens ++ slot.right) (by
    simp only [List.forall_mem_append]
    exact ⟨⟨others.1.1, free⟩, others.2⟩)
  simpa [Group.tokens, Group.fill, ahead, behind] using filled

theorem getLast?_ahead :
    slot.ahead.getLast? = (slot.group.opening :: slot.left).getLast? := by
  rw [ahead, List.getLast?_append_of_ne_nil _ (List.cons_ne_nil _ _)]

theorem head?_texts_behind (rest : Text) : (texts slot.behind ++ rest).head? =
    (texts (slot.right ++ [slot.group.closing])).head? := by
  have closing : slot.group.closing.text = [')'] := (Token.isMark_iff.1 slot.isFirst.closes).2
  rw [behind, Token.texts_append, Token.texts_append]
  generalize texts slot.right = text
  cases text with
  | nil => simp [Token.texts_cons, closing]
  | cons c cs => rfl

end Slot

/-- A line end inside the first group of an outline, with the token that it belongs to. -/
structure LineEnd (outline : Outline) extends Slot outline where
  token : Token
  front : Text
  back : Text
  single : middle = [token]
  spelled : token.text = front ++ '\n' :: back

namespace LineEnd

variable {outline : Outline} (place : outline.LineEnd)

/-- The offset behind the line end. -/
def offset : Nat :=
  place.start + Text.byteSize (place.front ++ ['\n'])

def longer (lines : Text) : Token :=
  ⟨place.token.kind, place.front ++ '\n' :: (lines ++ place.back)⟩

theorem tokens_eq : outline.tokens =
    (outline.front ++ place.ahead) ++ place.token :: (place.behind ++ outline.body) := by
  rw [place.toSlot.tokens_eq, place.single]
  simp

end LineEnd

/-- A place between two tokens of the first group of an outline, or in the white space between them,
together with the white space that new lines there start with. -/
structure Room (outline : Outline) extends Slot outline where
  before : Text
  front : Text
  after : Text
  spaced : middle = space (before ++ after)
  blank : ∀ c ∈ front, Text.isBlank c
  apart : before = [] →
    front.head? = some '\n' ∧ ∀ last ∈ toSlot.ahead.getLast?, last.kind ≠ .blank
  next : ∀ c ∈ (texts (right ++ [group.closing])).head?, Text.isBlank c = false

namespace Room

variable {outline : Outline} (room : outline.Room)

/-- The offset of the place. -/
def offset : Nat :=
  room.start + Text.byteSize room.before

def IsTight : Prop :=
  room.right = [] ∨ ∃ front literal, room.left = front ++ [literal] ∧ literal.kind = .literal

/-- The tokens of new lines at the place. -/
def lines (added : List Import) : List Token :=
  linesOf (room.before ++ room.front) added room.after

end Room

theorem Group.exists_literal {group : Group} (opens : group.opening.isMark '(')
    (closes : group.closing.isMark ')') {start : Nat} {placed : PlacedImport}
    (among : ImportLayout.IsAmong start group.tokens placed)
    (behind : start + Text.byteSize (texts group.before) < placed.start)
    (ahead : placed.stop <
      start + Text.byteSize (texts (group.before ++ group.opening :: group.inside))) :
    ∃ front literal back, group.inside = front ++ literal :: back ∧ literal.kind = .literal ∧
      placed.stop = start + Text.byteSize
        (texts (group.before ++ group.opening :: (front ++ [literal]))) := by
  obtain ⟨lead, middle, literal, rest, parts, kind, starts, stops⟩ := among
  have notOpening : literal ≠ group.opening := by
    rintro rfl
    rw [isMark_eq_false_of_literal kind] at opens
    cases opens
  have notClosing : group.closing ≠ literal := by
    rintro rfl
    rw [isMark_eq_false_of_literal kind] at closes
    cases closes
  have sizes : Text.byteSize (texts (lead ++ middle ++ [literal])) =
      Text.byteSize (texts lead) + Text.byteSize (texts (middle ++ [literal])) := by
    rw [List.append_assoc, Token.texts_append, Text.byteSize_append]
  obtain ⟨front, before, tail⟩ :=
    Token.behind_of_byteSize_lt parts.symm notOpening (by omega)
  have inner : Text.byteSize (texts front) <
      Text.byteSize (texts (group.inside ++ [group.closing])) := by
    rw [before] at sizes stops
    have outer : texts (group.before ++ group.opening :: group.inside) =
        texts group.before ++ group.opening.text ++ texts group.inside := by
      simp [texts]
    have ends : texts (group.before ++ group.opening :: front ++ [literal]) =
        texts group.before ++ group.opening.text ++ texts front ++ literal.text := by
      simp [texts]
    rw [outer, Text.byteSize_append, Text.byteSize_append] at ahead
    rw [ends, Text.byteSize_append, Text.byteSize_append, Text.byteSize_append] at stops
    rw [Token.texts_append, Text.byteSize_append]
    omega
  obtain ⟨back, inside, -⟩ := Token.behind_of_byteSize_lt tail notClosing inner
  refine ⟨front, literal, back, inside, kind, ?_⟩
  rw [stops, before]
  simp

end Outline

namespace ImportLayout.Reading

open Outline (IsSpec isGap)
open Token (significantFrom)

private theorem advance_keyword {keyword : Token} (isImport : keyword.isWord "import")
    (stage : Nat × Bool) : advance stage keyword = some (stage.1, false) := by
  simp only [Token.isWord, Bool.and_eq_true, beq_iff_eq] at isImport
  simp [advance, isImport]

private theorem step_keyword {keyword : Token} (isImport : keyword.isWord "import")
    (start line : Nat) : Reading.step {} ⟨start, line, keyword⟩ = some {} := by
  simp only [Token.isWord, Bool.and_eq_true, beq_iff_eq] at isImport
  simp [Reading.step, isImport]

private theorem foldlM_advance_keyword {keyword : Token} {gap : List Token}
    (isImport : keyword.isWord "import") (gaps : ∀ token ∈ gap, isGap token) (depth : Nat) :
    (keyword :: gap).foldlM advance (depth, false) = some (depth, false) := by
  rw [List.foldlM_cons, advance_keyword isImport, Option.bind_eq_bind, Option.bind_some,
    foldlM_advance_of_gap gaps]

private theorem pathsOf_keyword {keyword : Token} {gap : List Token}
    (isImport : keyword.isWord "import") (gaps : ∀ token ∈ gap, isGap token) :
    pathsOf (keyword :: gap) = [] := by
  rw [pathsOf_cons_of_ne (by simp [Outline.kind_of_isWord isImport]), pathsOf_of_gap gaps]

private theorem exists_of_step_name {name : Token} (isName : name.kind = .word ∨ name.isMark '.')
    (other : name.isWord "import" = false) (start line : Nat) :
    ∃ pending, Reading.step {} ⟨start, line, name⟩ =
      some ⟨[], none, none, 0, some (pending, start)⟩ := by
  rcases isName with word | dot
  · have different : name.text ≠ "import".toList := by
      intro same
      simp [Token.isWord, word, same] at other
    simp only [Reading.step, word, if_neg different]
    exact ⟨_, rfl⟩
  · rw [Token.isMark_iff] at dot
    exact ⟨".", by simp [Reading.step, dot]⟩

private theorem exists_of_run_path {path : Token} (literal : path.kind = .literal)
    {offset row : Nat} {name : Option (String × Nat)} {last : Reading}
    (read : Reading.run ⟨[], none, none, 0, name⟩ (significantFrom offset row [path]) = .ok last) :
    ∃ placed, last.specs = [placed] ∧ placed.start = name.elim offset (·.2) ∧
      placed.stop = offset + Text.byteSize path.text := by
  have seen : path.isSignificant = true := by simp [Token.isSignificant, literal]
  rw [Token.significantFrom_cons, if_pos seen] at read
  cases name with
  | none =>
    simp only [Reading.run, Reading.step, literal, significantFrom, Token.locateFrom] at read
    cases read
    exact ⟨_, rfl, rfl, rfl⟩
  | some name =>
    simp only [Reading.run, Reading.step, literal, significantFrom, Token.locateFrom] at read
    cases read
    exact ⟨_, rfl, rfl, rfl⟩

theorem run_single {start line : Nat} {keyword : Token} {gap spec : List Token} {next : Reading}
    (isImport : keyword.isWord "import") (gaps : ∀ token ∈ gap, isGap token) (shape : IsSpec spec)
    (done : Reading.run {} (significantFrom start line (keyword :: (gap ++ spec))) = .ok next) :
    ∃ lead rest placed, gap ++ spec = lead ++ rest ∧ IsSpec rest ∧
      pathsOf (keyword :: lead) = [] ∧
      (keyword :: lead).foldlM advance (0, false) = some (0, false) ∧
      next.specs = [placed] ∧ placed.start = start + Text.byteSize (texts (keyword :: lead)) ∧
      placed.stop = start + Text.byteSize (texts (keyword :: lead ++ rest)) := by
  have word := Outline.kind_of_isWord isImport
  have significant : keyword.isSignificant = true := by simp [Token.isSignificant, word]
  have silent := pathsOf_keyword isImport gaps
  have passed := foldlM_advance_keyword isImport gaps 0
  rw [Token.significantFrom_cons, if_pos significant, Token.significantFrom_append,
    Token.significantFrom_of_gap _ _ gaps, List.nil_append, Reading.run,
    step_keyword isImport] at done
  dsimp only at done
  have begun : start + Text.byteSize keyword.text + Text.byteSize (texts gap) =
      start + Text.byteSize (texts (keyword :: gap)) := by
    rw [Token.texts_cons, Text.byteSize_append, Nat.add_assoc]
  rw [begun] at done
  generalize line + Text.newlines keyword.text + Text.newlines (texts gap) = row at done
  cases shape with
  | @plain path literal =>
    obtain ⟨placed, specs, starts, stops⟩ := exists_of_run_path literal done
    refine ⟨gap, [path], placed, rfl, .plain literal, silent, passed, specs, starts, ?_⟩
    rw [stops, Token.texts_append, Text.byteSize_append, Nat.add_assoc]
    simp [texts]
  | @named name path between isName inner literal =>
    have seen : name.isSignificant = true := by
      rcases isName with word | dot
      · simp [Token.isSignificant, word]
      · rw [Token.isMark_iff] at dot
        simp [Token.isSignificant, dot]
    rw [Token.significantFrom_cons, if_pos seen, Token.significantFrom_append,
      Token.significantFrom_of_gap _ _ inner, List.nil_append, Reading.run] at done
    have size : start + Text.byteSize (texts (keyword :: gap)) + Text.byteSize name.text +
        Text.byteSize (texts between) + Text.byteSize path.text =
          start + Text.byteSize (texts (keyword :: gap ++ name :: (between ++ [path]))) := by
      simp only [Token.texts_append, Token.texts_cons, Text.byteSize_append]
      simp only [texts, List.flatMap_nil, Text.byteSize]
      omega
    by_cases again : name.isWord "import" = true
    · rw [step_keyword again] at done
      obtain ⟨placed, specs, starts, stops⟩ := exists_of_run_path literal done
      refine ⟨gap ++ name :: between, [path], placed, by simp, .plain literal, ?_, ?_, specs, ?_,
        ?_⟩
      · rw [← List.cons_append, pathsOf_append, silent, List.nil_append,
          pathsOf_keyword again inner]
      · rw [← List.cons_append, List.foldlM_append, passed, Option.bind_eq_bind, Option.bind_some,
          foldlM_advance_keyword again inner]
      · rw [starts, ← List.cons_append, Token.texts_append, Token.texts_cons name,
          Text.byteSize_append, Text.byteSize_append]
        simp only [Option.elim_none]
        omega
      · rw [stops, size]
        simp
    · obtain ⟨pending, stepped⟩ := exists_of_step_name isName (by simpa using again)
        (start + Text.byteSize (texts (keyword :: gap))) row
      rw [stepped] at done
      obtain ⟨placed, specs, starts, stops⟩ := exists_of_run_path literal done
      refine ⟨gap, name :: (between ++ [path]), placed, rfl, .named isName inner literal, silent,
        passed, specs, starts, ?_⟩
      rw [stops, size]

end ImportLayout.Reading

namespace Outline

open ImportLayout (Reading pathsOf)
open SourceFile (importLines)

def groupTokens (inside : List Token) : List Token :=
  ⟨.word, "import".toList⟩ :: ⟨.blank, [' ']⟩ :: ⟨.mark, ['(']⟩ :: (inside ++ [⟨.mark, [')']⟩])

theorem texts_groupTokens (inside : List Token) :
    texts (groupTokens inside) = "import (".toList ++ texts inside ++ [')'] := by
  simp [groupTokens, texts]

theorem pathsOf_groupTokens (inside : List Token) :
    pathsOf (groupTokens inside) = pathsOf inside := by
  simp [groupTokens, pathsOf]

theorem foldlM_advance_groupTokens {inside : List Token}
    (read : inside.foldlM Reading.advance (1, false) = some (1, false)) :
    (groupTokens inside).foldlM Reading.advance (0, false) = some (0, false) := by
  have keyword : Reading.advance (0, false) ⟨.word, "import".toList⟩ = some (0, false) := rfl
  have blank : Reading.advance (0, false) ⟨.blank, [' ']⟩ = some (0, false) := rfl
  have opening : Reading.advance (0, false) ⟨.mark, ['(']⟩ = some (1, false) := by decide
  have closing : Reading.advance (1, false) ⟨.mark, [')']⟩ = some (0, false) := by decide
  simp only [groupTokens, List.foldlM_cons, List.foldlM_append, List.foldlM_nil, keyword, blank,
    opening, read, closing, Option.bind_eq_bind, Option.bind_some, Option.pure_def]

theorem hasImports_groupTokens {gap inside between more body : List Token}
    (separators : ∀ token ∈ gap, Outline.separates token)
    (free : ∀ token ∈ inside, token.isMark ')' = false)
    (rest : Outline.HasImports between more body) :
    Outline.HasImports gap (groupTokens inside ++ between ++ more) body := by
  have space : ∀ token ∈ [(⟨.blank, [' ']⟩ : Token)], Outline.isGap token := by
    simp [Outline.isGap, Token.isSignificant]
  have opens : Token.isMark '(' ⟨.mark, ['(']⟩ = true := by decide
  have closes : Token.isMark ')' ⟨.mark, [')']⟩ = true := by decide
  have keyword : Token.isWord "import" ⟨.word, "import".toList⟩ = true := by simp [Token.isWord]
  exact .cons separators keyword (.group space opens free closes) rest

theorem stand_group {inside rest : List Token}
    (stand : Token.Stand (inside ++ ⟨.mark, [')']⟩ :: rest)) :
    Token.Stand (groupTokens inside ++ rest) := by
  simp only [groupTokens, List.cons_append, List.append_assoc, List.nil_append]
  refine ⟨.of_spelled (by decide) ?_, .blank (by simp) ?_ ?_, .mark (.inl rfl), stand⟩
  · simp only [Token.texts_cons, List.cons_append, List.head?_cons, Option.mem_def,
      Option.some.injEq, forall_eq']
    decide
  · simp only [List.mem_singleton, forall_eq]
    decide
  · simp only [Token.texts_cons, List.cons_append, List.head?_cons, Option.mem_def,
      Option.some.injEq, forall_eq']
    decide

theorem stand_lastLines {added : List Import} {rest : List Token} (present : added ≠ [])
    (writable : ∀ spec ∈ added, spec.IsWritable) (stand : Token.Stand rest) :
    Token.Stand (linesOf ['\n'] added [] ++ ⟨.mark, [')']⟩ :: rest) := by
  refine Token.stand_linesOf (.inr present) writable ?_ (by simp) ⟨.mark (.inr rfl), stand⟩ ?_
  · simp only [List.mem_singleton, forall_eq]
    decide
  · simp only [Token.texts_cons, List.cons_append, List.head?_cons, Option.mem_def,
      Option.some.injEq, forall_eq']
    decide

def withGroup (outline : Outline) (added : List Import) : Outline :=
  { outline with
    gap := [⟨.blank, ['\n', '\n']⟩]
    imports := groupTokens (linesOf ['\n'] added []) }

/-- The first import of an outline where it is a single one, behind a keyword and what else is
passed over before it. -/
structure Single (outline : Outline) where
  keyword : Token
  lead : List Token
  spec : List Token
  between : List Token
  more : List Token
  whole : outline.imports = keyword :: lead ++ spec ++ (between ++ more)
  isImport : keyword.isWord "import"
  shape : IsSpec spec
  rest : HasImports between more outline.body
  silent : pathsOf (keyword :: lead) = []
  passed : (keyword :: lead).foldlM Reading.advance (0, false) = some (0, false)

def promotedTokens (spec : List Token) (added : List Import) : List Token :=
  groupTokens (⟨.blank, ['\n', '\t']⟩ :: (spec ++ linesOf ['\n'] added []))

theorem texts_promotedTokens (spec : List Token) (added : List Import) :
    texts (promotedTokens spec added) =
      "import (\n\t".toList ++ texts spec ++ '\n' :: importLines added ++ [')'] := by
  rw [promotedTokens, texts_groupTokens, Token.texts_cons, Token.texts_append,
    Token.texts_linesOf]
  simp

theorem pathsOf_promotedTokens (spec : List Token) {added : List Import}
    (plain : ∀ spec ∈ added, spec.IsPlain) :
    pathsOf (promotedTokens spec added) = pathsOf spec ++ added.map (·.path) := by
  rw [promotedTokens, pathsOf_groupTokens, ImportLayout.pathsOf_cons_of_ne (by simp),
    ImportLayout.pathsOf_append, ImportLayout.pathsOf_linesOf plain]

variable {spec : List Token} {added : List Import}

theorem foldlM_advance_promotedTokens (shape : Outline.IsSpec spec) (present : added ≠ [])
    (plain : ∀ spec ∈ added, spec.IsPlain) :
    (promotedTokens spec added).foldlM Reading.advance (0, false) = some (0, false) := by
  refine foldlM_advance_groupTokens ?_
  have blank : Reading.advance (1, false) ⟨.blank, ['\n', '\t']⟩ = some (1, false) := rfl
  simp only [List.foldlM_cons, List.foldlM_append, blank, shape.foldlM_advance,
    Reading.foldlM_advance_linesOf _ present plain, Option.bind_eq_bind, Option.bind_some]

theorem stand_promotedTokens (shape : Outline.IsSpec spec) (alone : Token.Stand spec)
    (present : added ≠ []) (writable : ∀ spec ∈ added, spec.IsWritable) {rest : List Token}
    (stand : Token.Stand rest) : Token.Stand (promotedTokens spec added ++ rest) := by
  have listed : Token.Stand
      (spec ++ (linesOf ['\n'] added [] ++ ⟨.mark, [')']⟩ :: rest)) := by
    refine Token.stand_append_iff.2
      ⟨alone, stand_lastLines present writable stand, fun last found c head => ?_⟩
    obtain rfl : '\n' = c := by
      rw [Token.texts_append, Token.texts_linesOf] at head
      simpa using head
    refine Token.endsBefore_newline ?_
    rw [shape.getLast?_kind last found]
    simp
  refine stand_group ?_
  rw [List.cons_append, List.append_assoc]
  refine ⟨.blank (by simp) ?_ ?_, listed⟩
  · simp only [List.mem_cons, List.not_mem_nil, or_false, forall_eq_or_imp, forall_eq]
    decide
  · intro c head
    rw [Token.texts_append] at head
    exact shape.head?_not_isBlank alone c head

theorem hasImports_promotedTokens (shape : Outline.IsSpec spec)
    (writable : ∀ spec ∈ added, spec.IsWritable) {gap between more body : List Token}
    (separators : ∀ token ∈ gap, Outline.separates token)
    (rest : Outline.HasImports between more body) :
    Outline.HasImports gap (promotedTokens spec added ++ between ++ more) body := by
  refine hasImports_groupTokens separators ?_ rest
  refine List.forall_mem_cons.2 ⟨by simp [Token.isMark], List.forall_mem_append.2 ⟨?_, ?_⟩⟩
  · exact shape.not_isMark (by decide)
  · exact Token.not_isMark_of_mem_linesOf writable

/-- The edit that writes a single import inside a group with new ones. -/
def Single.edit {outline : Outline} (single : outline.Single) (added : List Import) : Edit :=
  ⟨Text.byteSize (texts outline.front), Text.byteSize (texts outline.front) +
    Text.byteSize (texts (single.keyword :: single.lead ++ single.spec)),
    "import (\n\t".toList ++ texts single.spec ++ '\n' :: importLines added ++ [')']⟩

def Single.promoted {outline : Outline} (single : outline.Single) (added : List Import) : Outline :=
  outline.withImports (promotedTokens single.spec added ++ single.between ++ single.more)

end Outline

end Repackage
