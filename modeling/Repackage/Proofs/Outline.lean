import Mathlib.Tactic.SplitIfs
import Repackage.Span

/-!
The regions of a text, told by their shapes. An import declaration ends where its own tokens end,
so the clause and the imports of a text are the same whatever comes after them, as long as it does
not start with one more import.
-/

set_option autoImplicit false
set_option relaxedAutoImplicit false

namespace Repackage.Outline

/-- The tokens of an import declaration after its keyword. -/
inductive IsImport : List Token → Prop
  | group {gap inside : List Token} {opening closing : Token} :
    (∀ token ∈ gap, isGap token) → opening.isMark '(' →
    (∀ token ∈ inside, token.isMark ')' = false) → closing.isMark ')' →
    IsImport (gap ++ opening :: (inside ++ [closing]))
  | named {gap between : List Token} {name path : Token} :
    (∀ token ∈ gap, isGap token) → name.kind = .word ∨ name.isMark '.' →
    (∀ token ∈ between, isGap token) → path.kind = .literal →
    IsImport (gap ++ name :: (between ++ [path]))
  | plain {gap : List Token} {path : Token} :
    (∀ token ∈ gap, isGap token) → path.kind = .literal → IsImport (gap ++ [path])

private theorem takeWhile_append_cons {p : Token → Bool} {inside rest : List Token} {token : Token}
    (all : ∀ token ∈ inside, p token) (stops : p token = false) :
    (inside ++ token :: rest).takeWhile p = inside := by
  rw [List.takeWhile_append_of_pos all, List.takeWhile_cons_of_neg (by simp [stops]),
    List.append_nil]

private theorem dropWhile_append_cons {p : Token → Bool} {inside rest : List Token} {token : Token}
    (all : ∀ token ∈ inside, p token) (stops : p token = false) :
    (inside ++ token :: rest).dropWhile p = token :: rest := by
  rw [List.dropWhile_append_of_pos all, List.dropWhile_cons_of_neg (by simp [stops])]

private theorem exists_of_dropWhile {p : Token → Bool} {tokens rest : List Token} {token : Token}
    (found : tokens.dropWhile p = token :: rest) :
    ∃ inside, tokens = inside ++ token :: rest ∧ (∀ token ∈ inside, p token) ∧
      p token = false := by
  refine ⟨tokens.takeWhile p, ?_, fun _ => List.all_eq_true.1 List.all_takeWhile _, ?_⟩
  · rw [← found, List.takeWhile_append_dropWhile]
  · have stops := List.head?_dropWhile_not p tokens
    simpa [found] using stops

theorem isGap_eq_false_of_isMark {c : Char} {token : Token} (mark : token.isMark c) :
    isGap token = false := by
  simp only [Token.isMark, Bool.and_eq_true, beq_iff_eq] at mark
  simp [isGap, Token.isSignificant, mark.1]

theorem isGap_eq_false_of_kind {token : Token}
    (kind : token.kind = .word ∨ token.kind = .literal) : isGap token = false := by
  rcases kind with kind | kind <;> simp [isGap, Token.isSignificant, kind]

private theorem exists_of_takeWhile_lt {p : Token → Bool} {tokens : List Token}
    (shorter : (tokens.takeWhile p).length < tokens.length) :
    ∃ inside token rest, tokens = inside ++ token :: rest ∧ (∀ token ∈ inside, p token) ∧
      p token = false := by
  cases found : tokens.dropWhile p with
  | nil =>
    have whole := List.takeWhile_append_dropWhile (p := p) (l := tokens)
    rw [found, List.append_nil] at whole
    rw [whole] at shorter
    omega
  | cons token rest =>
    obtain ⟨inside, parts⟩ := exists_of_dropWhile found
    exact ⟨inside, token, rest, parts⟩

theorem importExtent_eq_some_iff {tokens : List Token} {n : Nat} :
    importExtent tokens = some n ↔
      ∃ declaration rest, tokens = declaration ++ rest ∧ IsImport declaration ∧
        declaration.length = n := by
  constructor
  · intro found
    cases opens : tokens.dropWhile isGap with
    | nil => simp [importExtent, opens] at found
    | cons head rest =>
      obtain ⟨gap, rfl, allGap, stops⟩ := exists_of_dropWhile opens
      simp only [importExtent, takeWhile_append_cons allGap stops, opens] at found
      split_ifs at found with opening closes name literal
      · cases found
        obtain ⟨inside, closing, rest, rfl, allInside, closed⟩ := exists_of_takeWhile_lt closes
        rw [takeWhile_append_cons allInside closed]
        have notClosing : ∀ token ∈ inside, token.isMark ')' = false := fun token member => by
          simpa using allInside token member
        refine ⟨_, rest, ?_, .group allGap opening notClosing (by simpa using closed), ?_⟩
        · simp
        · simp only [List.length_append, List.length_cons, List.length_nil]
          omega
      · cases ends : rest.dropWhile isGap with
        | nil => simp [ends] at found
        | cons path rest' =>
          obtain ⟨between, rfl, allBetween, stopped⟩ := exists_of_dropWhile ends
          simp only [ends, takeWhile_append_cons allBetween stopped] at found
          split_ifs at found with literal
          cases found
          refine ⟨_, rest', ?_, .named allGap name allBetween literal, ?_⟩
          · simp
          · simp only [List.length_append, List.length_cons, List.length_nil]
            omega
      · cases found
        exact ⟨_, rest, by simp, .plain allGap literal, by simp⟩
  · rintro ⟨declaration, rest, rfl, shape, rfl⟩
    cases shape with
    | @group gap inside opening closing allGap opens allInside closes =>
      have stops := isGap_eq_false_of_isMark opens
      simp only [importExtent, List.append_assoc, List.cons_append,
        takeWhile_append_cons allGap stops, dropWhile_append_cons allGap stops, opens, if_true]
      rw [takeWhile_append_cons (fun token member => by simp [allInside token member])
        (by simp [closes]), if_pos (by simp)]
      simp only [List.length_append, List.length_cons, List.length_nil]
      congr 1
    | @named gap between name path allGap isName allBetween literal =>
      have stops : isGap name = false :=
        isName.elim (fun word => isGap_eq_false_of_kind (.inl word)) isGap_eq_false_of_isMark
      have notOpening : name.isMark '(' = false := by
        rcases isName with word | dot
        · simp [Token.isMark, word]
        · simp_all [Token.isMark]
      have stopped := isGap_eq_false_of_kind (.inr literal)
      simp only [importExtent, List.append_assoc, List.cons_append, List.nil_append,
        takeWhile_append_cons allGap stops, dropWhile_append_cons allGap stops, notOpening, isName,
        takeWhile_append_cons allBetween stopped, dropWhile_append_cons allBetween stopped, literal,
        if_true, Bool.false_eq_true, if_false]
      simp only [List.length_append, List.length_cons, List.length_nil]
      congr 1
    | @plain gap path allGap literal =>
      have stops := isGap_eq_false_of_kind (.inr literal)
      simp [importExtent, List.append_assoc, takeWhile_append_cons allGap stops,
        dropWhile_append_cons allGap stops, literal, Token.isMark]

def startsImport (tokens : List Token) : Bool :=
  (tokens.dropWhile separates).head?.any (·.isWord "import")

/-- A gap, the import declarations after it, and what comes after them. -/
inductive HasImports : List Token → List Token → List Token → Prop
  | nil {body : List Token} : startsImport body = false → HasImports [] [] body
  | cons {gap declaration between more body : List Token} {keyword : Token} :
    (∀ token ∈ gap, separates token) → keyword.isWord "import" → IsImport declaration →
    HasImports between more body →
    HasImports gap (keyword :: declaration ++ between ++ more) body

theorem separates_eq_false_of_kind {token : Token} (word : token.kind = .word) :
    separates token = false := by
  simp [separates, Token.isSignificant, Token.isMark, word]

theorem kind_of_isWord {word : String} {token : Token} (is : token.isWord word) :
    token.kind = .word := by
  simp only [Token.isWord, Bool.and_eq_true, beq_iff_eq] at is
  exact is.1

private theorem splitImports_of_body {line : Nat} {tokens : List Token}
    (body : startsImport tokens = false) : splitImports line tokens = .ok ([], [], tokens) := by
  rw [splitImports]
  split
  · rfl
  next keyword rest found =>
    have other : keyword.isWord "import" = false := by simpa [startsImport, found] using body
    simp [other]

private theorem exists_splitImports {line n : Nat} {gap rest : List Token} {keyword : Token}
    (allGap : ∀ token ∈ gap, separates token) (isImport : keyword.isWord "import")
    (extent : importExtent rest = some n) :
    ∃ later, splitImports line (gap ++ keyword :: rest) =
      (splitImports later (rest.drop n)).map fun (between, more, body) =>
        (gap, keyword :: rest.take n ++ between ++ more, body) := by
  have stops := separates_eq_false_of_kind (kind_of_isWord isImport)
  have drops : (gap ++ keyword :: rest).dropWhile separates = keyword :: rest :=
    dropWhile_append_cons allGap stops
  rw [splitImports]
  split
  next found => simp [drops] at found
  next head tail found =>
    obtain ⟨rfl, rfl⟩ : keyword = head ∧ rest = tail := by simpa [drops] using found
    simp only [isImport, if_true, extent, takeWhile_append_cons allGap stops]
    refine ⟨line + Token.newlines gap + Token.newlines (keyword :: rest.take n), ?_⟩
    cases splitImports (line + Token.newlines gap + Token.newlines (keyword :: rest.take n))
        (rest.drop n) with
    | error cause => rfl
    | ok parts => rfl

private theorem splitImports_eq_ok_iff {line : Nat} {tokens gap imports body : List Token} :
    splitImports line tokens = .ok (gap, imports, body) ↔
      tokens = gap ++ imports ++ body ∧ HasImports gap imports body := by
  constructor
  · intro split
    fun_induction splitImports line tokens generalizing gap imports body with
    | case1 line tokens found =>
      cases split
      exact ⟨rfl, .nil (by simp [startsImport, found])⟩
    | case2 => cases split
    | case3 => cases split
    | case4 line tokens keyword rest found isImport start n extent between more body' inner =>
      rename_i ih
      cases split
      obtain ⟨gap, rfl, allGap, stops⟩ := exists_of_dropWhile found
      obtain ⟨declaration, rest, rfl, shape, rfl⟩ := importExtent_eq_some_iff.1 extent
      obtain ⟨parts, shapes⟩ := ih inner
      simp only [List.drop_left, List.take_left, takeWhile_append_cons allGap stops] at parts ⊢
      refine ⟨?_, .cons allGap isImport shape shapes⟩
      simp [parts]
    | case5 line tokens keyword rest found other =>
      cases split
      exact ⟨rfl, .nil (by simpa [startsImport, found] using other)⟩
  · rintro ⟨rfl, shape⟩
    induction shape generalizing line with
    | nil body => exact splitImports_of_body body
    | @cons gap declaration between more body keyword allGap isImport shape rest ih =>
      have extent : importExtent (declaration ++ (between ++ more ++ body)) =
          some declaration.length := importExtent_eq_some_iff.2 ⟨_, _, rfl, shape, rfl⟩
      have parts : gap ++ (keyword :: declaration ++ between ++ more) ++ body =
          gap ++ keyword :: (declaration ++ (between ++ more ++ body)) := by simp
      obtain ⟨later, split⟩ := exists_splitImports allGap isImport extent
      rw [parts, split, List.drop_left, ih, List.take_left]
      rfl

/-- What the regions of an outline look like. -/
structure IsWellFormed (outline : Outline) : Prop where
  header : ∀ token ∈ outline.header, isGap token
  clause : ∃ keyword gap, outline.clauseStart = keyword :: gap ∧ keyword.isWord "package" ∧
    ∀ token ∈ gap, isGap token
  name : outline.name.kind = .word
  imports : HasImports outline.gap outline.imports outline.body

/-- Tokens have an outline exactly when they are the tokens of one that is well-formed. -/
theorem ofTokens_eq_ok_iff {tokens : List Token} {outline : Outline} :
    ofTokens tokens = .ok outline ↔ tokens = outline.tokens ∧ outline.IsWellFormed := by
  constructor
  · intro read
    cases opens : tokens.dropWhile isGap with
    | nil => simp [ofTokens, opens] at read
    | cons keyword afterKeyword =>
      obtain ⟨header, rfl, allHeader, stops⟩ := exists_of_dropWhile opens
      simp only [ofTokens, opens, takeWhile_append_cons allHeader stops] at read
      split_ifs at read with package
      cases names : afterKeyword.dropWhile isGap with
      | nil => simp [names] at read
      | cons name rest =>
        obtain ⟨gap, rfl, allGap, stopped⟩ := exists_of_dropWhile names
        simp only [names, takeWhile_append_cons allGap stopped] at read
        split_ifs at read with word
        split at read
        · cases read
        next imports split =>
          cases read
          obtain ⟨rfl, shapes⟩ := splitImports_eq_ok_iff.1 split
          exact ⟨by simp [Outline.tokens],
            allHeader, ⟨keyword, gap, rfl, package, allGap⟩, word, shapes⟩
  · obtain ⟨header, clauseStart, name, gap, imports, body⟩ := outline
    rintro ⟨rfl, allHeader, ⟨keyword, inside, rfl, package, allInside⟩, word, shapes⟩
    dsimp only at allHeader word shapes
    have stops := isGap_eq_false_of_kind (.inl (kind_of_isWord package))
    have stopped := isGap_eq_false_of_kind (.inl word)
    have split (line : Nat) : splitImports line (gap ++ (imports ++ body)) =
        .ok (gap, imports, body) :=
      splitImports_eq_ok_iff.2 ⟨by simp, shapes⟩
    simp only [ofTokens, Outline.tokens, List.append_assoc, List.cons_append,
      takeWhile_append_cons allHeader stops, dropWhile_append_cons allHeader stops, package,
      takeWhile_append_cons allInside stopped, dropWhile_append_cons allInside stopped, word,
      if_true, split]

theorem not_word_of_isGap {token : Token} (gap : isGap token) : token.kind ≠ .word := by
  intro word
  simp [isGap_eq_false_of_kind (.inl word)] at gap

theorem not_word_of_separates {token : Token} (gap : separates token) : token.kind ≠ .word := by
  intro word
  simp [separates_eq_false_of_kind word] at gap

theorem HasImports.separates {gap imports body : List Token}
    (shapes : HasImports gap imports body) : ∀ token ∈ gap, separates token := by
  cases shapes with
  | nil => simp
  | cons allGap _ _ _ => exact allGap

theorem HasImports.startsImport {gap imports body : List Token}
    (shapes : HasImports gap imports body) : startsImport body = false := by
  induction shapes with
  | nil none => exact none
  | cons _ _ _ _ ih => exact ih

theorem HasImports.gap_eq_nil {gap imports body : List Token}
    (shapes : HasImports gap imports body) (none : imports = []) : gap = [] := by
  cases shapes with
  | nil => rfl
  | cons => simp at none

theorem HasImports.with_body {gap imports body other : List Token}
    (shapes : HasImports gap imports body) (none : Outline.startsImport other = false) :
    HasImports gap imports other := by
  induction shapes with
  | nil => exact .nil none
  | cons allGap isImport declaration _ ih => exact .cons allGap isImport declaration ih

def BreaksOff (tokens : List Token) : Prop :=
  ∃ keyword rest, tokens.dropWhile separates = keyword :: rest ∧ keyword.isWord "import" ∧
    importExtent rest = none

private theorem splitImports_of_breaksOff {tokens : List Token} (breaks : BreaksOff tokens)
    (line : Nat) : ∃ cause, splitImports line tokens = .error cause := by
  obtain ⟨keyword, rest, found, isImport, none⟩ := breaks
  rw [splitImports]
  split
  next nothing => simp [nothing] at found
  next head tail also =>
    obtain ⟨rfl, rfl⟩ : head = keyword ∧ tail = rest := by simpa [also] using found
    simp only [isImport, if_true, none]
    exact ⟨_, rfl⟩

private theorem HasImports.splitImports_eq_error {gap imports body others : List Token}
    (shapes : HasImports gap imports body) (breaks : BreaksOff others) (line : Nat) :
    ∃ cause, splitImports line (gap ++ imports ++ others) = .error cause := by
  induction shapes generalizing line with
  | nil => exact splitImports_of_breaksOff breaks line
  | @cons gap declaration between more body keyword allGap isImport shape rest ih =>
    have extent : importExtent (declaration ++ (between ++ more ++ others)) =
        some declaration.length := importExtent_eq_some_iff.2 ⟨_, _, rfl, shape, rfl⟩
    have parts : gap ++ (keyword :: declaration ++ between ++ more) ++ others =
        gap ++ keyword :: (declaration ++ (between ++ more ++ others)) := by simp
    obtain ⟨later, split⟩ := exists_splitImports allGap isImport extent
    obtain ⟨cause, failed⟩ := ih later
    rw [parts, split, List.drop_left, failed]
    exact ⟨cause, rfl⟩

theorem IsWellFormed.ofTokens_eq_error {outline : Outline} (formed : outline.IsWellFormed)
    {others : List Token} (breaks : BreaksOff others) :
    ∃ cause, ofTokens { outline with body := others }.tokens = .error cause := by
  obtain ⟨header, clauseStart, name, gap, imports, body⟩ := outline
  obtain ⟨allHeader, ⟨keyword, inside, rfl, package, allInside⟩, word, shapes⟩ := formed
  dsimp only at allHeader word shapes
  have stops := isGap_eq_false_of_kind (.inl (kind_of_isWord package))
  have stopped := isGap_eq_false_of_kind (.inl word)
  obtain ⟨cause, failed⟩ := shapes.splitImports_eq_error breaks
    (1 + Token.newlines (header ++ keyword :: inside))
  refine ⟨cause, ?_⟩
  rw [List.append_assoc] at failed
  simp only [ofTokens, Outline.tokens, List.append_assoc, List.cons_append,
    takeWhile_append_cons allHeader stops, dropWhile_append_cons allHeader stops, package,
    takeWhile_append_cons allInside stopped, dropWhile_append_cons allInside stopped, word,
    if_true, failed]

def Splits (tokens : List Token) : Prop :=
  ∃ gap imports body, tokens = gap ++ imports ++ body ∧ HasImports gap imports body

private theorem splits_iff (line : Nat) {tokens : List Token} :
    Splits tokens ↔ ∃ parts, splitImports line tokens = .ok parts := by
  constructor
  · rintro ⟨gap, imports, body, parts⟩
    exact ⟨_, splitImports_eq_ok_iff.2 parts⟩
  · rintro ⟨⟨gap, imports, body⟩, split⟩
    exact ⟨gap, imports, body, splitImports_eq_ok_iff.1 split⟩

theorem splits_import_iff {gap rest : List Token} {keyword : Token}
    (allGap : ∀ token ∈ gap, separates token) (isImport : keyword.isWord "import") :
    Splits (gap ++ keyword :: rest) ↔
      ∃ n, importExtent rest = some n ∧ Splits (rest.drop n) := by
  rw [splits_iff 1]
  cases extent : importExtent rest with
  | none =>
    have stops := separates_eq_false_of_kind (kind_of_isWord isImport)
    have breaks : BreaksOff (gap ++ keyword :: rest) :=
      ⟨keyword, rest, dropWhile_append_cons allGap stops, isImport, extent⟩
    obtain ⟨cause, failed⟩ := splitImports_of_breaksOff breaks 1
    simp [failed]
  | some n =>
    obtain ⟨later, split⟩ := exists_splitImports allGap isImport extent
    rw [split]
    simp only [Option.some.injEq, exists_eq_left', splits_iff later]
    cases splitImports later (rest.drop n) <;> simp [Except.map]

private theorem importExtent_of_group {gap rest : List Token} {opening : Token}
    (gaps : ∀ token ∈ gap, isGap token) (opens : opening.isMark '(') :
    importExtent (gap ++ opening :: rest) =
      let inside := (rest.takeWhile fun token => !token.isMark ')').length
      if inside < rest.length then some (gap.length + inside + 2) else none := by
  have stops := isGap_eq_false_of_isMark opens
  simp only [importExtent, takeWhile_append_cons gaps stops, dropWhile_append_cons gaps stops,
    opens, if_true]

theorem splits_group_iff {gap lead inside rest : List Token} {keyword opening : Token}
    (allGap : ∀ token ∈ gap, separates token) (isImport : keyword.isWord "import")
    (gaps : ∀ token ∈ lead, isGap token) (opens : opening.isMark '(')
    (free : ∀ token ∈ inside, token.isMark ')' = false) :
    Splits (gap ++ keyword :: (lead ++ opening :: (inside ++ rest))) ↔
      let closing := (rest.takeWhile fun token => !token.isMark ')').length
      closing < rest.length ∧ Splits (rest.drop (closing + 1)) := by
  have row : (inside ++ rest).takeWhile (fun token => !token.isMark ')') =
      inside ++ rest.takeWhile fun token => !token.isMark ')' :=
    List.takeWhile_append_of_pos fun token member => by simp [free token member]
  rw [splits_import_iff allGap isImport, importExtent_of_group gaps opens, row]
  generalize (rest.takeWhile fun token => !token.isMark ')') = before
  simp only [List.length_append, Nat.add_lt_add_iff_left, Option.ite_none_right_eq_some,
    Option.some.injEq]
  have behind : (lead ++ opening :: (inside ++ rest)).drop
      (lead.length + (inside.length + before.length) + 2) = rest.drop (before.length + 1) := by
    have parts : lead ++ opening :: (inside ++ rest) = (lead ++ opening :: inside) ++ rest := by
      simp
    have size : lead.length + (inside.length + before.length) + 2 =
        (lead ++ opening :: inside).length + (before.length + 1) := by
      simp only [List.length_append, List.length_cons]
      omega
    rw [parts, size, List.drop_length_add_append]
  constructor
  · rintro ⟨n, ⟨shorter, rfl⟩, splits⟩
    exact ⟨shorter, behind ▸ splits⟩
  · rintro ⟨shorter, splits⟩
    exact ⟨_, ⟨shorter, rfl⟩, behind.symm ▸ splits⟩

theorem IsWellFormed.exists_ofTokens_iff {outline : Outline} (formed : outline.IsWellFormed)
    {rest : List Token} :
    (∃ other, ofTokens (outline.header ++ outline.clauseStart ++ outline.name :: rest) =
      .ok other) ↔ Splits rest := by
  obtain ⟨header, clauseStart, name, gap, imports, body⟩ := outline
  obtain ⟨allHeader, ⟨keyword, inside, rfl, package, allInside⟩, word, -⟩ := formed
  dsimp only at allHeader word
  have stops := isGap_eq_false_of_kind (.inl (kind_of_isWord package))
  have stopped := isGap_eq_false_of_kind (.inl word)
  rw [splits_iff (1 + Token.newlines (header ++ keyword :: inside))]
  simp only [ofTokens, List.append_assoc, List.cons_append,
    takeWhile_append_cons allHeader stops, dropWhile_append_cons allHeader stops, package,
    takeWhile_append_cons allInside stopped, dropWhile_append_cons allInside stopped, word,
    if_true]
  cases splitImports (1 + Token.newlines (header ++ keyword :: inside)) rest <;> simp

end Repackage.Outline
