import Mathlib.Data.List.Chain
import Repackage.Proofs.Boundaries
import Repackage.Proofs.Lexing
import Repackage.Proofs.Outline
import Repackage.SourceFile

/-!
Words that are spelled anew. Some words of a text are replaced by other names, or by a name with a
qualifier and a dot in front of it, and the text is read again: its tokens and spans are those of
the old text with just these words replaced.
-/

set_option autoImplicit false
set_option relaxedAutoImplicit false

namespace Repackage

/-- A new spelling of a word: a name, and the qualifier that is put in front of it with a dot. -/
structure Respelling where
  qualifier : Option Text
  name : Text

/-- The tokens of a spelling. -/
def Respelling.tokens : Respelling → List Token
  | ⟨none, name⟩ => [⟨.word, name⟩]
  | ⟨some qualifier, name⟩ => [⟨.word, qualifier⟩, ⟨.mark, ['.']⟩, ⟨.word, name⟩]

/-- Whether the name and the qualifier can be names. -/
def Respelling.IsValid (spelling : Respelling) : Prop :=
  Word.isIdentifier spelling.name ∧ ∀ qualifier ∈ spelling.qualifier, Word.isIdentifier qualifier

/-- Which occurrences of words are spelled anew, and how. -/
abbrev Swap := Occurrence → Option Respelling

/-- Whether only names are spelled anew, and as names again. -/
def Swap.IsValid (swap : Swap) : Prop :=
  ∀ word spelling, swap word = some spelling →
    Word.isKeyword word.text = false ∧ spelling.IsValid

namespace Token

/-- The tokens that a token at an offset becomes. -/
def respell (swap : Swap) (start : Nat) (token : Token) : List Token :=
  match if token.kind = .word then swap ⟨start, token.text⟩ else none with
  | none => [token]
  | some spelling => spelling.tokens

/-- Tokens, from an offset on, with the words spelled anew. -/
def respellFrom (swap : Swap) (start : Nat) : List Token → List Token
  | [] => []
  | token :: tokens =>
    respell swap start token ++ respellFrom swap (start + Text.byteSize token.text) tokens

theorem respellFrom_append (swap : Swap) (start : Nat) (a b : List Token) :
    respellFrom swap start (a ++ b) =
      respellFrom swap start a ++ respellFrom swap (start + Text.byteSize (texts a)) b := by
  induction a generalizing start with
  | nil => simp [respellFrom, texts, Text.byteSize]
  | cons token tokens ih =>
    simp only [List.cons_append, respellFrom, ih, texts_cons, Text.byteSize_append,
      List.append_assoc, Nat.add_assoc]

theorem respell_cases (swap : Swap) (start : Nat) (token : Token) :
    respell swap start token = [token] ∨
      ∃ spelling, token.kind = .word ∧ swap ⟨start, token.text⟩ = some spelling ∧
        respell swap start token = spelling.tokens := by
  by_cases word : token.kind = .word
  · cases found : swap ⟨start, token.text⟩ with
    | none => exact .inl (by simp [respell, word, found])
    | some spelling => exact .inr ⟨spelling, word, rfl, by simp [respell, word, found]⟩
  · exact .inl (by simp [respell, word])

theorem isSpelled_of_isIdentifier {word : Text} (name : Word.isIdentifier word) :
    Word.isSpelled word := by
  simp only [Word.isIdentifier, Bool.and_eq_true] at name
  exact name.1

private theorem head_of_isIdentifier {word : Text} (name : Word.isIdentifier word) (rest : Text) :
    ∃ c, (word ++ rest).head? = some c ∧ Text.isWordStart c := by
  have spelled := isSpelled_of_isIdentifier name
  cases word with
  | nil => cases spelled
  | cons c cs =>
    simp only [Word.isSpelled, Bool.and_eq_true] at spelled
    exact ⟨c, rfl, spelled.1⟩

private theorem head_of_spelling {spelling : Respelling} (valid : spelling.IsValid) (rest : Text) :
    ∃ c, (texts spelling.tokens ++ rest).head? = some c ∧ Text.isWordStart c := by
  obtain ⟨_ | qualifier, name⟩ := spelling
  · simpa [Respelling.tokens, texts] using head_of_isIdentifier valid.1 rest
  · have text : texts (Respelling.tokens ⟨some qualifier, name⟩) ++ rest =
        qualifier ++ '.' :: (name ++ rest) := by
      simp [Respelling.tokens, texts]
    rw [text]
    exact head_of_isIdentifier (valid.2 qualifier rfl) _

private theorem stand_spelling {spelling : Respelling} (valid : spelling.IsValid)
    {tokens : List Token} (stand : Stand tokens)
    (ends : ∀ next ∈ (texts tokens).head?, Text.isWordChar next = false) :
    Stand (spelling.tokens ++ tokens) := by
  obtain ⟨_ | qualifier, name⟩ := spelling
  · exact ⟨.of_spelled (isSpelled_of_isIdentifier valid.1) ends, stand⟩
  · have dot : ∀ next ∈ (texts (⟨.mark, ['.']⟩ :: ⟨.word, name⟩ :: tokens)).head?,
        Text.isWordChar next = false := by
      rintro next found
      obtain rfl : '.' = next := by simpa [texts] using found
      decide
    have first : ∀ next ∈ (texts (⟨.word, name⟩ :: tokens)).head?, next.isDigit = false := by
      intro next found
      obtain ⟨c, head, start⟩ := head_of_isIdentifier valid.1 (texts tokens)
      obtain rfl : c = next := by
        have := head.symm.trans found
        simpa using this
      exact Text.not_isDigit_of_isWordStart start
    exact ⟨.of_spelled (isSpelled_of_isIdentifier (valid.2 qualifier rfl)) dot, .dot first,
      .of_spelled (isSpelled_of_isIdentifier valid.1) ends, stand⟩

/-- Whether no word that directly follows a number is spelled anew, where the first token starts at
an offset. -/
def Spares (swap : Swap) (start : Nat) : List Token → Prop
  | [] => True
  | token :: tokens =>
    (token.kind = .number → ∀ next ∈ tokens.head?, next.kind = .word →
      swap ⟨start + Text.byteSize token.text, next.text⟩ = none) ∧
    Spares swap (start + Text.byteSize token.text) tokens

theorem spares_of_isChain {swap : Swap} {start : Nat} {tokens : List Token}
    (apart : tokens.IsChain fun a b => a.kind = .number → b.kind ≠ .word) :
    Spares swap start tokens := by
  induction tokens generalizing start with
  | nil => trivial
  | cons token tokens ih =>
    refine ⟨fun number next follows word => ?_, ih apart.tail⟩
    cases tokens with
    | nil => cases follows
    | cons following tokens =>
      cases follows
      exact absurd word ((List.isChain_cons_cons.1 apart).1 number)

private theorem head_respellFrom {swap : Swap} (valid : swap.IsValid) (start : Nat)
    {tokens : List Token} (stand : Stand tokens) :
    (texts (respellFrom swap start tokens)).head? = (texts tokens).head? ∨
      ∃ a b, (texts tokens).head? = some a ∧ Text.isWordStart a ∧
        (texts (respellFrom swap start tokens)).head? = some b ∧ Text.isWordStart b ∧
        ∃ token ∈ tokens.head?, token.kind = .word ∧ swap ⟨start, token.text⟩ ≠ none := by
  cases tokens with
  | nil => exact .inl rfl
  | cons token tokens =>
    obtain ⟨stands, stand⟩ := stand
    rcases respell_cases swap start token with same | ⟨spelling, word, found, becomes⟩
    · obtain ⟨c, cs, spelled, -⟩ := stands
      left
      simp [respellFrom, same, texts, spelled]
    · right
      obtain ⟨a, first, wordStart⟩ := stands.isWordStart word
      obtain ⟨b, second, also⟩ := head_of_spelling (valid _ _ found).2
        (texts (respellFrom swap (start + Text.byteSize token.text) tokens))
      refine ⟨a, b, ?_, wordStart, ?_, also, token, rfl, word, by simp [found]⟩
      · rw [texts, List.flatMap_cons, List.head?_append, first]
        rfl
      · rw [respellFrom, becomes, texts_append]
        exact second

private theorem stands_respellFrom {swap : Swap} (valid : swap.IsValid) {start : Nat}
    {token : Token} {tokens : List Token}
    (spared : token.kind = .number → ∀ next ∈ tokens.head?, next.kind = .word →
      swap ⟨start, next.text⟩ = none)
    (stands : token.Stands (texts tokens)) (stand : Stand tokens) :
    token.Stands (texts (respellFrom swap start tokens)) := by
  rcases head_respellFrom valid start stand with
    kept | ⟨a, b, first, wordStart, second, also, next, follows, word, replaced⟩
  · exact stands.of_head? kept
  · -- Only a number could take in letters that differ, and no word behind a number is replaced.
    refine stands.of_isWordStart ?_ first wordStart second also
    intro number
    exact replaced (spared number next follows word)

private theorem stand_respellFrom {swap : Swap} (valid : swap.IsValid) {start : Nat}
    {tokens : List Token} (spares : Spares swap start tokens) (stand : Stand tokens) :
    Stand (respellFrom swap start tokens) := by
  induction tokens generalizing start with
  | nil => trivial
  | cons token tokens ih =>
    obtain ⟨stands, stand⟩ := stand
    obtain ⟨spared, spares⟩ := spares
    have rest : Stand (respellFrom swap (start + Text.byteSize token.text) tokens) :=
      ih spares stand
    rcases respell_cases swap start token with same | ⟨spelling, word, found, becomes⟩
    · rw [respellFrom, same]
      exact ⟨stands_respellFrom valid spared stands stand, rest⟩
    · rw [respellFrom, becomes]
      refine stand_spelling (valid _ _ found).2 rest ?_
      have ends := stands.not_isWordChar word
      rcases head_respellFrom valid (start + Text.byteSize token.text) stand with
        kept | ⟨a, b, first, wordStart, second, also, -⟩
      · rwa [kept]
      · have clash := ends a first
        rw [Text.isWordChar_of_isWordStart wordStart] at clash
        cases clash

private theorem stand_append_respellFrom {swap : Swap} (valid : swap.IsValid) {start : Nat}
    {before tokens : List Token} (spares : Spares swap start (before ++ tokens))
    (stand : Stand (before ++ tokens)) :
    Stand (before ++ respellFrom swap (start + Text.byteSize (texts before)) tokens) := by
  induction before generalizing start with
  | nil => exact stand_respellFrom valid spares stand
  | cons token before ih =>
    obtain ⟨stands, stand⟩ := stand
    obtain ⟨spared, spares⟩ := spares
    rw [texts_cons, Text.byteSize_append, ← Nat.add_assoc]
    refine ⟨?_, ih spares stand⟩
    cases before with
    | nil => exact stands_respellFrom valid spared stands stand
    | cons following before =>
      obtain ⟨⟨c, cs, spelled, -⟩, -⟩ := stand
      refine stands.of_head? ?_
      simp [texts, spelled]

end Token

namespace Outline

theorem isWord_import_eq_false {word : Text} (name : Word.isIdentifier word) :
    Token.isWord "import" ⟨.word, word⟩ = false := by
  have reserved : Word.isKeyword "import".toList := by decide
  simp only [Word.isIdentifier, Bool.and_eq_true, Bool.not_eq_true'] at name
  simp only [Token.isWord, BEq.rfl, Bool.true_and, beq_eq_false_iff_ne]
  rintro rfl
  rw [reserved] at name
  cases name.2

private theorem startsImport_spelling {spelling : Respelling} (valid : spelling.IsValid)
    (tokens : List Token) : startsImport (spelling.tokens ++ tokens) = false := by
  obtain ⟨_ | qualifier, name⟩ := spelling
  · have word : separates ⟨.word, name⟩ = false := separates_eq_false_of_kind rfl
    simp [startsImport, Respelling.tokens, word, isWord_import_eq_false valid.1]
  · have word : separates ⟨.word, qualifier⟩ = false := separates_eq_false_of_kind rfl
    simp [startsImport, Respelling.tokens, word, isWord_import_eq_false (valid.2 qualifier rfl)]

private theorem startsImport_respellFrom {swap : Swap} (valid : swap.IsValid) {start : Nat}
    {tokens : List Token} (none : startsImport tokens = false) :
    startsImport (Token.respellFrom swap start tokens) = false := by
  induction tokens generalizing start with
  | nil => rfl
  | cons token tokens ih =>
    rw [Token.respellFrom]
    rcases Token.respell_cases swap start token with same | ⟨spelling, -, found, becomes⟩
    · rw [same]
      cases gap : separates token with
      | true => simpa [startsImport, gap] using ih (by simpa [startsImport, gap] using none)
      | false => simpa [startsImport, gap] using none
    · rw [becomes]
      exact startsImport_spelling (valid _ _ found).2 _

end Outline

namespace Span

/-- The spans that a span at an offset becomes. -/
def respell (swap : Swap) (start : Nat) (span : Span) : List Span :=
  match if span.kind = .word then swap ⟨start, span.text⟩ else none with
  | none => [span]
  | some spelling => spelling.tokens.map ofToken

/-- Spans, from an offset on, with the words spelled anew. -/
def respellFrom (swap : Swap) (start : Nat) : List Span → List Span
  | [] => []
  | span :: spans =>
    respell swap start span ++ respellFrom swap (start + Text.byteSize span.text) spans

theorem respellFrom_append (swap : Swap) (start : Nat) (a b : List Span) :
    respellFrom swap start (a ++ b) =
      respellFrom swap start a ++ respellFrom swap (start + Text.byteSize (texts a)) b := by
  induction a generalizing start with
  | nil => simp [respellFrom, texts, Text.byteSize]
  | cons span spans ih =>
    simp only [List.cons_append, respellFrom, ih, texts, List.flatMap_cons, Text.byteSize_append,
      List.append_assoc, Nat.add_assoc]

private theorem respellFrom_of_no_word {swap : Swap} {start : Nat} {spans : List Span}
    (none : ∀ span ∈ spans, span.kind ≠ .word) : respellFrom swap start spans = spans := by
  induction spans generalizing start with
  | nil => rfl
  | cons span spans ih =>
    obtain ⟨first, rest⟩ := List.forall_mem_cons.1 none
    simp [respellFrom, respell, first, ih rest]

theorem ofToken_kind_eq_word_iff {token : Token} :
    (ofToken token).kind = .word ↔ token.kind = .word := by
  cases kind : token.kind <;> simp [ofToken, kind]

theorem kind_of_mem_map_ofToken {tokens : List Token} : ∀ span ∈ tokens.map ofToken,
    span.kind ≠ .packageClause ∧ span.kind ≠ .importBlock := by
  intro span member
  obtain ⟨token, -, rfl⟩ := List.mem_map.1 member
  cases kind : token.kind <;> simp [ofToken, kind]

theorem exists_token_of_split {tokens : List Token} {before after : List Span} {span : Span}
    (split : tokens.map ofToken = before ++ span :: after) :
    ∃ ahead token later, tokens = ahead ++ token :: later ∧ ahead.map ofToken = before ∧
      ofToken token = span ∧ later.map ofToken = after := by
  obtain ⟨ahead, rest, same, front, behind⟩ := List.map_eq_append_iff.1 split
  obtain ⟨token, later, rfl, is, rear⟩ := List.map_eq_cons_iff.1 behind
  exact ⟨ahead, token, later, same, front, is, rear⟩

private theorem respellFrom_map_ofToken (swap : Swap) (start : Nat) (tokens : List Token) :
    respellFrom swap start (tokens.map ofToken) =
      (Token.respellFrom swap start tokens).map ofToken := by
  induction tokens generalizing start with
  | nil => rfl
  | cons token tokens ih =>
    have text : (ofToken token).text = token.text := rfl
    simp only [List.map_cons, respellFrom, Token.respellFrom, List.map_append, text, ih]
    congr 1
    by_cases word : token.kind = .word
    · have also := ofToken_kind_eq_word_iff.2 word
      cases found : swap ⟨start, token.text⟩ <;>
        simp [respell, Token.respell, word, also, text, found]
    · have also := mt ofToken_kind_eq_word_iff.1 word
      simp [respell, Token.respell, word, also]

theorem texts_map_ofToken (tokens : List Token) :
    texts (tokens.map ofToken) = Token.texts tokens := by
  simp [texts, Token.texts, List.flatMap_map, ofToken]

def beforeBody (outline : Outline) : List Span :=
  outline.header.map ofToken ++
    ⟨.packageClause, Token.texts outline.clauseStart ++ outline.name.text⟩ ::
    outline.gap.map ofToken ++
    (if outline.imports = [] then [] else [⟨.importBlock, Token.texts outline.imports⟩])

theorem ofOutline_eq (outline : Outline) :
    ofOutline outline = beforeBody outline ++ outline.body.map ofToken := rfl

theorem texts_beforeBody (outline : Outline) :
    texts (beforeBody outline) = Token.texts (outline.header ++ outline.clauseStart ++
      outline.name :: outline.gap ++ outline.imports) := by
  have imports : texts (if outline.imports = [] then []
      else [⟨.importBlock, Token.texts outline.imports⟩]) = Token.texts outline.imports := by
    split
    next empty => rw [empty]; rfl
    · exact List.append_nil _
  simp only [beforeBody, texts_append, texts_cons, texts_map_ofToken, Token.texts_append,
    Token.texts_cons, List.append_assoc, List.cons_append, imports]

theorem texts_ofOutline (outline : Outline) :
    texts (ofOutline outline) = Token.texts outline.tokens := by
  rw [ofOutline_eq, texts_append, texts_beforeBody, texts_map_ofToken, Outline.tokens,
    Token.texts_append (_ ++ outline.imports)]

theorem not_word_of_mem_beforeBody {outline : Outline} (formed : outline.IsWellFormed) :
    ∀ span ∈ beforeBody outline, span.kind ≠ .word := by
  have ofTokens {tokens : List Token} (none : ∀ token ∈ tokens, token.kind ≠ .word) :
      ∀ span ∈ tokens.map ofToken, span.kind ≠ .word := by
    rintro span member
    obtain ⟨token, found, rfl⟩ := List.mem_map.1 member
    exact mt ofToken_kind_eq_word_iff.1 (none token found)
  have header := ofTokens fun token found => Outline.not_word_of_isGap (formed.header token found)
  have gap := ofTokens fun token found =>
    Outline.not_word_of_separates (formed.imports.separates token found)
  have block : ∀ span ∈ (if outline.imports = [] then []
      else [⟨.importBlock, Token.texts outline.imports⟩] : List Span), span.kind ≠ .word := by
    split <;> simp
  intro span member
  simp only [beforeBody, List.append_assoc, List.cons_append, List.mem_append,
    List.mem_cons] at member
  rcases member with inHeader | rfl | inGap | inBlock
  · exact header span inHeader
  · simp
  · exact gap span inGap
  · exact block span inBlock

def respellBody (swap : Swap) (outline : Outline) : Outline :=
  { outline with
    body := Token.respellFrom swap (Text.byteSize (texts (beforeBody outline))) outline.body }

theorem respellFrom_ofOutline (swap : Swap) {outline : Outline} (formed : outline.IsWellFormed) :
    respellFrom swap 0 (ofOutline outline) = ofOutline (respellBody swap outline) := by
  rw [ofOutline_eq, ofOutline_eq, respellFrom_append,
    respellFrom_of_no_word (not_word_of_mem_beforeBody formed), respellFrom_map_ofToken,
    Nat.zero_add]
  rfl

private theorem isWellFormed_respellBody {swap : Swap} (valid : swap.IsValid) {outline : Outline}
    (formed : outline.IsWellFormed) : (respellBody swap outline).IsWellFormed :=
  ⟨formed.header, formed.clause, formed.name,
    formed.imports.with_body (Outline.startsImport_respellFrom valid formed.imports.startsImport)⟩

theorem outline_of_scan {text : Text} {spans : List Span} (scanned : scan text = .ok spans) :
    ∃ tokens, Token.lex text = .ok tokens ∧
      ∃ outline, Outline.ofTokens tokens = .ok outline ∧ ofOutline outline = spans := by
  simp only [scan] at scanned
  split at scanned
  · cases scanned
  next tokens read =>
    cases found : Outline.ofTokens tokens with
    | error e => simp [found, Except.map] at scanned
    | ok outline => exact ⟨tokens, read, outline, found, by simpa [found, Except.map] using scanned⟩

theorem texts_of_scan {text : Text} {spans : List Span} (scanned : scan text = .ok spans) :
    texts spans = text := by
  obtain ⟨tokens, read, outline, found, rfl⟩ := outline_of_scan scanned
  obtain ⟨rfl, -⟩ := Outline.ofTokens_eq_ok_iff.1 found
  rw [texts_ofOutline]
  exact Token.texts_lexFrom read

theorem scan_respellFrom {swap : Swap} (valid : swap.IsValid) {text : Text} {spans : List Span}
    {tokens : List Token} (read : Token.lex text = .ok tokens)
    (spares : Token.Spares swap 0 tokens) (scanned : scan text = .ok spans) :
    scan (texts (respellFrom swap 0 spans)) = .ok (respellFrom swap 0 spans) := by
  obtain ⟨tokens', again, outline, found, rfl⟩ := outline_of_scan scanned
  obtain rfl : tokens = tokens' := Except.ok.inj (read.symm.trans again)
  obtain ⟨rfl, formed⟩ := Outline.ofTokens_eq_ok_iff.1 found
  have stand : Token.Stand (respellBody swap outline).tokens := by
    have front := Token.stand_append_respellFrom valid spares (Token.lexFrom_eq_ok_iff.1 read).2
    rwa [Nat.zero_add, ← texts_beforeBody] at front
  have lexed : Token.lex (Token.texts (respellBody swap outline).tokens) =
      .ok (respellBody swap outline).tokens :=
    Token.lexFrom_eq_ok_iff.2 ⟨rfl, stand⟩
  have outlined := Outline.ofTokens_eq_ok_iff.2 ⟨rfl, isWellFormed_respellBody valid formed⟩
  rw [respellFrom_ofOutline swap formed, texts_ofOutline]
  simp only [scan, lexed, outlined, Except.map]

theorem exists_stands_of_word {text : Text} {spans : List Span} (scanned : scan text = .ok spans)
    {span : Span} (member : span ∈ spans) (word : span.kind = .word) :
    ∃ token rest, token.kind = .word ∧ token.text = span.text ∧ Token.Stands token rest := by
  obtain ⟨tokens, read, outline, found, rfl⟩ := outline_of_scan scanned
  obtain ⟨rfl, formed⟩ := Outline.ofTokens_eq_ok_iff.1 found
  have stand := (Token.lexFrom_eq_ok_iff.1 read).2
  rcases List.mem_append.1 member with before | body
  · exact absurd word (not_word_of_mem_beforeBody formed span before)
  · obtain ⟨token, inBody, rfl⟩ := List.mem_map.1 body
    obtain ⟨rest, stands⟩ := Token.exists_stands_of_mem stand (List.mem_append_right _ inBody)
    exact ⟨token, rest, ofToken_kind_eq_word_iff.1 word, rfl, stands⟩

theorem text_ne_nil_of_word {text : Text} {spans : List Span} (scanned : scan text = .ok spans) :
    ∀ span ∈ spans, span.kind = .word → span.text ≠ [] := by
  intro span member word
  obtain ⟨token, rest, -, same, c, cs, spelled, -⟩ := exists_stands_of_word scanned member word
  simp [← same, spelled]

theorem locateFrom_append (start line : Nat) (a b : List Span) :
    locateFrom start line (a ++ b) =
      locateFrom start line a ++
        locateFrom (start + Text.byteSize (texts a)) (line + Text.newlines (texts a)) b := by
  induction a generalizing start line with
  | nil => simp [locateFrom, texts, Text.byteSize, Text.newlines]
  | cons span spans ih =>
    simp [locateFrom, ih, texts, Text.byteSize_append, Text.newlines, Nat.add_assoc]

theorem find?_locateFrom_eq_none {kind : Kind} {start line : Nat} {spans : List Span}
    (absent : ∀ span ∈ spans, span.kind ≠ kind) :
    (locateFrom start line spans).find? (fun located => located.span.kind = kind) = none := by
  induction spans generalizing start line with
  | nil => rfl
  | cons span spans ih =>
    obtain ⟨first, rest⟩ := List.forall_mem_cons.1 absent
    simp [locateFrom, first, ih rest]

theorem firstOf?_importBlock_respellFrom (swap : Swap) {text : Text} {spans : List Span}
    (scanned : scan text = .ok spans) :
    firstOf? .importBlock (respellFrom swap 0 spans) = firstOf? .importBlock spans := by
  have first (outline : Outline) : firstOf? .importBlock (ofOutline outline) =
      (locate (beforeBody outline)).find? fun located => located.span.kind = .importBlock := by
    have body : ∀ span ∈ outline.body.map ofToken, span.kind ≠ .importBlock :=
      fun span member => (kind_of_mem_map_ofToken span member).2
    rw [firstOf?, ofOutline_eq, locate, locateFrom_append, List.find?_append,
      find?_locateFrom_eq_none body, Option.or_none, locate]
  obtain ⟨tokens, -, outline, found, rfl⟩ := outline_of_scan scanned
  obtain ⟨-, formed⟩ := Outline.ofTokens_eq_ok_iff.1 found
  rw [respellFrom_ofOutline swap formed, first, first]
  rfl

def editsFrom (swap : Swap) (start : Nat) : List Span → List Edit
  | [] => []
  | span :: spans =>
    (match if span.kind = .word then swap ⟨start, span.text⟩ else none with
      | none => []
      | some spelling =>
        [⟨start, start + Text.byteSize span.text, Token.texts spelling.tokens⟩]) ++
      editsFrom swap (start + Text.byteSize span.text) spans

theorem start_le_of_mem_editsFrom {swap : Swap} {start : Nat} {spans : List Span} {edit : Edit}
    (member : edit ∈ editsFrom swap start spans) : start ≤ edit.start ∧ edit.start ≤ edit.stop := by
  induction spans generalizing start with
  | nil => cases member
  | cons span spans ih =>
    rcases List.mem_append.1 member with here | later
    · split at here
      · cases here
      · obtain rfl := List.mem_singleton.1 here
        simp
    · have bounds := ih later
      omega

private theorem editsFrom_sorted (swap : Swap) (start : Nat) (spans : List Span) :
    (editsFrom swap start spans).Pairwise fun a b => a.precedes b := by
  induction spans generalizing start with
  | nil => exact .nil
  | cons span spans ih =>
    rw [editsFrom]
    split
    · exact ih _
    next spelling found =>
      refine List.pairwise_cons.2 ⟨fun edit member => ?_, ih _⟩
      have bounds := start_le_of_mem_editsFrom member
      simp only [Edit.precedes, Bool.or_eq_true, Bool.and_eq_true, decide_eq_true_eq, beq_iff_eq]
      omega

private theorem spliceFrom_editsFrom (swap : Swap) (before kept : Text) (spans : List Span) :
    Edit.spliceFrom (before ++ kept ++ texts spans) (Text.byteSize before)
        (editsFrom swap (Text.byteSize (before ++ kept)) spans) =
      some (kept ++ texts (respellFrom swap (Text.byteSize (before ++ kept)) spans)) := by
  induction spans generalizing before kept with
  | nil =>
    have whole : before ++ kept ++ texts [] = before ++ kept := List.append_nil _
    rw [whole, editsFrom, Edit.spliceFrom, Text.cut?_byteSize]
    simp [respellFrom, texts]
  | cons span spans ih =>
    have cons : texts (span :: spans) = span.text ++ texts spans := List.flatMap_cons
    have offset : Text.byteSize (before ++ kept) + Text.byteSize span.text =
        Text.byteSize (before ++ kept ++ span.text) := (Text.byteSize_append _ _).symm
    rw [editsFrom, respellFrom, texts_append, respell, cons, offset]
    split
    next =>
      have rest := ih before (kept ++ span.text)
      simp only [← List.append_assoc] at rest ⊢
      rw [List.nil_append, rest]
      simp [texts]
    next spelling found =>
      have rest := ih (before ++ kept ++ span.text) []
      have ordered : ¬Text.byteSize (before ++ kept) < Text.byteSize before := by
        rw [Text.byteSize_append]
        omega
      simp only [List.append_nil, List.nil_append] at rest
      simp only [List.cons_append, List.nil_append, Edit.spliceFrom, ordered, if_false,
        Text.slice?_byteSize]
      rw [← List.append_assoc, rest, texts_map_ofToken]
      simp

theorem splice_editsFrom (swap : Swap) (spans : List Span) :
    Edit.splice (texts spans) (editsFrom swap 0 spans) =
      some (texts (respellFrom swap 0 spans)) := by
  rw [Edit.splice, List.mergeSort_of_pairwise (editsFrom_sorted swap 0 spans)]
  exact spliceFrom_editsFrom swap [] [] spans

end Span

end Repackage
