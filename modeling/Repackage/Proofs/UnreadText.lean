import Repackage.Proofs.Plan
import Repackage.Proofs.QualifiedText
import Repackage.Proofs.SpanTiling
import Repackage.Proofs.VeiledSites

/-!
Text that is not read. What stands inside a literal or a comment decides nothing: where one of them
is replaced by another, a file is qualified in the same way around it.
-/

set_option autoImplicit false
set_option relaxedAutoImplicit false

namespace Repackage

variable {a b : Token}

namespace Token

private theorem Stand.eq_of_texts {tokens others : List Token} (stand : Stand tokens)
    (stand' : Stand others) (same : texts others = texts tokens) : others = tokens := by
  have read : lex (texts tokens) = .ok tokens := lexFrom_eq_ok_iff.2 ⟨rfl, stand⟩
  have again : lex (texts tokens) = .ok others := lexFrom_eq_ok_iff.2 ⟨same, stand'⟩
  exact Except.ok.inj (again.symm.trans read)

private theorem respellFrom_congr {swap swap' : Swap} {start start' : Nat} {tokens : List Token}
    (same : ∀ offset ≤ Text.byteSize (texts tokens), ∀ text,
      swap' ⟨start' + offset, text⟩ = swap ⟨start + offset, text⟩) :
    respellFrom swap' start' tokens = respellFrom swap start tokens := by
  induction tokens generalizing start start' with
  | nil => rfl
  | cons token tokens ih =>
    rw [texts_cons, Text.byteSize_append] at same
    have first : respell swap' start' token = respell swap start token := by
      rw [respell, respell, show swap' ⟨start', token.text⟩ = swap ⟨start, token.text⟩ from
        same 0 (Nat.zero_le _) token.text]
    have rest := @ih (start + Text.byteSize token.text) (start' + Text.byteSize token.text)
      fun offset bound text => by
        rw [Nat.add_assoc, Nat.add_assoc]
        exact same _ (by omega) text
    rw [respellFrom, respellFrom, first, rest]

private theorem respellFrom_behind {swap swap' : Swap} {start start' : Nat}
    (same : ∀ offset text, swap' ⟨start' + offset, text⟩ = swap ⟨start + offset, text⟩)
    (more : Nat) (tokens : List Token) :
    respellFrom swap' (start' + more) tokens = respellFrom swap (start + more) tokens := by
  refine respellFrom_congr fun offset _ text => ?_
  rw [Nat.add_assoc, Nat.add_assoc]
  exact same (more + offset) text

end Token

namespace Outline

/-- Whether two outlines differ in one token at an offset, which stands neither in the clause nor
among the imports. -/
inductive Differ (a b : Token) : Nat → Outline → Outline → Prop
  | header (outline : Outline) (before after : List Token) :
    Differ a b (Text.byteSize (Token.texts before))
      { outline with header := before ++ a :: after }
      { outline with header := before ++ b :: after }
  | gap (outline : Outline) (before after : List Token) :
    Differ a b (Text.byteSize (Token.texts (outline.header ++ outline.clauseStart ++
        outline.name :: before)))
      { outline with gap := before ++ a :: after }
      { outline with gap := before ++ b :: after }
  | body (outline : Outline) (before after : List Token) :
    Differ a b (Text.byteSize (Token.texts (outline.front ++ outline.imports ++ before)))
      { outline with body := before ++ a :: after }
      { outline with body := before ++ b :: after }

def Silent (a b : Token) : Prop :=
  b.kind = a.kind ∧ (a.kind = .literal ∨ a.kind = .comment)

private theorem separates_of_literal {token : Token} (literal : token.kind = .literal) :
    separates token = false := by
  simp [separates, Token.isSignificant, Token.isMark, literal]

private theorem separates_of_comment {token : Token} (comment : token.kind = .comment) :
    separates token := by
  simp [separates, Token.isSignificant, comment]

theorem Silent.separates (silent : Silent a b) : separates b = separates a := by
  obtain ⟨same, literal | comment⟩ := silent
  · rw [separates_of_literal literal, separates_of_literal (same.trans literal)]
  · rw [separates_of_comment comment, separates_of_comment (same.trans comment)]

theorem Silent.isGap (silent : Silent a b) : isGap b = isGap a := by
  rw [Outline.isGap, Outline.isGap, Token.isSignificant, Token.isSignificant, silent.1]

private theorem startsImport_silent (silent : Silent a b) (before after : List Token) :
    startsImport (before ++ b :: after) = startsImport (before ++ a :: after) := by
  induction before with
  | nil =>
    obtain ⟨same, literal | comment⟩ := silent
    · have stops (token : Token) (kind : token.kind = .literal) :
          startsImport (token :: after) = false := by
        rw [startsImport_cons_of_not_separates (separates_of_literal kind)]
        simp [Token.isWord, kind]
      exact (stops b (same.trans literal)).trans (stops a literal).symm
    · have passes (token : Token) (kind : token.kind = .comment) :
          startsImport (token :: after) = startsImport after :=
        startsImport_cons_of_separates (separates_of_comment kind) after
      exact (passes b (same.trans comment)).trans (passes a comment).symm
  | cons token before ih =>
    cases gap : Outline.separates token with
    | true =>
      rw [List.cons_append, List.cons_append, startsImport_cons_of_separates gap,
        startsImport_cons_of_separates gap, ih]
    | false =>
      rw [List.cons_append, List.cons_append, startsImport_cons_of_not_separates gap,
        startsImport_cons_of_not_separates gap]

section Differ

variable {outline other : Outline} {place : Nat}

private theorem Differ.isWellFormed (differ : Differ a b place outline other)
    (silent : Silent a b) (formed : outline.IsWellFormed) : other.IsWellFormed := by
  cases differ with
  | header outline before after =>
    obtain ⟨header, clause, name, imports⟩ := formed
    refine ⟨?_, clause, name, imports⟩
    simp only [List.forall_mem_append, List.forall_mem_cons, silent.isGap] at header ⊢
    exact header
  | gap outline before after =>
    obtain ⟨_, _, _, _, imports, body⟩ := outline
    obtain ⟨header, clause, name, imports⟩ := formed
    refine ⟨header, clause, name, ?_⟩
    dsimp only at imports ⊢
    generalize gap : before ++ a :: after = front at imports
    cases imports with
    | nil => simp at gap
    | cons all isImport shape rest =>
      subst gap
      refine .cons ?_ isImport shape rest
      simp only [List.forall_mem_append, List.forall_mem_cons, silent.separates] at all ⊢
      exact all
  | body outline before after =>
    obtain ⟨header, clause, name, imports⟩ := formed
    refine ⟨header, clause, name, imports.with_body ?_⟩
    rw [startsImport_silent silent]
    exact imports.startsImport

theorem Differ.imports (differ : Differ a b place outline other) :
    other.imports = outline.imports := by
  cases differ <;> rfl

theorem Differ.tokens (differ : Differ a b place outline other) :
    ∃ front rear, outline.tokens = front ++ a :: rear ∧ other.tokens = front ++ b :: rear := by
  cases differ with
  | header outline before after =>
    exact ⟨before, after ++ outline.clauseStart ++ outline.name :: outline.gap ++ outline.imports ++
      outline.body, by simp [Outline.tokens], by simp [Outline.tokens]⟩
  | gap outline before after =>
    exact ⟨outline.header ++ outline.clauseStart ++ outline.name :: before,
      after ++ outline.imports ++ outline.body, by simp [Outline.tokens], by simp [Outline.tokens]⟩
  | body outline before after =>
    exact ⟨outline.front ++ outline.imports ++ before, after, by simp [tokens_eq, front],
      by simp [tokens_eq, front]⟩

theorem Differ.startsImport (differ : Differ a b place outline other) (silent : Silent a b) :
    startsImport other.body = startsImport outline.body := by
  cases differ with
  | header => rfl
  | gap => rfl
  | body outline before after => exact startsImport_silent silent before after

theorem Differ.respellBody {swap swap' : Swap} (differ : Differ a b place outline other)
    (silent : Silent a b)
    (before : ∀ offset ≤ place, ∀ text, swap' ⟨offset, text⟩ = swap ⟨offset, text⟩)
    (behind : ∀ offset text, swap' ⟨place + Text.byteSize b.text + offset, text⟩ =
      swap ⟨place + Text.byteSize a.text + offset, text⟩) :
    ∃ place', Differ a b place' (Span.respellBody swap outline) (Span.respellBody swap' other) := by
  have later := Token.respellFrom_behind behind
  have kept (token : Token) (alone : token.kind = .literal ∨ token.kind = .comment) (swap : Swap)
      (start : Nat) : Token.respell swap start token = [token] := by
    rcases alone with kind | kind <;> simp [Token.respell, kind]
  cases differ with
  | header outline ahead after =>
    have start (token : Token) : Text.byteSize (Span.texts (Span.beforeBody
        { outline with header := ahead ++ token :: after })) =
        Text.byteSize (Token.texts ahead) + Text.byteSize token.text +
          Text.byteSize (Token.texts (after ++ outline.clauseStart ++ outline.name ::
            outline.gap ++ outline.imports)) := by
      rw [Span.texts_beforeBody]
      simp [Token.texts_append, Token.texts_cons, Text.byteSize_append, Nat.add_assoc]
    rw [Span.respellBody, Span.respellBody, start a, start b, later]
    exact ⟨_, .header { outline with body := _ } ahead after⟩
  | gap outline ahead after =>
    have start (token : Token) : Text.byteSize (Span.texts (Span.beforeBody
        { outline with gap := ahead ++ token :: after })) =
        Text.byteSize (Token.texts (outline.header ++ outline.clauseStart ++
          outline.name :: ahead)) + Text.byteSize token.text +
          Text.byteSize (Token.texts (after ++ outline.imports)) := by
      rw [Span.texts_beforeBody]
      simp [Token.texts_append, Token.texts_cons, Text.byteSize_append, Nat.add_assoc]
    rw [Span.respellBody, Span.respellBody, start a, start b, later]
    exact ⟨_, .gap { outline with body := _ } ahead after⟩
  | body outline ahead after =>
    let start : Nat := Text.byteSize (Token.texts (outline.front ++ outline.imports))
    have place : Text.byteSize (Token.texts (outline.front ++ outline.imports ++ ahead)) =
        start + Text.byteSize (Token.texts ahead) := by
      rw [Token.texts_append, Text.byteSize_append]
    have spelled (swap : Swap) (token : Token)
        (alone : token.kind = .literal ∨ token.kind = .comment) :
        Span.respellBody swap { outline with body := ahead ++ token :: after } =
          { outline with
            body := Token.respellFrom swap start ahead ++ token :: Token.respellFrom swap
              (start + Text.byteSize (Token.texts ahead) + Text.byteSize token.text) after } := by
      have body : Text.byteSize (Span.texts (Span.beforeBody
          { outline with body := ahead ++ token :: after })) = start := by
        rw [Span.texts_beforeBody]
        rfl
      rw [Span.respellBody, body, Token.respellFrom_append, Token.respellFrom, kept token alone]
      rfl
    have front : Token.respellFrom swap' start ahead = Token.respellFrom swap start ahead := by
      refine Token.respellFrom_congr fun offset bound text => before _ ?_ text
      rw [place]
      omega
    have rear := later 0 after
    rw [place, Nat.add_zero, Nat.add_zero] at rear
    rw [spelled swap a silent.2, spelled swap' b (silent.1 ▸ silent.2), front, rear]
    exact ⟨_, .body outline _ _⟩

end Differ

def clauseSpans (outline : Outline) : List Span :=
  [⟨.packageClause, Token.texts outline.clauseStart ++ outline.name.text⟩]

def importSpans (outline : Outline) : List Span :=
  if outline.imports = [] then [] else [⟨.importBlock, Token.texts outline.imports⟩]

private theorem ofOutline_regions (outline : Outline) :
    Span.ofOutline outline = outline.header.map Span.ofToken ++ (outline.clauseSpans ++
      (outline.gap.map Span.ofToken ++ (outline.importSpans ++
        outline.body.map Span.ofToken))) := by
  simp [Span.ofOutline, clauseSpans, importSpans]

private theorem texts_regions (outline : Outline) :
    Span.texts (outline.header.map Span.ofToken ++ (outline.clauseSpans ++
      (outline.gap.map Span.ofToken ++ outline.importSpans))) =
      Token.texts (outline.front ++ outline.imports) := by
  have before : Span.beforeBody outline = outline.header.map Span.ofToken ++
      (outline.clauseSpans ++ (outline.gap.map Span.ofToken ++ outline.importSpans)) := by
    simp [Span.beforeBody, clauseSpans, importSpans]
  rw [← before, Span.texts_beforeBody]
  rfl

private theorem region_cases {outline : Outline} {before after : List Span} {span : Span}
    (split : Span.ofOutline outline = before ++ span :: after)
    (kind : span.kind = .literal ∨ span.kind = .comment) :
    (∃ rest, outline.header.map Span.ofToken = before ++ span :: rest ∧
        after = rest ++ (outline.clauseSpans ++ (outline.gap.map Span.ofToken ++
          (outline.importSpans ++ outline.body.map Span.ofToken)))) ∨
      (∃ front rest, outline.gap.map Span.ofToken = front ++ span :: rest ∧
        before = outline.header.map Span.ofToken ++ (outline.clauseSpans ++ front) ∧
        after = rest ++ (outline.importSpans ++ outline.body.map Span.ofToken)) ∨
      ∃ front, outline.body.map Span.ofToken = front ++ span :: after ∧
        before = outline.header.map Span.ofToken ++ (outline.clauseSpans ++
          (outline.gap.map Span.ofToken ++ (outline.importSpans ++ front))) := by
  have notClause : span ∉ outline.clauseSpans := by
    intro member
    obtain rfl := List.mem_singleton.1 member
    simp at kind
  have notImports : span ∉ outline.importSpans := by
    intro member
    rw [importSpans] at member
    split_ifs at member
    · cases member
    · obtain rfl := List.mem_singleton.1 member
      simp at kind
  rw [ofOutline_regions] at split
  rcases append_cases split with inHeader | ⟨front, rfl, afterHeader⟩
  · exact .inl inHeader
  obtain ⟨front, rfl, afterClause⟩ := exists_of_not_mem notClause afterHeader
  rcases append_cases afterClause with ⟨rest, inGap, rfl⟩ | ⟨front, rfl, afterGap⟩
  · exact .inr (.inl ⟨front, rest, inGap, rfl, rfl⟩)
  obtain ⟨front, rfl, inBody⟩ := exists_of_not_mem notImports afterGap
  exact .inr (.inr ⟨front, inBody, rfl⟩)

private theorem exists_differ {outline : Outline} {before after : List Span} {span : Span}
    (split : Span.ofOutline outline = before ++ span :: after)
    (kind : span.kind = .literal ∨ span.kind = .comment) :
    ∃ token front rear, Span.ofToken token = span ∧
      outline.tokens = front ++ token :: rear ∧ Token.texts front = Span.texts before ∧
      ∀ b, ∃ other, Differ token b (Text.byteSize (Token.texts front)) outline other ∧
        other.tokens = front ++ b :: rear ∧
        Span.ofOutline other = before ++ Span.ofToken b :: after := by
  have cases := region_cases split kind
  obtain ⟨header, clauseStart, name, gap, imports, body⟩ := outline
  rcases cases with ⟨rest, inHeader, rfl⟩ | ⟨front, rest, inGap, rfl, rfl⟩ | ⟨front, inBody, rfl⟩
  · obtain ⟨ahead, token, later, rfl, rfl, rfl, rfl⟩ := Span.exists_token_of_split inHeader
    refine ⟨token, ahead, later ++ clauseStart ++ name :: gap ++ imports ++ body, rfl, ?_, ?_,
      fun b => ⟨_, .header ⟨[], clauseStart, name, gap, imports, body⟩ ahead later, ?_, ?_⟩⟩
    · simp [Outline.tokens]
    · exact (Span.texts_map_ofToken ahead).symm
    · simp [Outline.tokens]
    · simp [ofOutline_regions, clauseSpans, importSpans]
  · obtain ⟨ahead, token, later, rfl, rfl, rfl, rfl⟩ := Span.exists_token_of_split inGap
    refine ⟨token, header ++ clauseStart ++ name :: ahead, later ++ imports ++ body, rfl, ?_, ?_,
      fun b => ⟨_, .gap ⟨header, clauseStart, name, [], imports, body⟩ ahead later, ?_, ?_⟩⟩
    · simp [Outline.tokens]
    · simp [clauseSpans, Span.texts_append, Span.texts_cons, Span.texts_map_ofToken,
        Token.texts_append, Token.texts_cons]
    · simp [Outline.tokens]
    · simp [ofOutline_regions, clauseSpans, importSpans]
  · obtain ⟨ahead, token, later, rfl, rfl, rfl, rfl⟩ := Span.exists_token_of_split inBody
    let others : Outline := ⟨header, clauseStart, name, gap, imports, []⟩
    refine ⟨token, others.front ++ imports ++ ahead, later, rfl, ?_, ?_,
      fun b => ⟨_, .body others ahead later, ?_, ?_⟩⟩
    · simp [Outline.tokens, Outline.front, others]
    · have front := texts_regions others
      change Token.texts (others.front ++ others.imports ++ ahead) = _
      rw [Token.texts_append, ← Span.texts_map_ofToken ahead, ← front, ← Span.texts_append]
      simp only [List.append_assoc]
      rfl
    · simp [Outline.tokens, Outline.front, others]
    · simp [ofOutline_regions, clauseSpans, importSpans, others]

end Outline

def makeRoom (place width offset : Nat) : Nat :=
  if offset ≤ place then offset else offset + width

private theorem makeRoom_injective (place width : Nat) : Function.Injective
    (makeRoom place width) := by
  intro m n same
  unfold makeRoom at same
  split_ifs at same <;> omega

private theorem makeRoom_of_le {place offset : Nat} (before : offset ≤ place) (width : Nat) :
    makeRoom place width offset = offset :=
  if_pos before

private theorem makeRoom_behind (place offset : Nat) {m n : Nat} (present : m ≠ 0)
    (present' : n ≠ 0) :
    makeRoom place m (place + n + offset) = makeRoom place n (place + m + offset) := by
  rw [makeRoom, makeRoom, if_neg (by omega), if_neg (by omega)]
  omega

namespace Qualification

variable {scope : Scope} {plan : ImportPlan} {move : Nat → Nat}

def Finding.at (word : Occurrence) (finding : Finding) : Finding :=
  { finding with rewrite := finding.rewrite.map (·.at word) }

private theorem renameOf_at (word word' : Occurrence) (symbol : Symbol) :
    Scope.renameOf word' symbol = (Scope.renameOf word symbol).at word' := by
  cases renamed : symbol.isRenamed <;> simp [Scope.renameOf, Finding.at, Rewrite.at, renamed]

private theorem inspect_moved (identifier : Identifier) :
    scope.inspect (identifier.moved move) =
      (scope.inspect identifier).at (identifier.word.moved move) := by
  obtain ⟨word, site⟩ := identifier
  have name (word : Occurrence) : (word.moved move).name = word.name := rfl
  cases site with
  | reference =>
    simp only [Identifier.moved, Site.moved, Scope.inspect, Scope.reference, name]
    cases scope.table.symbol? word.name with
    | none => rfl
    | some symbol =>
      dsimp only
      split_ifs
      · exact renameOf_at _ _ _
      · cases scope.table.package? symbol.package <;> rfl
  | declaration kind =>
    simp only [Identifier.moved, Site.moved, Scope.inspect, Scope.declaration, name]
    cases scope.table.symbol? word.name with
    | none => rfl
    | some symbol =>
      dsimp only
      split_ifs
      · exact renameOf_at _ _ _
      all_goals rfl
  | selected qualifier =>
    cases qualifier with
    | none => rfl
    | some qualifier =>
      simp only [Identifier.moved, Site.moved, Option.map_some, Scope.inspect, Scope.selected,
        name]
      split_ifs
      · rfl
      · cases scope.packageOf? qualifier.name with
        | none => rfl
        | some package =>
          dsimp only
          split_ifs <;> simp [Finding.at, Function.comp_def, Rewrite.at]

private theorem respelling?_moved (identifier : Identifier) :
    scope.respelling? plan (identifier.moved move) = scope.respelling? plan identifier := by
  have place (word : Occurrence) (rewrite : Rewrite) :
      (rewrite.at word).respelling? plan = rewrite.respelling? plan := by
    cases rewrite <;> rfl
  simp only [Scope.respelling?, inspect_moved, Finding.at, Option.bind_map, Function.comp_def,
    place]

private theorem declaredNames_moved (sites : List Identifier) :
    declaredNames (sites.map (·.moved move)) = declaredNames sites := by
  have hides (site : Site) : hidesImports (site.moved move) = hidesImports site := by
    cases site <;> rfl
  simp only [declaredNames, List.filter_map, List.map_map, Function.comp_def, Identifier.moved,
    hides]
  rfl

private theorem needs_moved (sites : List Identifier) :
    ((sites.map (·.moved move)).map scope.inspect).filterMap (·.need) =
      (sites.map scope.inspect).filterMap (·.need) := by
  simp only [List.filterMap_map, Function.comp_def, inspect_moved, Finding.at]

private theorem spellings_moved (sites : List Identifier) :
    (scope.spellings plan (sites.map (·.moved move))).map Prod.snd =
      (scope.spellings plan sites).map Prod.snd := by
  simp only [Scope.spellings, List.filterMap_map, List.map_filterMap, Function.comp_def,
    respelling?_moved, Option.map_map]

/-- What a qualification reports about the identifiers of a file. -/
def Scope.report (scope : Scope) (plan : ImportPlan) (sites : List Identifier) : Qualification where
  qualified := ((scope.spellings plan sites).filter (·.2.qualifier.isSome)).length
  renamed := ((scope.spellings plan sites).filter (·.2.qualifier.isNone)).length
  imports := plan.additions
  warnings := scope.selfImport ++ (sites.map scope.inspect).filterMap (·.warning)

private theorem report_moved (sites : List Identifier) :
    scope.report plan (sites.map (·.moved move)) = scope.report plan sites := by
  have count (p : Respelling → Bool) (choice : List (Occurrence × Respelling)) :
      (choice.filter (p ·.2)).length = ((choice.map Prod.snd).filter p).length := by
    rw [List.filter_map, List.length_map]
    rfl
  have warnings : ((sites.map (·.moved move)).map scope.inspect).filterMap (·.warning) =
      (sites.map scope.inspect).filterMap (·.warning) := by
    simp only [List.filterMap_map, Function.comp_def, inspect_moved, Finding.at]
  rw [Scope.report, Scope.report, warnings, count (·.qualifier.isSome),
    count (·.qualifier.isNone), count (·.qualifier.isSome), count (·.qualifier.isNone),
    spellings_moved]

private theorem swap_moved (injective : Function.Injective move) (sites : List Identifier)
    (word : Occurrence) :
    scope.swap plan (sites.map (·.moved move)) (word.moved move) = scope.swap plan sites word := by
  have same (identifier : Identifier) :
      (identifier.moved move).word = word.moved move ↔ identifier.word = word := by
    obtain ⟨⟨start, text⟩, site⟩ := identifier
    obtain ⟨start', text'⟩ := word
    simp [Identifier.moved, Occurrence.moved, injective.eq_iff]
  simp only [Scope.swap, List.find?_map, Function.comp_def, same, Option.bind_map,
    respelling?_moved]

end Qualification

namespace Span

private theorem kind_of_literal {token : Token} (literal : (ofToken token).kind = .literal) :
    token.kind = .literal := by
  cases kind : token.kind <;> simp [ofToken, kind] at literal ⊢

private theorem kind_of_comment {token : Token} (comment : (ofToken token).kind = .comment) :
    token.kind = .comment := by
  cases kind : token.kind <;> simp [ofToken, kind] at comment ⊢

/-- Whether a span stands among others right behind a text. -/
def StandsBehind (front : Text) (span : Span) (spans : List Span) : Prop :=
  ∃ before after, spans = before ++ span :: after ∧ texts before = front

end Span

namespace SourceFile

open Qualification

section Twins

variable {config : Config} {table : Table} {home : Option Package} {file other : SourceFile}
  {outline outline' : Outline} {place : Nat}

private theorem HasOutline.exists_differ (has : file.HasOutline outline)
    (has' : other.HasOutline outline') {kind : Span.Kind} {front rear x y : Text}
    (text : file.text = front ++ x ++ rear) (text' : other.text = front ++ y ++ rear)
    (stands : Span.StandsBehind front ⟨kind, x⟩ file.spans)
    (stands' : Span.StandsBehind front ⟨kind, y⟩ other.spans)
    (unread : kind = .literal ∨ kind = .comment) :
    ∃ a b before after, a.text = x ∧ b.text = y ∧
      Outline.Silent a b ∧ Outline.Differ a b (Text.byteSize front) outline outline' ∧
      Span.texts before = front ∧ file.spans = before ++ ⟨kind, x⟩ :: after ∧
      other.spans = before ++ ⟨kind, y⟩ :: after := by
  obtain ⟨before, after, split, rfl⟩ := stands
  obtain ⟨before', after', split', same⟩ := stands'
  obtain ⟨a, ahead, behind, isX, tokens, ahead_text, fill⟩ :=
    Outline.exists_differ (has.spans.symm.trans split) unread
  obtain ⟨b, ahead', behind', isY, tokens', ahead_text', -⟩ :=
    Outline.exists_differ (has'.spans.symm.trans split') unread
  have silent : Outline.Silent a b := by
    have kindX := congrArg Span.kind isX
    have kindY := congrArg Span.kind isY
    rcases unread with rfl | rfl
    · have literal := Span.kind_of_literal kindX
      exact ⟨(Span.kind_of_literal kindY).trans literal.symm, .inl literal⟩
    · have comment := Span.kind_of_comment kindX
      exact ⟨(Span.kind_of_comment kindY).trans comment.symm, .inr comment⟩
  have textX : a.text = x := congrArg Span.text isX
  have textY : b.text = y := congrArg Span.text isY
  have stand := has.stand
  have stand' := has'.stand
  rw [tokens] at stand
  rw [tokens'] at stand'
  -- What is read before and behind the token is the same, because the texts there are.
  have aheadSame : ahead' = ahead :=
    (Token.stand_append_iff.1 stand).1.eq_of_texts (Token.stand_append_iff.1 stand').1
      (by rw [ahead_text, ahead_text', same])
  have behindSame : behind' = behind := by
    refine (Token.stand_append_iff.1 stand).2.1.2.eq_of_texts
      (Token.stand_append_iff.1 stand').2.1.2 ?_
    rw [has.text, tokens, Token.texts_append, Token.texts_cons, ahead_text, textX] at text
    rw [has'.text, tokens', Token.texts_append, Token.texts_cons, ahead_text', same, textY] at text'
    have rearX : Token.texts behind = rear := by simpa using text
    have rearY : Token.texts behind' = rear := by simpa using text'
    rw [rearX, rearY]
  subst aheadSame behindSame
  obtain ⟨twin, differ, twinTokens, twinSpans⟩ := fill b
  have formed := differ.isWellFormed silent has.formed
  obtain rfl : twin = outline' := by
    have read := Outline.ofTokens_eq_ok_iff.2 ⟨rfl, formed⟩
    have read' := Outline.ofTokens_eq_ok_iff.2 ⟨rfl, has'.formed⟩
    rw [twinTokens] at read
    rw [tokens'] at read'
    exact Except.ok.inj (read.symm.trans read')
  rw [ahead_text] at differ
  refine ⟨a, b, before, after, textX, textY, silent, differ, rfl, split, ?_⟩
  rw [has'.spans, twinSpans, isY]

theorem HasOutline.imports_of_eq (has : file.HasOutline outline) (has' : other.HasOutline outline')
    (same : outline'.imports = outline.imports) {imports : List Import}
    (read : file.imports = .ok imports) : other.imports = .ok imports := by
  have readable := has.readable read
  rw [← same] at readable
  obtain ⟨imports', read', -⟩ := has'.imports_ok_iff.2 readable
  rw [read', has.eq_specsFrom read, has'.eq_specsFrom read', same]

private theorem text_of_qualify {imports : List Import} {plan : ImportPlan} {qualified : SourceFile}
    {result : Qualification} (current : file.IsCurrent) (has : file.HasOutline outline)
    (read : file.imports = .ok imports) (planned : file.importPlan table home = .ok plan)
    (done : file.qualify table home = .ok (qualified, result)) :
    qualified.text =
      Token.texts (Span.respellBody (file.swap table home imports plan) outline).tokens := by
  obtain ⟨⟨changed, edited⟩, -⟩ := qualify_eq_ok read planned done
  have spliced := @splice_edits table home file imports plan outline current has
  rw [(edit_eq_ok current.scanned spliced edited).1, ← Token.texts_append]
  rfl

private theorem result_of_qualify {imports : List Import} {plan : ImportPlan}
    {qualified : SourceFile} {result : Qualification} (read : file.imports = .ok imports)
    (planned : file.importPlan table home = .ok plan)
    (done : file.qualify table home = .ok (qualified, result)) :
    result = (file.scope table home imports).report plan file.sites := by
  rw [qualify_eq read planned] at done
  cases made : file.edit ((file.scope table home imports).edits plan file.sites) with
  | error e =>
    rw [made] at done
    cases done
  | ok outcome =>
    rw [made] at done
    cases done
    rfl

private theorem sites_moved {before after : List Span} {x y : Span} (alike : x.Alike y)
    (spans : file.spans = before ++ x :: after) (spans' : other.spans = before ++ y :: after)
    (present : Text.byteSize x.text ≠ 0) (present' : Text.byteSize y.text ≠ 0) :
    other.sites.map (·.moved (makeRoom (Text.byteSize (Span.texts before))
        (Text.byteSize x.text))) =
      file.sites.map (·.moved (makeRoom (Text.byteSize (Span.texts before))
        (Text.byteSize y.text))) := by
  rw [sites, sites, spans, spans']
  refine Site.classify_alike alike (fun offset bound => ?_) (fun offset _ => ?_)
  · rw [makeRoom_of_le bound, makeRoom_of_le bound]
  · exact makeRoom_behind _ _ present present'

section Moved

variable {imports : List Import} {plan : ImportPlan} {move move' : Nat → Nat}

private theorem scope_of_moved
    (roles : other.sites.map (·.moved move') = file.sites.map (·.moved move)) :
    other.scope table home imports = file.scope table home imports := by
  have declared : declaredNames other.sites = declaredNames file.sites := by
    rw [← @declaredNames_moved move' other.sites, roles, declaredNames_moved]
  rw [scope, scope, declared]

private theorem importPlan_of_moved
    (roles : other.sites.map (·.moved move') = file.sites.map (·.moved move))
    (read : file.imports = .ok imports) (read' : other.imports = .ok imports) :
    other.importPlan table home = file.importPlan table home := by
  have scopes := @scope_of_moved table home file other imports move move' roles
  have needed : other.needed (file.scope table home imports) =
      file.needed (file.scope table home imports) := by
    rw [SourceFile.needed, SourceFile.needed, ← @needs_moved _ move' other.sites, roles,
      needs_moved]
  rw [importPlan_eq read, importPlan_eq read', scopes, needed]
  exact congrArg _ (congrArg Scope.declared scopes)

private theorem report_of_moved
    (roles : other.sites.map (·.moved move') = file.sites.map (·.moved move)) :
    (other.scope table home imports).report plan other.sites =
      (file.scope table home imports).report plan file.sites := by
  rw [scope_of_moved roles, ← @report_moved _ plan move' other.sites, roles, report_moved]

private theorem swap_of_moved (injective : Function.Injective move)
    (injective' : Function.Injective move')
    (roles : other.sites.map (·.moved move') = file.sites.map (·.moved move)) {m n : Nat}
    (same : move' n = move m) (text : Text) :
    other.swap table home imports plan ⟨n, text⟩ = file.swap table home imports plan ⟨m, text⟩ := by
  have place : Occurrence.moved move' ⟨n, text⟩ = Occurrence.moved move ⟨m, text⟩ := by
    rw [Occurrence.moved, Occurrence.moved, same]
  rw [swap, swap, scope_of_moved roles, ← swap_moved injective file.sites,
    ← swap_moved injective' other.sites, roles, place]

end Moved

end Twins

private theorem qualify_of_differ {config : Config} {table : Table} {home : Option Package}
    {file other : SourceFile} {outline outline' : Outline} {imports : List Import}
    {plan : ImportPlan} {move move' : Nat → Nat}
    (loaded : Table.load config = .ok table) (current : file.IsCurrent)
    (current' : other.IsCurrent) (has : file.HasOutline outline)
    (has' : other.HasOutline outline') (read : file.imports = .ok imports)
    (read' : other.imports = .ok imports) (planned : file.importPlan table home = .ok plan)
    (planned' : other.importPlan table home = .ok plan)
    (roles : other.sites.map (·.moved move') = file.sites.map (·.moved move))
    {place : Nat} (differ : Outline.Differ a b place
      (Span.respellBody (file.swap table home imports plan) outline)
      (Span.respellBody (other.swap table home imports plan) outline'))
    (silent : Outline.Silent a b) :
    (∃ qualified qualified' result front rear,
        file.qualify table home = .ok (qualified, result) ∧
        other.qualify table home = .ok (qualified', result) ∧
        qualified.text = front ++ a.text ++ rear ∧ qualified'.text = front ++ b.text ++ rear) ∨
      ∃ failure failure', file.qualify table home = .error failure ∧
        other.qualify table home = .error failure' := by
  have starts := differ.startsImport silent
  obtain ⟨front, rear, tokens, tokens'⟩ := differ.tokens
  rcases qualify_cases current loaded has read planned with
    ⟨none, qualified, result, body, done, -⟩ | ⟨opens, cause, failed⟩
  · rcases qualify_cases current' loaded has' read' planned' with
      ⟨-, qualified', result', body', done', -⟩ | ⟨opens, -⟩
    · left
      obtain rfl : result' = result := by
        rw [result_of_qualify read planned done, result_of_qualify read' planned' done',
          report_of_moved roles]
      refine ⟨qualified, qualified', result', Token.texts front, Token.texts rear, done, done',
        ?_, ?_⟩
      · rw [text_of_qualify current has read planned done, tokens, Token.texts_append,
          Token.texts_cons, List.append_assoc]
      · rw [text_of_qualify current' has' read' planned' done', tokens', Token.texts_append,
          Token.texts_cons, List.append_assoc]
    · rw [starts, none] at opens
      cases opens
  · rcases qualify_cases current' loaded has' read' planned' with
      ⟨none, -⟩ | ⟨-, cause', failed'⟩
    · rw [starts, opens] at none
      cases none
    · exact .inr ⟨_, _, failed, failed'⟩

/-- What stands inside a literal or a comment is not read. Two files whose texts are the same around
two literals, or around two comments that hold a line end or not, are both refused, or they are
qualified with the same outcome and the texts around are the same again. -/
theorem qualify_around_unread {config : Config} {table : Table} {path path' : String}
    {front rear x y : Text} {kind : Span.Kind} {file other : SourceFile}
    (loaded : Table.load config = .ok table)
    (parsed : parse path (front ++ x ++ rear) = .ok file)
    (parsed' : parse path' (front ++ y ++ rear) = .ok other)
    (stands : Span.StandsBehind front ⟨kind, x⟩ file.spans)
    (stands' : Span.StandsBehind front ⟨kind, y⟩ other.spans)
    (unread : kind = .literal ∨ kind = .comment ∧ ('\n' ∈ x ↔ '\n' ∈ y))
    (home : Option Package) :
    (∃ qualified qualified' result front' rear',
        file.qualify table home = .ok (qualified, result) ∧
        other.qualify table home = .ok (qualified', result) ∧
        qualified.text = front' ++ x ++ rear' ∧ qualified'.text = front' ++ y ++ rear') ∨
      ∃ failure failure', file.qualify table home = .error failure ∧
        other.qualify table home = .error failure' := by
  have current : file.IsCurrent := .of_parse parsed
  have current' : other.IsCurrent := .of_parse parsed'
  obtain ⟨outline, has⟩ := current.hasOutline
  obtain ⟨outline', has'⟩ := current'.hasOutline
  obtain ⟨a, b, before, after, rfl, rfl, silent, differ, rfl, spans, spans'⟩ := has.exists_differ
    has' (parse_place parsed).2 (parse_place parsed').2 stands stands' (unread.imp_right And.left)
  cases read : file.imports with
  | error cause =>
    right
    cases read' : other.imports with
    | ok imports =>
      rw [has'.imports_of_eq has differ.imports.symm read'] at read
      cases read
    | error cause' =>
      exact ⟨.ambiguous cause, .ambiguous cause', by simp only [qualify, tryQualify, read]; rfl,
        by simp only [qualify, tryQualify, read']; rfl⟩
  | ok imports =>
    have read' := has.imports_of_eq has' differ.imports read
    have alike : Span.Alike ⟨kind, a.text⟩ ⟨kind, b.text⟩ := by
      rcases unread with rfl | ⟨rfl, newline⟩
      · exact ⟨rfl, fun notLiteral => absurd rfl notLiteral, by simp⟩
      · refine ⟨rfl, fun _ notComment => absurd rfl notComment, fun _ => ?_⟩
        simp only [List.contains_eq_mem, newline]
    have present : Text.byteSize a.text ≠ 0 := mt Text.eq_nil_of_byteSize
      (Span.text_ne_nil_of_mem_ofOutline has.stand ⟨kind, a.text⟩ (by simp [← has.spans, spans]))
    have present' : Text.byteSize b.text ≠ 0 := mt Text.eq_nil_of_byteSize
      (Span.text_ne_nil_of_mem_ofOutline has'.stand ⟨kind, b.text⟩
        (by simp [← has'.spans, spans']))
    have roles := sites_moved alike spans spans' present present'
    have plans : other.importPlan table home = file.importPlan table home :=
      importPlan_of_moved roles read read'
    cases planned : file.importPlan table home with
    | error failure =>
      exact .inr ⟨failure, failure, qualify_of_importPlan_error read planned,
        qualify_of_importPlan_error read' (plans.trans planned)⟩
    | ok plan =>
      have spelled {m n : Nat} := @swap_of_moved table home file other imports plan _ _
        (makeRoom_injective _ _) (makeRoom_injective _ _) roles m n
      obtain ⟨place, respelled⟩ := differ.respellBody silent
        (fun offset bound text => spelled
          ((makeRoom_of_le bound _).trans (makeRoom_of_le bound _).symm) text)
        (fun offset text => spelled (makeRoom_behind _ offset present present') text)
      exact qualify_of_differ loaded current current' has has' read read' planned
        (plans.trans planned) roles respelled silent

/-- A file of the first package in which a literal stands between two references. -/
def wharfFile (literal : String) : SourceFile :=
  harbourFile ("package a\n\nvar x = Foo + " ++ literal ++ " + Old\n")

/-- The file around a literal with its references qualified. -/
def wharfAfter : SourceFile :=
  harbourFile "package a\n\nvar x = b.Bar + \"b.Foo\" + New\n"

def wharfEdits : List Edit :=
  [⟨19, 22, "b.Bar".toList⟩, ⟨35, 38, "New".toList⟩]

private theorem exists_wharfPlan : ∃ plan,
    (wharfFile "\"b.Foo\"").importPlan harbourTable (harbourTable.package? "a") = .ok plan ∧
      ((wharfFile "\"b.Foo\"").scope harbourTable (harbourTable.package? "a") []).edits plan
        (wharfFile "\"b.Foo\"").sites = wharfEdits := by
  have view : ((wharfFile "\"b.Foo\"").importPlan harbourTable
      (harbourTable.package? "a")).toOption.map (fun plan =>
        ((wharfFile "\"b.Foo\"").scope harbourTable (harbourTable.package? "a") []).edits plan
          (wharfFile "\"b.Foo\"").sites) = some wharfEdits := by
    decide +kernel
  exact exists_of_view view

private theorem edit_wharfFile :
    (wharfFile "\"b.Foo\"").edit wharfEdits = .ok (wharfAfter, true) :=
  edit_of_sorted (by decide +kernel) (by decide +kernel) (by decide +kernel) (by decide +kernel)

/-- Around a raw string that holds a line end, the references are qualified as they are around a
string that holds the text of one. -/
theorem wharf_qualified :
    ∃ qualified result front rear,
      (wharfFile "\"b.Foo\"").qualify harbourTable (harbourTable.package? "a") =
          .ok (wharfAfter, result) ∧
        (wharfFile "\x60\nFoo\x60").qualify harbourTable (harbourTable.package? "a") =
          .ok (qualified, result) ∧
        wharfAfter.text = front ++ "\"b.Foo\"".toList ++ rear ∧
        qualified.text = front ++ "\x60\nFoo\x60".toList ++ rear := by
  obtain ⟨plan, planned, edits⟩ := exists_wharfPlan
  have loaded : Table.load harbourConfig = .ok harbourTable :=
    Table.load_of_sorted rfl rfl rfl (by decide +kernel) rfl rfl
  have read : (wharfFile "\"b.Foo\"").imports = .ok [] := by decide +kernel
  have success := qualify_eq read planned
  simp only [edits, edit_wharfFile, Except.mapError, Except.map] at success
  have stands (literal : String)
      (split : (wharfFile literal).spans = (wharfFile literal).spans.take 12 ++
        ⟨.literal, literal.toList⟩ :: (wharfFile literal).spans.drop 13)
      (front : Span.texts ((wharfFile literal).spans.take 12) =
        "package a\n\nvar x = Foo + ".toList) :
      Span.StandsBehind "package a\n\nvar x = Foo + ".toList ⟨.literal, literal.toList⟩
        (wharfFile literal).spans :=
    ⟨_, _, split, front⟩
  obtain ⟨qualified, other, result, front, rear, done, done', text, text'⟩ |
    ⟨failure, -, failed, -⟩ := qualify_around_unread loaded
      (show parse "a/x.go" ("package a\n\nvar x = Foo + ".toList ++ "\"b.Foo\"".toList ++
        " + Old\n".toList) = .ok (wharfFile "\"b.Foo\"") by decide +kernel)
      (show parse "a/x.go" ("package a\n\nvar x = Foo + ".toList ++ "\x60\nFoo\x60".toList ++
        " + Old\n".toList) = .ok (wharfFile "\x60\nFoo\x60") by decide +kernel)
      (stands _ (by decide +kernel) (by decide +kernel))
      (stands _ (by decide +kernel) (by decide +kernel)) (.inl rfl)
      (harbourTable.package? "a")
  · rw [success] at done
    cases done
    exact ⟨other, _, front, rear, success, done', text, text'⟩
  · rw [success] at failed
    cases failed

end SourceFile

end Repackage
