import Mathlib.Data.List.Forall2
import Repackage.Proofs.Respelling

/-!
Roles of identifiers in a text whose words are spelled anew. Every identifier keeps its role, and a
reference that gets a qualifier becomes a reference to the qualifier and a selected name.
-/

set_option autoImplicit false
set_option relaxedAutoImplicit false

namespace Repackage

def Swap.qualifier? (swap : Swap) (word : Occurrence) : Option Text :=
  (swap word).bind (·.qualifier)

/-- The name that stands for a word. -/
def Swap.name (swap : Swap) (word : Occurrence) : Text :=
  (swap word).elim word.text (·.name)

theorem Swap.name_of_none {swap : Swap} {word : Occurrence} (kept : swap word = none) :
    swap.name word = word.text := by
  rw [Swap.name, kept, Option.elim_none]

theorem Swap.name_of_some {swap : Swap} {word : Occurrence} {spelling : Respelling}
    (found : swap word = some spelling) : swap.name word = spelling.name := by
  rw [Swap.name, found, Option.elim_some]

private theorem Swap.qualifier?_of_none {swap : Swap} {word : Occurrence} (kept : swap word = none)
    : swap.qualifier? word = none := by
  rw [Swap.qualifier?, kept, Option.bind_none]

theorem Swap.qualifier?_of_some {swap : Swap} {word : Occurrence} {spelling : Respelling}
    (found : swap word = some spelling) : swap.qualifier? word = spelling.qualifier := by
  rw [Swap.qualifier?, found, Option.bind_some]

theorem Swap.IsValid.name {swap : Swap} (valid : swap.IsValid) {word : Occurrence}
    (free : Word.isKeyword word.text = false) : Word.isKeyword (swap.name word) = false := by
  cases found : swap word with
  | none => rwa [Swap.name_of_none found]
  | some spelling =>
    have identifier := (valid word spelling found).2.1
    simp only [Word.isIdentifier, Bool.and_eq_true, Bool.not_eq_true'] at identifier
    rw [Swap.name_of_some found]
    exact identifier.2

theorem Swap.IsValid.qualifier {swap : Swap} (valid : swap.IsValid) {word : Occurrence}
    {qualifier : Text} (found : swap.qualifier? word = some qualifier) :
    Word.isKeyword qualifier = false := by
  obtain ⟨spelling, spelled, has⟩ := Option.bind_eq_some_iff.1 found
  have identifier := (valid word spelling spelled).2.2 qualifier has
  simp only [Word.isIdentifier, Bool.and_eq_true, Bool.not_eq_true'] at identifier
  exact identifier.2

namespace Site

def Item.spelled (item : Item) (text : Text) (start : Nat) : Item :=
  { item with text := text, start := start }

/-- The dot between a qualifier and a name. -/
def Item.dot (start : Nat) : Item :=
  ⟨.other, ['.'], start, false, true⟩

def Item.afterDot (name : Text) (start : Nat) : Item :=
  ⟨.word, name, start, false, true⟩

/-- An item under its new name, at another place. -/
def Item.renamed (swap : Swap) (start : Nat) (item : Item) : Item :=
  item.spelled (if item.isName then swap.name item.occurrence else item.text) start

/-- The items that an item becomes, wherever they stand. -/
inductive Item.Becomes (swap : Swap) : Item → List Item → Prop
  | bare {item : Item} (start : Nat) :
    (item.isName → swap.qualifier? item.occurrence = none) →
    Becomes swap item [item.renamed swap start]
  | qualified {item : Item} {qualifier : Text} (start dot last : Nat) :
    item.isName → swap.qualifier? item.occurrence = some qualifier →
    Becomes swap item
      [item.spelled qualifier start, .dot dot, .afterDot (swap.name item.occurrence) last]

theorem Item.kind_of_isName {item : Item} (isName : item.isName) : item.kind = .word := by
  simp only [Item.isName, Bool.and_eq_true, beq_iff_eq] at isName
  exact isName.1

private theorem Item.free_of_isName {item : Item} (isName : item.isName) :
    Word.isKeyword item.text = false := by
  simp only [Item.isName, Bool.and_eq_true, Bool.not_eq_true'] at isName
  exact isName.2

private theorem itemsFrom_word (newline adjacent : Bool) (start line : Nat) (word : Text)
    (rest : List Span.Located) :
    itemsFrom newline adjacent (⟨start, line, ⟨.word, word⟩⟩ :: rest) =
      ⟨.word, word, start, newline, adjacent⟩ :: itemsFrom false true rest := by
  simp [itemsFrom, Span.isBlank]

private theorem itemsFrom_dot (newline adjacent : Bool) (start line : Nat)
    (rest : List Span.Located) :
    itemsFrom newline adjacent (⟨start, line, ⟨.other, ['.']⟩⟩ :: rest) =
      ⟨.other, ['.'], start, newline, adjacent⟩ :: itemsFrom false true rest := by
  have mark : Span.isBlank ⟨.other, ['.']⟩ = false := by decide
  simp [itemsFrom, mark]

private theorem becomes_self {swap : Swap} {item : Item}
    (kept : item.kind = .word → swap item.occurrence = none) (start : Nat) :
    Item.Becomes swap item [item.spelled item.text start] := by
  have unswapped : item.isName → swap item.occurrence = none :=
    fun isName => kept (Item.kind_of_isName isName)
  have renamed : item.renamed swap start = item.spelled item.text start := by
    by_cases isName : item.isName
    · simp only [Item.renamed, isName, if_true, Swap.name_of_none (unswapped isName)]
      rfl
    · simp [Item.renamed, isName]
  rw [← renamed]
  exact .bare start fun isName => Swap.qualifier?_of_none (unswapped isName)

private theorem isName_of_swapped {swap : Swap} (valid : swap.IsValid) {item : Item}
    {spelling : Respelling} (word : item.kind = .word)
    (found : swap item.occurrence = some spelling) : item.isName := by
  have free : Word.isKeyword item.text = false := (valid _ _ found).1
  simp [Item.isName, word, free]

private theorem itemsFrom_respellFrom {swap : Swap} (valid : swap.IsValid) (newline adjacent : Bool)
    (start line start' line' : Nat) (spans : List Span) :
    ∃ chunks, List.Forall₂ (Item.Becomes swap)
        (itemsFrom newline adjacent (Span.locateFrom start line spans)) chunks ∧
      itemsFrom newline adjacent
          (Span.locateFrom start' line' (Span.respellFrom swap start spans)) = chunks.flatten := by
  induction spans generalizing newline adjacent start line start' line' with
  | nil => exact ⟨[], .nil, rfl⟩
  | cons span spans ih =>
    rw [Span.respellFrom, Span.respell, Span.locateFrom]
    split
    next kept =>
      rw [List.singleton_append, Span.locateFrom]
      by_cases skipped : span.kind = .comment ∨ span.isBlank
      · obtain ⟨chunks, becomes, same⟩ := ih (newline || span.text.contains '\n') false
          (start + Text.byteSize span.text) (line + Text.newlines span.text)
          (start' + Text.byteSize span.text) (line' + Text.newlines span.text)
        exact ⟨chunks, by simpa [itemsFrom, skipped] using becomes,
          by simpa [itemsFrom, skipped] using same⟩
      · obtain ⟨chunks, becomes, same⟩ := ih false true
          (start + Text.byteSize span.text) (line + Text.newlines span.text)
          (start' + Text.byteSize span.text) (line' + Text.newlines span.text)
        simp only [itemsFrom, skipped, if_false, same]
        refine ⟨_ :: chunks, .cons (becomes_self (fun word => ?_) start') becomes, rfl⟩
        rwa [if_pos word] at kept
    next spelling found =>
      obtain ⟨kind, text⟩ := span
      have word : kind = .word := by
        by_contra other
        simp [other] at found
      subst word
      rw [if_pos rfl] at found
      let item : Item := ⟨.word, text, start, newline, adjacent⟩
      have isName : item.isName := isName_of_swapped valid rfl found
      have name : swap.name item.occurrence = spelling.name := Swap.name_of_some found
      have qualifier : swap.qualifier? item.occurrence = spelling.qualifier :=
        Swap.qualifier?_of_some found
      rw [itemsFrom_word]
      obtain ⟨_ | front, newName⟩ := spelling
      · obtain ⟨chunks, becomes, same⟩ := ih false true
          (start + Text.byteSize text) (line + Text.newlines text)
          (start' + Text.byteSize newName) (line' + Text.newlines newName)
        refine ⟨_ :: chunks, .cons (.bare start' fun _ => qualifier) becomes, ?_⟩
        simp only [Respelling.tokens, List.map_cons, List.map_nil, Span.ofToken,
          List.singleton_append, Span.locateFrom, itemsFrom_word, same]
        simp [Item.renamed, Item.spelled, isName, name, item]
      · obtain ⟨chunks, becomes, same⟩ := ih false true
          (start + Text.byteSize text) (line + Text.newlines text)
          (start' + Text.byteSize front + Text.byteSize ['.'] + Text.byteSize newName)
          (line' + Text.newlines front + Text.newlines ['.'] + Text.newlines newName)
        refine ⟨_ :: chunks, .cons (.qualified start' (start' + Text.byteSize front)
          (start' + Text.byteSize front + Text.byteSize ['.']) isName qualifier) becomes, ?_⟩
        simp only [Respelling.tokens, List.map_cons, List.map_nil, Span.ofToken,
          List.cons_append, List.nil_append, Span.locateFrom, itemsFrom_word, itemsFrom_dot, same]
        simp [Item.spelled, Item.dot, Item.afterDot, name, item]

namespace Item

def mark? (item : Item) : Option Text :=
  if item.kind = .other then some item.text else none

theorem isMark_eq (c : Char) (item : Item) : item.isMark c = (item.mark? == some [c]) := by
  by_cases other : item.kind = .other <;> simp [isMark, mark?, other]

theorem continuesExpression_eq (item : Item) :
    item.continuesExpression =
      item.mark?.any fun text => continuesExpression ⟨.other, text, 0, false, false⟩ := by
  by_cases other : item.kind = .other
  · simp only [continuesExpression, mark?, other, if_true, Option.any_some]
  · have kind : (item.kind == .other) = false := by simpa using other
    simp only [continuesExpression, mark?, other, if_false, Option.any_none, kind, Bool.false_and]

theorem isKeyword_of_word {item : Item} (other : item.isName = false) (word : item.kind = .word) :
    Word.isKeyword item.text := by
  simpa [Item.isName, word] using other

private theorem mark?_of_isName {item : Item} (isName : item.isName) : item.mark? = none := by
  simp [mark?, kind_of_isName isName]

theorem isMark_of_isName {item : Item} (isName : item.isName) (c : Char) :
    item.isMark c = false := by
  simp [isMark_eq, mark?_of_isName isName]

theorem isMark_of_isMark {c d : Char} {item : Item} (isMark : item.isMark c) :
    item.isMark d = (c == d) := by
  rw [isMark_eq] at isMark ⊢
  simp [eq_of_beq isMark]

private theorem spelled_kind (item : Item) (text : Text) (start : Nat) :
    (item.spelled text start).kind = item.kind := rfl

private theorem spelled_text (item : Item) (text : Text) (start : Nat) :
    (item.spelled text start).text = text := rfl

private theorem dot_isMark (start : Nat) (c : Char) : (dot start).isMark c = ('.' == c) := by
  simp [isMark, dot]

private theorem afterDot_isMark (name : Text) (start : Nat) (c : Char) :
    (afterDot name start).isMark c = false := rfl

private theorem renamed_occurrence {swap : Swap} {item : Item} (isName : item.isName) (start : Nat)
    : (item.renamed swap start).occurrence = ⟨start, swap.name item.occurrence⟩ := by
  rw [renamed, if_pos isName]
  rfl

private theorem renamed_text {swap : Swap} {item : Item} (other : item.isName = false) (start : Nat)
    : (item.renamed swap start).text = item.text := by
  simp [renamed, spelled_text, other]

@[simp] theorem renamed_mark? (swap : Swap) (item : Item) (start : Nat) :
    (item.renamed swap start).mark? = item.mark? := by
  cases named : item.isName with
  | false =>
    rw [mark?, mark?, renamed_text named]
    rfl
  | true =>
    have word := kind_of_isName named
    simp [mark?, renamed, spelled_kind, word]

private theorem renamed_isName {swap : Swap} (valid : swap.IsValid) (item : Item) (start : Nat) :
    (item.renamed swap start).isName = item.isName := by
  cases named : item.isName with
  | false =>
    rw [← named, isName, isName, renamed_text named]
    rfl
  | true =>
    have free : Word.isKeyword (swap.name item.occurrence) = false :=
      valid.name (free_of_isName named)
    have word := kind_of_isName named
    simp [isName, renamed, spelled_kind, spelled_text, word, Item.free_of_isName named, free]

@[simp] theorem renamed_isMark (swap : Swap) (item : Item) (start : Nat) (c : Char) :
    (item.renamed swap start).isMark c = item.isMark c := by
  rw [isMark_eq, isMark_eq, renamed_mark?]

@[simp] theorem renamed_kind (swap : Swap) (item : Item) (start : Nat) :
    (item.renamed swap start).kind = item.kind := rfl

@[simp] theorem renamed_startsLine (swap : Swap) (item : Item) (start : Nat) :
    (item.renamed swap start).startsLine = item.startsLine := rfl

end Item

def past (earlier : List (List Item)) : List Item :=
  (earlier.map List.reverse).flatten

private theorem past_cons (chunk : List Item) (earlier : List (List Item)) :
    past (chunk :: earlier) = chunk.reverse ++ past earlier := rfl

section Before

variable {swap : Swap} {before : List Item} {earlier : List (List Item)}

private theorem previous_any (became : List.Forall₂ (Item.Becomes swap) before earlier)
    {reads : Item → Bool} (mark : ∀ a b, a.mark? = b.mark? → reads a = reads b) :
    (past earlier).head?.any reads = before.head?.any reads := by
  cases became with
  | nil => rfl
  | @cons item chunk before earlier first rest =>
    cases first with
    | bare start => exact mark _ _ (Item.renamed_mark? swap item start)
    | qualified start dot last isName qualifier =>
      exact mark _ _ (Item.mark?_of_isName isName).symm

private theorem previous_isMark (became : List.Forall₂ (Item.Becomes swap) before earlier)
    (c : Char) : (past earlier).head?.any (·.isMark c) = before.head?.any (·.isMark c) :=
  previous_any became fun a b same => by rw [Item.isMark_eq, Item.isMark_eq, same]

private theorem previous_continues (became : List.Forall₂ (Item.Becomes swap) before earlier) :
    (past earlier).head?.any Item.continuesExpression =
      before.head?.any Item.continuesExpression :=
  previous_any became fun a b same => by
    rw [Item.continuesExpression_eq, Item.continuesExpression_eq b, same]

private theorem previous_opens (became : List.Forall₂ (Item.Becomes swap) before earlier) :
    (past earlier).head?.any
        (fun item => item.isMark ';' || item.isMark '(' || item.isMark '\x7b') =
      before.head?.any fun item => item.isMark ';' || item.isMark '(' || item.isMark '\x7b' :=
  previous_any became fun a b same => by simp only [Item.isMark_eq, same]

private theorem selects_past (became : List.Forall₂ (Item.Becomes swap) before earlier) :
    selects (past earlier) = selects before := by
  cases became with
  | nil => rfl
  | cons first rest =>
    cases first with
    | bare start =>
      have previous := previous_isMark rest '.'
      simp only [past] at previous
      simp [past, selects, previous]
    | qualified start dot last isName qualifier =>
      simp [past, selects, Item.afterDot_isMark, Item.isMark_of_isName isName]

def standalone? : List Item → Option Occurrence
  | [] => none
  | word :: rest =>
    if word.isName && !rest.head?.any (·.isMark '.') then some word.occurrence else none

theorem qualifier?_cons (dot : Item) (before : List Item) :
    qualifier? (dot :: before) = standalone? before := by
  cases before <;> rfl

end Before

/-- How a role changes. The qualifier of a selected name takes its new name, and where it gets a
qualifier itself it no longer stands alone. -/
inductive Becomes (swap : Swap) : Site → Site → Prop
  | reference : Becomes swap .reference .reference
  | declaration (kind : Declared) : Becomes swap (.declaration kind) (.declaration kind)
  | unqualified : Becomes swap (.selected none) (.selected none)
  | selected {word : Occurrence} (start : Nat) : swap.qualifier? word = none →
    Becomes swap (.selected (some word)) (.selected (some ⟨start, swap.name word⟩))
  | hidden {word : Occurrence} {qualifier : Text} : swap.qualifier? word = some qualifier →
    Becomes swap (.selected (some word)) (.selected none)

theorem Becomes.refl {swap : Swap} {site : Site} (bare : ∀ word, site ≠ .selected (some word)) :
    Becomes swap site site := by
  cases site with
  | reference => exact .reference
  | declaration kind => exact .declaration kind
  | selected word =>
    cases word with
    | none => exact .unqualified
    | some word => exact absurd rfl (bare word)

private theorem standalone?_past {swap : Swap} (valid : swap.IsValid) {before : List Item}
    {earlier : List (List Item)} (became : List.Forall₂ (Item.Becomes swap) before earlier) :
    Becomes swap (.selected (standalone? before)) (.selected (standalone? (past earlier))) := by
  cases became with
  | nil => exact .unqualified
  | @cons word chunk before earlier first rest =>
    have previous := previous_isMark rest '.'
    cases first with
    | bare start bare =>
      have isName := Item.renamed_isName valid word start
      simp only [past_cons, List.reverse_singleton, List.singleton_append, standalone?, isName,
        previous]
      split_ifs with alone
      · have named : word.isName := by
          simp only [Bool.and_eq_true] at alone
          exact alone.1
        rw [Item.renamed_occurrence named]
        exact .selected start (bare named)
      · exact .unqualified
    | qualified start dot last isName qualifier =>
      have dotted (rest : List Item) : standalone?
          (.afterDot (swap.name word.occurrence) last ::
            .dot dot :: rest) = none := by
        simp [standalone?, Item.dot_isMark]
      simp only [past_cons, List.reverse_cons, List.reverse_nil, List.nil_append, List.cons_append,
        dotted]
      rw [standalone?]
      split_ifs
      · exact .hidden qualifier
      · exact .unqualified

private theorem selected_past {swap : Swap} (valid : swap.IsValid) {before : List Item}
    {earlier : List (List Item)} (became : List.Forall₂ (Item.Becomes swap) before earlier)
    (selected : selects before) :
    Becomes swap (.selected (qualifier? before)) (.selected (qualifier? (past earlier))) := by
  cases became with
  | nil => cases selected
  | cons first rest =>
    cases first with
    | bare start =>
      rw [past_cons, List.reverse_singleton, List.singleton_append, qualifier?_cons,
        qualifier?_cons]
      exact standalone?_past valid rest
    | qualified start dot last isName qualifier =>
      simp [selects, Item.isMark_of_isName isName] at selected

section After

variable {swap : Swap} {after : List Item} {later : List (List Item)}

private theorem isName_of_qualifier (valid : swap.IsValid) {item : Item} {qualifier : Text}
    (isName : item.isName) (found : swap.qualifier? item.occurrence = some qualifier)
    (start : Nat) : (item.spelled qualifier start).isName := by
  simp [Item.isName, Item.spelled_kind, Item.spelled_text, Item.kind_of_isName isName,
    valid.qualifier found]

private theorem next_any (valid : swap.IsValid)
    (became : List.Forall₂ (Item.Becomes swap) after later) {reads : Item → Bool}
    (view : ∀ a b, a.kind = b.kind → a.isName = b.isName → a.mark? = b.mark? →
      a.startsLine = b.startsLine → a.touches = b.touches → reads a = reads b) :
    later.flatten.head?.any reads = after.head?.any reads := by
  cases became with
  | nil => rfl
  | @cons item chunk after later first rest =>
    cases first with
    | bare start =>
      exact view _ _ rfl (Item.renamed_isName valid item start) (Item.renamed_mark? swap item start)
        rfl rfl
    | qualified start dot last isName qualifier =>
      have named := isName_of_qualifier valid isName qualifier start
      exact view _ _ rfl (named.trans isName.symm)
        ((Item.mark?_of_isName named).trans (Item.mark?_of_isName isName).symm) rfl rfl

private theorem next_isMark (valid : swap.IsValid)
    (became : List.Forall₂ (Item.Becomes swap) after later)
    (c : Char) : later.flatten.head?.any (·.isMark c) = after.head?.any (·.isMark c) :=
  next_any valid became fun a b _ _ same _ _ => by rw [Item.isMark_eq, Item.isMark_eq, same]

private theorem next_isName (valid : swap.IsValid)
    (became : List.Forall₂ (Item.Becomes swap) after later) :
    later.flatten.head?.any Item.isName = after.head?.any Item.isName :=
  next_any valid became fun _ _ _ same _ _ _ => same

theorem defines_cons (colon : Item) (rest : List Item) :
    defines (colon :: rest) =
      (colon.isMark ':' && rest.head?.any fun equals => equals.isMark '=' && equals.touches) := by
  cases rest <;> simp [defines, Bool.and_assoc]

theorem definesList_cons (comma : Item) (rest : List Item) :
    definesList (comma :: rest) =
      if comma.isMark ',' && rest.head?.any Item.isName then definesList rest.tail
      else defines (comma :: rest) := by
  cases rest <;> simp [definesList]

private theorem defines_of_isName {item : Item} (isName : item.isName) (rest : List Item) :
    defines (item :: rest) = false := by
  simp [defines_cons, Item.isMark_of_isName isName]

private theorem definesList_of_isName {item : Item} (isName : item.isName) (rest : List Item) :
    definesList (item :: rest) = false := by
  simp [definesList_cons, Item.isMark_of_isName isName, defines_of_isName isName]

private theorem defines_later (valid : swap.IsValid)
    (became : List.Forall₂ (Item.Becomes swap) after later) :
    defines later.flatten = defines after := by
  cases became with
  | nil => rfl
  | cons first rest =>
    cases first with
    | bare start =>
      have equals := next_any valid rest fun a b _ _ same _ touches =>
        show (a.isMark '=' && a.touches) = (b.isMark '=' && b.touches) by
          rw [Item.isMark_eq, Item.isMark_eq, same, touches]
      rw [List.flatten_cons, List.singleton_append, defines_cons, defines_cons, equals,
        Item.renamed_isMark]
    | qualified start dot last isName qualifier =>
      rw [defines_of_isName isName]
      exact defines_of_isName (isName_of_qualifier valid isName qualifier start) _

/-- Whether no word that gets a qualifier is one of a list of names before a definition. -/
def Fits (swap : Swap) : List Item → Prop
  | [] => True
  | item :: after =>
    (item.isName → (swap.qualifier? item.occurrence).isSome → definesList after = false) ∧
      Fits swap after

private theorem definesList_later (valid : swap.IsValid)
    (became : List.Forall₂ (Item.Becomes swap) after later) (fits : Fits swap after) :
    definesList later.flatten = definesList after := by
  induction length : after.length using Nat.strong_induction_on generalizing after later with
  | h n ih =>
    have whole := defines_later valid became
    cases became with
    | nil => rfl
    | cons first rest =>
      cases first with
      | qualified start dot last isName qualifier =>
        rw [definesList_of_isName isName]
        exact definesList_of_isName (isName_of_qualifier valid isName qualifier start) _
      | bare start =>
        rw [List.flatten_cons, List.singleton_append] at whole ⊢
        rw [definesList_cons, definesList_cons, Item.renamed_isMark, next_isName valid rest, whole]
        split_ifs with listed
        · cases rest with
          | nil => rfl
          | @cons name chunk after later second rest =>
            obtain ⟨-, free, fits⟩ := fits
            cases second with
            | bare start => exact ih after.length (by simp at length; omega) rest fits rfl
            | qualified start dot last isName qualifier =>
              rw [List.tail_cons, free isName (by simp [qualifier])]
              simp [definesList_cons, defines_cons, Item.dot_isMark, Item.afterDot_isMark]
        · rfl

end After

section Reading

variable {swap : Swap} {before after : List Item} {earlier later : List (List Item)}

private theorem keyword_past (valid : swap.IsValid)
    (behind : List.Forall₂ (Item.Becomes swap) before earlier)
    (ahead : List.Forall₂ (Item.Becomes swap) after later) (context : Context) (word : Text) :
    context.keyword (past earlier).head? word later.flatten.head? =
      context.keyword before.head? word after.head? := by
  have inExpression : (past earlier).head?.any (fun item => item.isMark '=' || item.isMark ',' ||
      item.isMark '(' || item.isMark '[' || item.isMark ':') =
      before.head?.any (fun item => item.isMark '=' || item.isMark ',' ||
      item.isMark '(' || item.isMark '[' || item.isMark ':') :=
    previous_any behind fun a b same => by simp only [Item.isMark_eq, same]
  simp only [Context.keyword, inExpression, next_isMark valid ahead, next_isName valid ahead]

private theorem identifier_past (valid : swap.IsValid)
    (behind : List.Forall₂ (Item.Becomes swap) before earlier)
    (ahead : List.Forall₂ (Item.Becomes swap) after later) (fits : Fits swap after)
    (context : Context) (item : Item) {item' : Item} (line : item'.startsLine = item.startsLine) :
    context.identifier (past earlier) item' later.flatten =
      (if selects before then .selected (qualifier? (past earlier))
        else (context.identifier before item after).1,
        (context.identifier before item after).2) := by
  have keyed : (past earlier).head?.any (fun item => item.isMark '\x7b' || item.isMark ',') =
      before.head?.any (fun item => item.isMark '\x7b' || item.isMark ',') :=
    previous_any behind fun a b same => by simp only [Item.isMark_eq, same]
  have fielded : later.flatten.head?.any (fun item =>
      !item.startsLine && item.kind != .literal && !item.isMark '.' && !item.isMark ';' &&
        !item.isMark '\x7d') =
      after.head?.any (fun item =>
      !item.startsLine && item.kind != .literal && !item.isMark '.' && !item.isMark ';' &&
        !item.isMark '\x7d') :=
    next_any valid ahead fun a b kind _ same line _ => by
      simp only [Item.isMark_eq, same, kind, line]
  simp only [Context.identifier, selects_past behind, line, previous_opens behind,
    Context.startsGroupLine, previous_continues behind, Context.namesField, fielded, Context.isKey,
    keyed, next_isMark valid ahead, defines_later valid ahead, definesList_later valid ahead fits,
    Context.passOn]
  split <;> rfl

private theorem identifier_becomes (valid : swap.IsValid)
    (behind : List.Forall₂ (Item.Becomes swap) before earlier) (context : Context) (item : Item) :
    Becomes swap (context.identifier before item after).1
      (if selects before then .selected (qualifier? (past earlier))
        else (context.identifier before item after).1) := by
  split_ifs with selected
  · have site : (context.identifier before item after).1 = .selected (qualifier? before) := by
      simp only [Context.identifier, selected, if_true]
    rw [site]
    exact selected_past valid behind selected
  · refine .refl fun word => ?_
    cases expect : context.expect with
    | some kind =>
      simp only [Context.identifier, if_neg selected, expect]
      split_ifs <;> simp
    | none =>
      simp only [Context.identifier, if_neg selected, expect]
      split_ifs <;> simp

def startsGroup (context : Context) (before : List Item) (item : Item) : Bool :=
  context.startsGroupLine before.head? (item.startsLine ||
    before.head?.any fun item => item.isMark ';' || item.isMark '(' || item.isMark '\x7b')

theorem reference_of_identifier {context : Context} {item : Item}
    (reference : (context.identifier before item after).1 = .reference) :
    selects before = false ∧ context.receiver = none ∧ context.expect = none ∧
      startsGroup context before item = false ∧ definesList after = false ∧
      (context.identifier before item after).2 =
        { context with continues := none, pending := .nothing } := by
  cases expect : context.expect with
  | some kind =>
    simp only [Context.identifier, expect] at reference
    split_ifs at reference
  | none =>
    simp only [Context.identifier, expect] at reference ⊢
    split_ifs at reference ⊢ with selected receiver group field key list
    exact ⟨by simpa using selected, by simpa using receiver, trivial, Bool.eq_false_iff.2 group,
      by simpa using list, rfl⟩

private theorem selected_of_identifier {context : Context} {item : Item}
    {qualifier : Option Occurrence}
    (selected : (context.identifier before item after).1 = .selected qualifier) :
    selects before ∧ qualifier = qualifier? before := by
  cases expect : context.expect with
  | some kind =>
    simp only [Context.identifier, expect] at selected
    split_ifs at selected with dot
    exact ⟨dot, (Site.selected.inj selected).symm⟩
  | none =>
    simp only [Context.identifier, expect] at selected
    split_ifs at selected with dot
    exact ⟨dot, (Site.selected.inj selected).symm⟩

theorem exists_of_qualified {context : Context} {item : Item} {qualifier : Occurrence}
    (qualified : (context.identifier before item after).1 = .selected (some qualifier)) :
    ∃ dot word rest, before = dot :: word :: rest ∧ dot.isMark '.' ∧ word.isName ∧
      qualifier = word.occurrence := by
  obtain ⟨selects, found⟩ := selected_of_identifier qualified
  match before with
  | [] => cases found
  | [_] => cases found
  | dot :: word :: rest =>
    rw [qualifier?] at found
    split_ifs at found with alone
    rw [Site.selects, Bool.and_eq_true] at selects
    rw [Bool.and_eq_true] at alone
    exact ⟨dot, word, rest, rfl, selects.1, alone.1, Option.some.inj found⟩

private theorem identifier_of_qualifier (behind : List.Forall₂ (Item.Becomes swap) before earlier)
    {context : Context} {item item' dot : Item} (line : item'.startsLine = item.startsLine)
    (mark : dot.mark? = some ['.']) (rest : List Item)
    (reference : (context.identifier before item after).1 = .reference) :
    context.identifier (past earlier) item' (dot :: rest) =
      (.reference, { context with continues := none, pending := .nothing }) := by
  obtain ⟨selected, receiver, expect, group, -, -⟩ := reference_of_identifier reference
  have group' : context.startsGroupLine (past earlier).head? (item'.startsLine ||
      (past earlier).head?.any fun item => item.isMark ';' || item.isMark '(' ||
        item.isMark '\x7b') = false := by
    rw [line, previous_opens behind, Context.startsGroupLine, previous_continues behind]
    exact group
  have isDot (c : Char) : dot.isMark c = ('.' == c) := by
    rw [Item.isMark_eq, mark]
    simp
  have next : definesList (dot :: rest) = false := by
    simp [definesList_cons, defines_cons, isDot]
  simpa [Context.identifier, selects_past behind, selected, receiver, expect, next,
    Context.namesField, Context.isKey, isDot, Context.startsGroupLine] using group'

end Reading

end Site

/-- The identifiers that an identifier becomes, wherever they stand. -/
inductive Identifier.Becomes (swap : Swap) : Identifier → List Identifier → Prop
  | bare {word : Occurrence} {site site' : Site} (start : Nat) : swap.qualifier? word = none →
    site.Becomes swap site' → Becomes swap ⟨word, site⟩ [⟨⟨start, swap.name word⟩, site'⟩]
  | qualified {word : Occurrence} {qualifier : Text} {outer : Option Occurrence}
    (start last : Nat) : swap.qualifier? word = some qualifier →
    (∀ front ∈ outer, front.text = qualifier) →
    Becomes swap ⟨word, .reference⟩
      [⟨⟨start, qualifier⟩, .reference⟩, ⟨⟨last, swap.name word⟩, .selected outer⟩]

namespace Site

private theorem read_of_isName {context : Context} {before after : List Item} {item : Item}
    (isName : item.isName) :
    context.read before item after =
      (some (context.identifier before item after).1,
        (context.identifier before item after).2) := by
  simp [Context.read, Item.kind_of_isName isName, Item.free_of_isName isName]

theorem read_mark {context : Context} {before after : List Item} {item : Item} {c : Char}
    (mark : item.isMark c) :
    context.read before item after = (none, context.punctuation [c]) := by
  obtain ⟨kind, text⟩ : item.kind = .other ∧ item.text = [c] := by simpa [Item.isMark] using mark
  simp [Context.read, kind, text]

theorem read_silent {context : Context} {before after : List Item} {item : Item}
    (other : item.isName = false) : (context.read before item after).1 = none := by
  simp only [Context.read]
  split
  next word => simp [Item.isKeyword_of_word other word]
  · rfl
  · rfl

private theorem read_renamed {swap : Swap} (valid : swap.IsValid) {before after : List Item}
    {earlier later : List (List Item)} (behind : List.Forall₂ (Item.Becomes swap) before earlier)
    (ahead : List.Forall₂ (Item.Becomes swap) after later) (context : Context) {item : Item}
    (other : item.isName = false) (start : Nat) :
    context.read (past earlier) (item.renamed swap start) later.flatten =
      context.read before item after := by
  simp only [Context.read, Item.renamed_kind, Item.renamed_text other,
    keyword_past valid behind ahead]
  split
  next word => simp [Item.isKeyword_of_word other word]
  · rfl
  · rfl

theorem classifyFrom_of_isName {context : Context} {before after : List Item} {item : Item}
    (isName : item.isName) :
    classifyFrom context before (item :: after) =
      ⟨item.occurrence, (context.identifier before item after).1⟩ ::
        classifyFrom (context.identifier before item after).2 (item :: before) after := by
  rw [classifyFrom, read_of_isName isName]

theorem classifyFrom_of_silent {context : Context} {before after : List Item} {item : Item}
    (silent : (context.read before item after).1 = none) :
    classifyFrom context before (item :: after) =
      classifyFrom (context.read before item after).2 (item :: before) after := by
  rw [classifyFrom]
  split
  next site next found => simp [found] at silent
  next next found => rw [found]

private theorem classifyFrom_dot {context : Context} (expect : context.expect = none) {front : Item}
    (named : front.isName) {name : Text} (free : Word.isKeyword name = false) (dot last : Nat)
    (before rest : List Item) :
    let cleared : Context := { context with continues := none, pending := .nothing }
    classifyFrom cleared (front :: before) (.dot dot :: .afterDot name last :: rest) =
      ⟨⟨last, name⟩, .selected (standalone? (front :: before))⟩ ::
        classifyFrom cleared (.afterDot name last :: .dot dot :: front :: before) rest := by
  intro cleared
  have isName : (Item.afterDot name last).isName := by simp [Item.isName, Item.afterDot, free]
  have quiet (more : List Item) :
      cleared.read (front :: before) (.dot dot) more = (none, cleared) := by
    simp [Context.read, Context.punctuation, Item.dot, cleared, expect]
  have selected : selects (.dot dot :: front :: before) := by
    simp [selects, Item.dot_isMark, Item.isMark_of_isName named]
  have read : cleared.read (.dot dot :: front :: before) (.afterDot name last) rest =
      (some (.selected (standalone? (front :: before))), cleared) := by
    rw [read_of_isName isName]
    simp [Context.identifier, selected, qualifier?_cons, cleared, expect]
  rw [classifyFrom_of_silent (by rw [quiet]), quiet, classifyFrom, read]
  rfl

private theorem classifyFrom_qualified {swap : Swap} (valid : swap.IsValid) {context : Context}
    {before after : List Item} {earlier : List (List Item)}
    (behind : List.Forall₂ (Item.Becomes swap) before earlier) {item : Item} {qualifier : Text}
    (isName : item.isName) (found : swap.qualifier? item.occurrence = some qualifier)
    (reference : (context.identifier before item after).1 = .reference) (start dot last : Nat)
    (rest : List Item) :
    ∃ outer : Option Occurrence, (∀ front ∈ outer, front.text = qualifier) ∧
      classifyFrom context (past earlier) (item.spelled qualifier start :: .dot dot ::
          .afterDot (swap.name item.occurrence) last :: rest) =
        ⟨⟨start, qualifier⟩, .reference⟩ ::
          ⟨⟨last, swap.name item.occurrence⟩, .selected outer⟩ ::
          classifyFrom (context.identifier before item after).2
            (.afterDot (swap.name item.occurrence) last :: .dot dot ::
              item.spelled qualifier start :: past earlier) rest := by
  obtain ⟨-, -, expect, -, -, next⟩ := reference_of_identifier reference
  have named := isName_of_qualifier valid isName found start
  have line : (item.spelled qualifier start).startsLine = item.startsLine := rfl
  have mark : (Item.dot dot).mark? = some ['.'] := rfl
  have first := identifier_of_qualifier behind line mark
    (.afterDot (swap.name item.occurrence) last :: rest) reference
  refine ⟨standalone? (item.spelled qualifier start :: past earlier), ?_, ?_⟩
  · intro front member
    simp only [standalone?, Option.mem_def, Option.ite_none_right_eq_some,
      Option.some.injEq] at member
    obtain ⟨-, rfl⟩ := member
    rfl
  · rw [classifyFrom_of_isName named, first, next,
      classifyFrom_dot expect named (valid.name (Item.free_of_isName isName))]
    rfl

private theorem classifyFrom_becomes {swap : Swap} (valid : swap.IsValid) {context : Context}
    {before after : List Item} {earlier later : List (List Item)}
    (behind : List.Forall₂ (Item.Becomes swap) before earlier)
    (ahead : List.Forall₂ (Item.Becomes swap) after later) (fits : Fits swap after)
    (references : ∀ identifier ∈ classifyFrom context before after,
      (swap.qualifier? identifier.word).isSome → identifier.site = .reference) :
    ∃ chunks, List.Forall₂ (Identifier.Becomes swap) (classifyFrom context before after) chunks ∧
      classifyFrom context (past earlier) later.flatten = chunks.flatten := by
  -- The context is the same on both sides all the way: a qualifier and its dot leave it as the bare
  -- reference did. What it does not hold is looked up in the items behind.
  induction after generalizing context before earlier later with
  | nil =>
    cases ahead
    exact ⟨[], .nil, rfl⟩
  | cons item after ih =>
    cases ahead with
    | @cons _ chunk _ later first ahead =>
      cases first with
      | bare start bare =>
        have behind' := List.Forall₂.cons (Item.Becomes.bare start bare) behind
        cases named : item.isName with
        | false =>
          have silent : (context.read before item after).1 = none := read_silent named
          have read := read_renamed valid behind ahead context named start
          rw [classifyFrom_of_silent silent] at references ⊢
          rw [List.flatten_cons, List.singleton_append, classifyFrom_of_silent (read ▸ silent),
            read]
          exact ih behind' ahead fits.2 references
        | true =>
          have renamed := (Item.renamed_isName valid item start).trans named
          have line := Item.renamed_startsLine swap item start
          rw [classifyFrom_of_isName named] at references ⊢
          obtain ⟨chunks, becomes, same⟩ := ih behind' ahead fits.2
            fun identifier member => references identifier (List.mem_cons_of_mem _ member)
          rw [List.flatten_cons, List.singleton_append, classifyFrom_of_isName renamed,
            identifier_past valid behind ahead fits.2 context item line,
            Item.renamed_occurrence named]
          refine ⟨_ :: chunks, .cons (.bare start (bare named)
            (identifier_becomes valid behind context item)) becomes, ?_⟩
          exact congrArg _ same
      | @qualified front start dot last isName qualifier =>
        have behind' := List.Forall₂.cons
          (Item.Becomes.qualified start dot last isName qualifier) behind
        rw [classifyFrom_of_isName isName] at references ⊢
        have reference : (context.identifier before item after).1 = .reference :=
          references _ List.mem_cons_self (by simp [qualifier])
        obtain ⟨chunks, becomes, same⟩ := ih behind' ahead fits.2
          fun identifier member => references identifier (List.mem_cons_of_mem _ member)
        obtain ⟨outer, spelled, read⟩ := classifyFrom_qualified valid behind isName qualifier
          reference start dot last later.flatten
        simp only [List.flatten_cons, List.cons_append, List.nil_append, read, reference]
        refine ⟨_ :: chunks, .cons (.qualified start last qualifier spelled) becomes, ?_⟩
        rw [List.flatten_cons, ← same]
        rfl

private theorem fits_of_references {swap : Swap} {context : Context} {before after : List Item}
    (references : ∀ identifier ∈ classifyFrom context before after,
      (swap.qualifier? identifier.word).isSome → identifier.site = .reference) :
    Fits swap after := by
  induction after generalizing context before with
  | nil => trivial
  | cons item after ih =>
    cases named : item.isName with
    | false =>
      rw [classifyFrom_of_silent (read_silent named)] at references
      exact ⟨fun isName => by simp [named] at isName, ih references⟩
    | true =>
      rw [classifyFrom_of_isName named] at references
      obtain ⟨here, rest⟩ := List.forall_mem_cons.1 references
      refine ⟨fun _ found => ?_, ih rest⟩
      exact (reference_of_identifier (here found)).2.2.2.2.1

theorem classify_respellFrom {swap : Swap} (valid : swap.IsValid) {spans : List Span}
    (references : ∀ identifier ∈ classify spans,
      (swap.qualifier? identifier.word).isSome → identifier.site = .reference) :
    ∃ chunks, List.Forall₂ (Identifier.Becomes swap) (classify spans) chunks ∧
      classify (Span.respellFrom swap 0 spans) = chunks.flatten := by
  obtain ⟨later, ahead, same⟩ := itemsFrom_respellFrom valid true false 0 1 0 1 spans
  rw [classify, classify, items, items, Span.locate, Span.locate, same]
  exact classifyFrom_becomes valid .nil ahead (fits_of_references references) references

private theorem classifyFrom_words (context : Context) (before after : List Item) :
    (classifyFrom context before after).map (·.word) =
      (after.filter Item.isName).map Item.occurrence := by
  induction after generalizing context before with
  | nil => rfl
  | cons item after ih =>
    cases named : item.isName with
    | false =>
      rw [classifyFrom_of_silent (read_silent named), ih,
        List.filter_cons_of_neg (by simp [named])]
    | true =>
      rw [classifyFrom_of_isName named, List.map_cons, ih, List.filter_cons_of_pos named,
        List.map_cons]

/-- The context in which the items behind some others are read. -/
def Context.behind (context : Context) (before : List Item) : List Item → List Item → Context
  | [], _ => context
  | item :: front, after =>
    (context.read before item (front ++ after)).2.behind (item :: before) front after

theorem Context.behind_append (context : Context) (before a b after : List Item) :
    context.behind before (a ++ b) after =
      (context.behind before a (b ++ after)).behind (a.reverse ++ before) b after := by
  induction a generalizing context before with
  | nil => rfl
  | cons item a ih =>
    rw [List.cons_append, Context.behind, ih, Context.behind, List.append_assoc, List.reverse_cons,
      List.append_assoc, List.singleton_append]

theorem suffix_classifyFrom (context : Context) (before front after : List Item) :
    classifyFrom (context.behind before front after) (front.reverse ++ before) after <:+
      classifyFrom context before (front ++ after) := by
  induction front generalizing context before with
  | nil => exact List.suffix_rfl
  | cons first front ih =>
    have rest := ih (context.read before first (front ++ after)).2 (first :: before)
    rw [List.cons_append, List.reverse_cons, List.append_assoc, Context.behind, classifyFrom]
    split
    next site next read =>
      rw [read] at rest ⊢
      exact rest.trans (List.suffix_cons _ _)
    next next read =>
      rw [read] at rest ⊢
      exact rest

theorem mem_classifyFrom_iff {context : Context} {before after : List Item}
    {identifier : Identifier} :
    identifier ∈ classifyFrom context before after ↔
      ∃ front item rest, after = front ++ item :: rest ∧ item.isName ∧ identifier =
        ⟨item.occurrence, ((context.behind before front (item :: rest)).identifier
          (front.reverse ++ before) item rest).1⟩ := by
  constructor
  · intro member
    induction after generalizing context before with
    | nil => cases member
    | cons item after ih =>
      cases named : item.isName with
      | false =>
        rw [classifyFrom_of_silent (read_silent named)] at member
        obtain ⟨front, found, rest, rfl, isName, same⟩ := ih member
        exact ⟨item :: front, found, rest, rfl, isName, by simpa [Context.behind] using same⟩
      | true =>
        rw [classifyFrom_of_isName named] at member
        rcases List.mem_cons.1 member with rfl | later
        · exact ⟨[], item, after, rfl, named, rfl⟩
        · obtain ⟨front, found, rest, rfl, isName, same⟩ := ih later
          refine ⟨item :: front, found, rest, rfl, isName, ?_⟩
          simpa [Context.behind, read_of_isName named] using same
  · rintro ⟨front, item, rest, rfl, named, rfl⟩
    refine (suffix_classifyFrom context before front (item :: rest)).subset ?_
    rw [classifyFrom_of_isName named]
    exact List.mem_cons_self

end Site

namespace Span

/-- The names among spans, the first span starting at an offset. -/
def namesFrom (start : Nat) : List Span → List Occurrence
  | [] => []
  | span :: spans =>
    if span.kind = .word ∧ Word.isKeyword span.text = false then
      ⟨start, span.text⟩ :: namesFrom (start + Text.byteSize span.text) spans
    else namesFrom (start + Text.byteSize span.text) spans

theorem namesFrom_start_le {start : Nat} {spans : List Span} :
    ∀ word ∈ namesFrom start spans, start ≤ word.start ∧ Word.isKeyword word.text = false := by
  induction spans generalizing start with
  | nil => simp [namesFrom]
  | cons span spans ih =>
    have later : ∀ word ∈ namesFrom (start + Text.byteSize span.text) spans,
        start ≤ word.start ∧ Word.isKeyword word.text = false := fun word member =>
      ⟨Nat.le_of_add_right_le (ih word member).1, (ih word member).2⟩
    rw [namesFrom]
    split_ifs with name
    · exact List.forall_mem_cons.2 ⟨⟨le_rfl, name.2⟩, later⟩
    · exact later

theorem namesFrom_sorted {start : Nat} {spans : List Span}
    (whole : ∀ span ∈ spans, span.kind = .word → span.text ≠ []) :
    (namesFrom start spans).Pairwise fun a b => a.start < b.start := by
  induction spans generalizing start with
  | nil => exact .nil
  | cons span spans ih =>
    obtain ⟨first, rest⟩ := List.forall_mem_cons.1 whole
    rw [namesFrom]
    split_ifs with name
    · refine List.pairwise_cons.2 ⟨fun word member => ?_, ih rest⟩
      have bound := (namesFrom_start_le word member).1
      have positive : 0 < Text.byteSize span.text := by
        cases text : span.text with
        | nil => exact absurd text (first name.1)
        | cons c cs =>
          have size := c.utf8Size_pos
          rw [Text.byteSize]
          omega
      simp only
      omega
    · exact ih rest

theorem editsFrom_eq {swap : Swap}
    (names : ∀ word spelling, swap word = some spelling → Word.isKeyword word.text = false)
    (start : Nat) (spans : List Span) :
    editsFrom swap start spans = (namesFrom start spans).filterMap fun word =>
      (swap word).map fun spelling =>
        (⟨word.start, word.stop, Token.texts spelling.tokens⟩ : Edit) := by
  induction spans generalizing start with
  | nil => rfl
  | cons span spans ih =>
    rw [editsFrom, namesFrom, ih]
    by_cases word : span.kind = .word
    · rw [if_pos word]
      cases found : swap ⟨start, span.text⟩ with
      | none => split_ifs <;> simp [found]
      | some spelling =>
        have free : Word.isKeyword span.text = false := names _ _ found
        simp [word, free, found, Occurrence.stop]
    · simp [word]

end Span

namespace Site

private theorem itemsFrom_names (newline adjacent : Bool) (start line : Nat) (spans : List Span) :
    ((itemsFrom newline adjacent (Span.locateFrom start line spans)).filter Item.isName).map
      Item.occurrence = Span.namesFrom start spans := by
  induction spans generalizing newline adjacent start line with
  | nil => rfl
  | cons span spans ih =>
    rw [Span.locateFrom, itemsFrom, Span.namesFrom]
    split_ifs with skipped name name
    · obtain comment | blank := skipped
      · simp [name.1] at comment
      · simp [Span.isBlank, name.1] at blank
    · exact ih _ _ _ _
    · simp [Item.isName, name, ih, Item.occurrence]
    · rw [List.filter_cons_of_neg (by simpa [Item.isName] using name), ih]

theorem classify_words (spans : List Span) :
    (classify spans).map (·.word) = Span.namesFrom 0 spans :=
  (classifyFrom_words _ _ _).trans (itemsFrom_names _ _ _ _ _)

end Site

end Repackage
