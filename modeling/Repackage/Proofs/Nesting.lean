import Repackage.Proofs.Sites

/-!
Brackets and what the classification remembers of them. Groups, bodies and receiver lists are noted
by the depths at which they were opened, and a closing bracket ends those noted at its own depth. A
row of items whose brackets are nested leaves all of this as it found it, since inside a pair of
brackets every depth is greater than outside.
-/

set_option autoImplicit false
set_option relaxedAutoImplicit false

namespace Repackage.Site

def Item.isBracket (item : Item) : Bool :=
  item.isMark '(' || item.isMark ')' || item.isMark '\x7b' || item.isMark '\x7d'

/-- Whether the brackets among items are nested: they come in pairs, and each pair holds items whose
brackets are nested. -/
inductive IsNested : List Item → Prop
  | nil : IsNested []
  | single {item : Item} : item.isBracket = false → IsNested [item]
  | append {a b : List Item} : IsNested a → IsNested b → IsNested (a ++ b)
  | parens {opening closing : Item} {inside : List Item} : opening.isMark '(' →
    closing.isMark ')' → IsNested inside → IsNested (opening :: (inside ++ [closing]))
  | braces {opening closing : Item} {inside : List Item} : opening.isMark '\x7b' →
    closing.isMark '\x7d' → IsNested inside → IsNested (opening :: (inside ++ [closing]))

/-- Whether items close the brackets that wait for the given marks, innermost first, and all those
that they open themselves. -/
def closes : List Char → List Item → Bool
  | marks, [] => marks.isEmpty
  | marks, item :: rest =>
    if item.isMark '(' then closes (')' :: marks) rest
    else if item.isMark '\x7b' then closes ('\x7d' :: marks) rest
    else if item.isBracket then marks.head?.any (item.isMark ·) && closes marks.tail rest
    else closes marks rest

private theorem IsNested.closes_append {front : List Item} (nested : IsNested front)
    (marks : List Char) (rest : List Item) : closes marks (front ++ rest) = closes marks rest := by
  induction nested generalizing marks rest with
  | nil => rfl
  | single plain =>
    have unmarked := plain
    simp only [Item.isBracket, Bool.or_eq_false_iff, and_assoc] at unmarked
    simp [closes, plain, unmarked]
  | append _ _ first second => rw [List.append_assoc, first, second]
  | @parens opening closing inside opens ends _ ih =>
    rw [List.cons_append, List.append_assoc, closes, if_pos opens, ih]
    simp [closes, Item.isBracket, Item.isMark_of_isMark ends]
  | @braces opening closing inside opens ends _ ih =>
    have paren : opening.isMark '(' = false := Item.isMark_of_isMark opens
    rw [List.cons_append, List.append_assoc, closes, if_neg (by simp [paren]), if_pos opens, ih]
    simp [closes, Item.isBracket, Item.isMark_of_isMark ends]

def IsCutBy : List Char → List Item → Prop
  | [], items => IsNested items
  | mark :: marks, items =>
    ∃ inside closing outside, items = inside ++ closing :: outside ∧ IsNested inside ∧
      closing.isMark mark ∧ IsCutBy marks outside

theorem IsCutBy.behind {marks : List Char} {front rest : List Item} (nested : IsNested front)
    (cut : IsCutBy marks rest) : IsCutBy marks (front ++ rest) := by
  cases marks with
  | nil => exact nested.append cut
  | cons mark marks =>
    obtain ⟨inside, closing, outside, rfl, nested', closed, cut⟩ := cut
    exact ⟨front ++ inside, closing, outside, by simp, nested.append nested', closed, cut⟩

private theorem isCutBy_of_closes {marks : List Char} {items : List Item}
    (closed : closes marks items) : IsCutBy marks items := by
  induction items generalizing marks with
  | nil =>
    obtain rfl : marks = [] := by simpa [closes] using closed
    exact .nil
  | cons item rest ih =>
    rw [closes] at closed
    split_ifs at closed with paren brace bracket
    · obtain ⟨inside, closing, outside, rfl, nested, ends, cut⟩ := ih closed
      simpa using cut.behind (.parens paren ends nested)
    · obtain ⟨inside, closing, outside, rfl, nested, ends, cut⟩ := ih closed
      simpa using cut.behind (.braces brace ends nested)
    · cases marks with
      | nil => cases closed
      | cons mark marks =>
        obtain ⟨ends, closed⟩ := Bool.and_eq_true_iff.1 closed
        exact ⟨[], item, rest, rfl, .nil, ends, ih closed⟩
    · exact (ih closed).behind (.single (by simpa using bracket))

private theorem isNested_iff {items : List Item} : IsNested items ↔ closes [] items :=
  ⟨fun nested => by simpa [closes] using nested.closes_append [] [], isCutBy_of_closes⟩

instance : DecidablePred IsNested := fun _ =>
  decidable_of_iff _ isNested_iff.symm

/-- What is open at a place of a text. -/
structure Nesting where
  braces : Nat
  parens : Nat
  groups : List (Nat × Nat)
  bodies : List Nat
  receiver : Option Nat

/-- Whether the bodies that are noted as open lie in each other and enclose the present place. -/
structure Nesting.IsLayered (nesting : Nesting) : Prop where
  descending : nesting.bodies.Pairwise (· > ·)
  within : ∀ depth ∈ nesting.bodies, 1 ≤ depth ∧ depth ≤ nesting.braces

namespace Context

def nesting (context : Context) : Nesting :=
  ⟨context.braces, context.parens, context.groups, context.bodies, context.receiver⟩

/-- Whether the groups and the receiver list that are noted as open were opened at a depth up to the
present one, and a receiver list is only awaited outside of parentheses. -/
structure IsBounded (context : Context) : Prop where
  groups : ∀ group ∈ context.groups, group.1 ≤ context.parens
  receiver : ∀ depth ∈ context.receiver, 1 ≤ depth ∧ depth ≤ context.parens
  pending : context.pending = .receiver → context.parens = 0

variable {context reached : Context} {before after : List Item} {item : Item}

private theorem nesting_keyword (previous : Option Item) (word : Text) (next : Option Item) :
    (context.keyword previous word next).nesting = context.nesting := by
  unfold keyword
  dsimp only
  split_ifs <;> rfl

private theorem exists_identifier : ∃ expect continues, (context.identifier before item after).2 =
    { context with expect := expect, continues := continues, pending := .nothing } := by
  have passOn (context : Context) (kind : Declared) (next : Option Item) : ∃ continues,
      context.passOn kind next = { context with continues := continues } := by
    rw [Context.passOn]
    split_ifs
    · exact ⟨some kind, rfl⟩
    · exact ⟨context.continues, rfl⟩
  unfold identifier
  dsimp only
  split
  · exact ⟨none, none, rfl⟩
  · split
    · exact ⟨context.expect, none, rfl⟩
    · split
      next kind _ =>
        obtain ⟨continues, same⟩ := passOn
          { context with expect := none, continues := none, pending := .nothing } kind after.head?
        exact ⟨none, continues, same⟩
      · have further (kind : Declared) := passOn
          { context with continues := none, pending := .nothing } kind after.head?
        split_ifs
        · obtain ⟨continues, same⟩ := further (declaredAt context.braces)
          exact ⟨context.expect, continues, same⟩
        · obtain ⟨continues, same⟩ := further .field
          exact ⟨context.expect, continues, same⟩
        all_goals exact ⟨context.expect, none, rfl⟩

private theorem nesting_punctuation {text : Text}
    (plain : text ≠ ['('] ∧ text ≠ [')'] ∧ text ≠ ['\x7b'] ∧ text ≠ ['\x7d']) :
    (context.punctuation text).nesting = context.nesting := by
  obtain ⟨paren, closing, brace, closing'⟩ := plain
  simp only [punctuation, paren, closing, brace, closing', if_false]
  split_ifs <;> rfl

private theorem nesting_read (plain : item.isBracket = false) :
    (context.read before item after).2.nesting = context.nesting := by
  unfold read
  split
  · split
    · exact nesting_keyword _ _ _
    · obtain ⟨expect, continues, same⟩ := @exists_identifier context before after item
      simp only [same]
      rfl
  next other =>
    refine nesting_punctuation ?_
    simpa [Item.isBracket, Item.isMark, other, and_assoc] using plain
  · rfl

private theorem punctuation_openParen (context : Context) : context.punctuation ['('] =
    { context with
      parens := context.parens + 1
      groups := if context.pending = .group then (context.parens + 1, context.braces) ::
        context.groups else context.groups
      receiver := if context.pending = .receiver then some (context.parens + 1) else
        context.receiver
      pending := .nothing, expect := none, continues := none } := by
  cases pending : context.pending <;> simp [punctuation, openParen, pending]

private theorem nesting_closeParen (context : Context) : (context.punctuation [')']).nesting =
    { context.nesting with
      parens := context.parens - 1
      groups := if context.groups.head? = some (context.parens, context.braces) then
        context.groups.tail else context.groups
      receiver := if context.receiver = some context.parens then none else context.receiver } := by
  simp only [punctuation, closeParen, nesting]
  rfl

private theorem nesting_openBrace (context : Context) : (context.punctuation ['\x7b']).nesting =
    { context.nesting with
      braces := context.braces + 1
      bodies := if context.pending = .body then (context.braces + 1) :: context.bodies else
        context.bodies } := by
  simp only [punctuation, openBrace, nesting]
  rfl

private theorem nesting_closeBrace (context : Context) : (context.punctuation ['\x7d']).nesting =
    { context.nesting with
      braces := context.braces - 1
      bodies := if context.bodies.head? = some context.braces then context.bodies.tail else
        context.bodies } := by
  simp only [punctuation, closeBrace, nesting]
  rfl

private theorem pending_punctuation {text : Text} :
    (context.punctuation text).pending = context.pending ∨
      (context.punctuation text).pending = .nothing := by
  unfold punctuation
  split_ifs
  · exact .inl rfl
  · exact .inr (by simp only [openParen]; split <;> rfl)
  all_goals exact .inr rfl

private theorem pending_read (awaits : (context.read before item after).2.pending = .receiver) :
    context.pending = .receiver ∨ context.parens = 0 := by
  unfold read at awaits
  split at awaits
  · split at awaits
    · unfold keyword at awaits
      dsimp only at awaits
      split_ifs at awaits <;> simp_all
    · obtain ⟨expect, continues, same⟩ := @exists_identifier context before after item
      simp only [same] at awaits
      cases awaits
  · obtain same | same := @pending_punctuation context item.text
    · exact .inl (same ▸ awaits)
    · cases same.symm.trans awaits
  · cases awaits

private theorem IsBounded.of_nesting (bounded : context.IsBounded)
    (same : reached.nesting = context.nesting)
    (pending : reached.pending = .receiver → reached.parens = 0) : reached.IsBounded := by
  simp only [nesting, Nesting.mk.injEq] at same
  obtain ⟨-, parens, groups, -, receiver⟩ := same
  exact ⟨by simpa [groups, parens] using bounded.groups,
    by simpa [receiver, parens] using bounded.receiver, pending⟩

theorem IsBounded.openParen (bounded : context.IsBounded) :
    (context.punctuation ['(']).IsBounded := by
  rw [punctuation_openParen]
  refine ⟨?_, ?_, by simp⟩
  · have groups : ∀ group ∈ context.groups, group.1 ≤ context.parens + 1 := fun group member =>
      (bounded.groups group member).trans (Nat.le_succ _)
    dsimp only
    split_ifs
    · exact List.forall_mem_cons.2 ⟨le_rfl, groups⟩
    · exact groups
  · intro depth found
    dsimp only at found ⊢
    split_ifs at found
    · obtain rfl := Option.some.inj found
      omega
    · have bounds := bounded.receiver depth found
      omega

theorem IsBounded.openBrace (bounded : context.IsBounded) :
    (context.punctuation ['\x7b']).IsBounded :=
  ⟨bounded.groups, bounded.receiver, fun awaits => by cases awaits⟩

theorem IsBounded.closeParen (bounded : context.IsBounded)
    (same : reached.nesting = (context.punctuation ['(']).nesting) :
    (reached.punctuation [')']).nesting = context.nesting := by
  rw [punctuation_openParen] at same
  simp only [nesting, Nesting.mk.injEq] at same
  obtain ⟨braces, parens, groups, bodies, receiver⟩ := same
  -- What was noted before lies at a smaller depth than the closing parenthesis.
  have outer : context.groups.head? ≠ some (context.parens + 1, context.braces) := fun first => by
    have bound := bounded.groups _ (List.mem_of_mem_head? first)
    dsimp only at bound
    omega
  have earlier : context.receiver ≠ some (context.parens + 1) := fun found => by
    have bound := (bounded.receiver _ found).2
    omega
  -- A receiver list is awaited outside of parentheses, where none is open.
  have awaited : context.pending = .receiver → context.receiver = none := fun awaits => by
    by_contra found
    obtain ⟨depth, opened⟩ := Option.ne_none_iff_exists'.1 found
    have bounds := bounded.receiver depth opened
    have outside := bounded.pending awaits
    omega
  rw [nesting_closeParen]
  simp only [nesting, Nesting.mk.injEq, braces, parens, groups, bodies, receiver]
  refine ⟨trivial, by omega, ?_, trivial, ?_⟩
  · split_ifs <;> simp_all
  · split_ifs <;> simp_all

private theorem closeBrace_of_layered (layered : context.nesting.IsLayered)
    (same : reached.nesting = (context.punctuation ['\x7b']).nesting) :
    (reached.punctuation ['\x7d']).nesting = context.nesting := by
  rw [nesting_openBrace] at same
  simp only [nesting, Nesting.mk.injEq] at same
  obtain ⟨braces, parens, groups, bodies, receiver⟩ := same
  have outer : context.bodies.head? ≠ some (context.braces + 1) := fun first => by
    have bound := (layered.within _ (List.mem_of_mem_head? first)).2
    dsimp only [nesting] at bound
    omega
  rw [nesting_closeBrace]
  simp only [nesting, Nesting.mk.injEq, braces, parens, groups, bodies, receiver]
  refine ⟨by omega, trivial, trivial, ?_, trivial⟩
  split_ifs <;> simp_all

private theorem layered_punctuation (layered : context.nesting.IsLayered) (text : Text) :
    (context.punctuation text).nesting.IsLayered := by
  obtain ⟨descending, within⟩ := layered
  by_cases bracket : text ≠ ['('] ∧ text ≠ [')'] ∧ text ≠ ['\x7b'] ∧ text ≠ ['\x7d']
  · rw [nesting_punctuation bracket]
    exact ⟨descending, within⟩
  obtain rfl | rfl | rfl | rfl : text = ['('] ∨ text = [')'] ∨ text = ['\x7b'] ∨
      text = ['\x7d'] := by tauto
  · rw [punctuation_openParen]
    exact ⟨descending, within⟩
  · rw [nesting_closeParen]
    exact ⟨descending, within⟩
  · rw [nesting_openBrace]
    have deeper : ∀ depth ∈ context.bodies, 1 ≤ depth ∧ depth ≤ context.braces + 1 :=
      fun depth member => (within depth member).imp_right (Nat.le_succ_of_le ·)
    split_ifs
    · exact ⟨.cons (fun depth member => Nat.lt_succ_of_le (within depth member).2) descending,
        List.forall_mem_cons.2 ⟨⟨Nat.le_add_left 1 _, le_rfl⟩, deeper⟩⟩
    · exact ⟨descending, deeper⟩
  · rw [nesting_closeBrace]
    simp only [nesting] at descending within ⊢
    cases bodies : context.bodies with
    | nil => exact ⟨by simp, by simp⟩
    | cons inner outer =>
      rw [bodies] at descending within
      obtain ⟨smaller, descending'⟩ := List.pairwise_cons.1 descending
      have bounds := within inner List.mem_cons_self
      have outside : ∀ depth ∈ outer, 1 ≤ depth ∧ depth ≤ context.braces - 1 :=
        fun depth member => by
          have less := smaller depth member
          have positive := (within depth (List.mem_cons_of_mem _ member)).1
          omega
      split_ifs with innermost
      · exact ⟨descending', outside⟩
      · have unequal : inner ≠ context.braces := fun same => innermost (by simp [same])
        have deep : 1 ≤ inner ∧ inner ≤ context.braces - 1 := by omega
        exact ⟨descending, List.forall_mem_cons.2 ⟨deep, outside⟩⟩

private theorem layered_read (layered : context.nesting.IsLayered) :
    (context.read before item after).2.nesting.IsLayered := by
  cases plain : item.isBracket with
  | false => rwa [nesting_read plain]
  | true =>
    obtain ⟨c, mark⟩ : ∃ c, item.isMark c := by
      simp only [Item.isBracket, Bool.or_eq_true] at plain
      obtain ((mark | mark) | mark) | mark := plain
      all_goals exact ⟨_, mark⟩
    rw [read_mark mark]
    exact layered_punctuation layered [c]

private theorem layered_behind {front : List Item} (layered : context.nesting.IsLayered) :
    (context.behind before front after).nesting.IsLayered := by
  induction front generalizing context before with
  | nil => exact layered
  | cons item front ih => exact ih (layered_read layered)

end Context

open Context in
private theorem IsNested.nesting_behind {front : List Item} (nested : IsNested front)
    {context : Context} (bounded : context.IsBounded) (layered : context.nesting.IsLayered)
    (before after : List Item) :
    (context.behind before front after).nesting = context.nesting ∧
      (context.behind before front after).IsBounded := by
  induction nested generalizing context before after with
  | nil => exact ⟨rfl, bounded⟩
  | @single item plain =>
    have same : (context.behind before [item] after).nesting = context.nesting :=
      nesting_read plain
    refine ⟨same, bounded.of_nesting same fun awaits => ?_⟩
    have parens : (context.behind before [item] after).parens = context.parens :=
      congrArg Nesting.parens same
    rw [parens]
    exact (pending_read awaits).elim bounded.pending id
  | append _ _ first second =>
    rw [behind_append]
    obtain ⟨same, bounded'⟩ := first bounded layered before _
    obtain ⟨same', bounded'⟩ := second bounded' (same ▸ layered) _ after
    exact ⟨same'.trans same, bounded'⟩
  | @parens opening closing inside opens ends _ ih =>
    rw [behind, read_mark opens, behind_append]
    obtain ⟨same, -⟩ := ih bounded.openParen (layered_punctuation layered _)
      (opening :: before) ([closing] ++ after)
    rw [behind, read_mark ends, behind]
    have closed := bounded.closeParen same
    exact ⟨closed, bounded.of_nesting closed (by simp [punctuation, closeParen])⟩
  | @braces opening closing inside opens ends _ ih =>
    rw [behind, read_mark opens, behind_append]
    obtain ⟨same, -⟩ := ih bounded.openBrace (layered_punctuation layered _)
      (opening :: before) ([closing] ++ after)
    rw [behind, read_mark ends, behind]
    have closed := closeBrace_of_layered layered same
    exact ⟨closed, bounded.of_nesting closed (by simp [punctuation, closeBrace])⟩

/-- The classification goes on at every place of a text with the context that the items before it
leave. Behind items whose brackets are nested nothing is open in it. Behind any items the depths of
its open bodies increase strictly from the outermost on, and lie between one and the number of open
braces. -/
theorem nesting_restored {spans : List Span} {before after : List Item}
    (split : items spans = before ++ after) :
    let reached := Context.behind {} [] before after
    classifyFrom reached before.reverse after <:+ classify spans ∧
      (IsNested before → reached.braces = 0 ∧ reached.parens = 0 ∧ reached.groups = [] ∧
        reached.bodies = [] ∧ reached.receiver = none) ∧
      reached.bodies.reverse.Pairwise (· < ·) ∧
      ∀ depth ∈ reached.bodies, 1 ≤ depth ∧ depth ≤ reached.braces := by
  have start : (Context.nesting {}).IsLayered := ⟨.nil, by simp [Context.nesting]⟩
  obtain ⟨descending, within⟩ := @Context.layered_behind {} [] after before start
  refine ⟨?_, fun nested => ?_, List.pairwise_reverse.2 descending, within⟩
  · have rest := suffix_classifyFrom {} [] before after
    rwa [List.append_nil, ← split] at rest
  · have bounded : Context.IsBounded {} := ⟨by simp, by simp, by simp⟩
    have same := (nested.nesting_behind bounded start [] after).1
    simpa [Context.nesting] using same

def bayouText : Text :=
  ("package a\n\nfunc (t *T) Run() \x7b\n\tvar (\n\t\tx = 1\n\t)\n\x7d\n\n" ++
    "type T struct \x7b\n\tinner struct \x7b\n\t\tA int").toList

/-- The items of this text. -/
def bayouItems : List Item :=
  items ((Span.scan bayouText).toOption.getD [])

/-- Nothing is open behind the method, and both bodies at the end. -/
theorem bayou_restored :
    IsNested (bayouItems.take 18) ∧
      (Context.behind {} [] (bayouItems.take 18) (bayouItems.drop 18)).bodies = [] ∧
      (Context.behind {} [] bayouItems []).bodies = [2, 1] ∧
      (Context.behind {} [] bayouItems []).bodies.reverse.Pairwise (· < ·) := by
  have nested : IsNested (bayouItems.take 18) := by decide +kernel
  have whole : bayouItems = bayouItems ++ [] := (List.append_nil _).symm
  refine ⟨nested, ?_, by decide +kernel, (nesting_restored whole).2.2.1⟩
  obtain ⟨-, closed, -⟩ := nesting_restored (List.take_append_drop 18 bayouItems).symm
  exact (closed nested).2.2.2.1

end Repackage.Site
