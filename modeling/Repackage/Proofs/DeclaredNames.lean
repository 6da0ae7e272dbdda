import Repackage.Proofs.SiteShapes

/-!
Names that are declared. A list of names behind `var`, `const` or `type` hands the expectation of a
declaration on from comma to comma, and in a list before `:=` every name is followed by the rest of
such a list. Neither is read as a reference, wherever the list stands.
-/

set_option autoImplicit false
set_option relaxedAutoImplicit false

namespace Repackage.Site

/-- Names with a comma between each two. -/
inductive IsNameList : List Item → Prop
  | single {name : Item} (named : name.isName) : IsNameList [name]
  | cons {name comma : Item} {rest : List Item} (named : name.isName) (parts : comma.isMark ',')
    (listed : IsNameList rest) : IsNameList (name :: comma :: rest)

/-- Whether an item is one of the keywords that declare the names behind them. -/
def Item.declares (item : Item) : Bool :=
  item.kind == .word && (item.text == "type".toList || item.text == "var".toList ||
    item.text == "const".toList)

def Context.Expects (context : Context) : Prop :=
  context.receiver.isSome ∨ context.expect.isSome

private theorem isName_of_isMark {c : Char} {item : Item} (isMark : item.isMark c) :
    item.isName = false := by
  cases named : item.isName with
  | false => rfl
  | true => simp [Item.isMark_of_isName named] at isMark

section Lists

variable {before after list : List Item}

private theorem IsNameList.exists_cons (listed : IsNameList list) :
    ∃ name rest, list = name :: rest ∧ name.isName := by
  cases listed with
  | single named => exact ⟨_, _, rfl, named⟩
  | cons named parts listed => exact ⟨_, _, rfl, named⟩

private theorem definesList_of_defines (next : defines after) : definesList after := by
  cases after with
  | nil => simp [defines] at next
  | cons colon rest =>
    have isColon : colon.isMark ':' := by
      rw [defines_cons, Bool.and_eq_true] at next
      exact next.1
    rwa [definesList_cons, Item.isMark_of_isMark isColon]

private theorem IsNameList.definesList_behind (listed : IsNameList list) (next : defines after)
    {front rest : List Item} {name : Item} (split : list = front ++ name :: rest)
    (isName : name.isName) : definesList (rest ++ after) := by
  induction listed generalizing front name rest with
  | single named =>
    obtain ⟨rfl, same⟩ | ⟨rfl, none⟩ := List.singleton_eq_append_iff.1 split
    · cases same
      exact definesList_of_defines next
    · cases none
  | @cons first comma list named parts listed ih =>
    rcases front with _ | ⟨_, _ | ⟨_, front⟩⟩
    · cases split
      obtain ⟨second, others, rfl, also⟩ := listed.exists_cons
      have later : definesList (others ++ after) := ih (List.nil_append _).symm also
      simpa [definesList, parts, also] using later
    · cases split
      simp [isName_of_isMark parts] at isName
    · cases split
      exact ih rfl isName

private theorem identifier_ne_reference (listed : definesList after) (context : Context)
    (before : List Item) (item : Item) :
    (context.identifier before item after).1 ≠ .reference := by
  intro reference
  obtain ⟨-, -, -, -, other, -⟩ := reference_of_identifier reference
  simp [listed] at other

theorem Context.Expects.identifier {context : Context} (expects : context.Expects)
    (free : selects before = false) (item : Item) (after : List Item) :
    (∃ kind, (context.identifier before item after).1 = .declaration kind) ∧
      (after.head?.any (·.isMark ',') →
        ((context.identifier before item after).2.punctuation [',']).Expects) := by
  cases received : context.receiver.isSome with
  | true => simp [Context.identifier, free, received, Context.punctuation, Context.Expects]
  | false =>
    obtain ⟨kind, expected⟩ : ∃ kind, context.expect = some kind := by
      simpa [Context.Expects, received, Option.isSome_iff_exists] using expects
    refine ⟨⟨kind, by simp [Context.identifier, free, received, expected]⟩, fun comma => .inr ?_⟩
    simp [Context.identifier, free, received, expected, Context.punctuation, Context.passOn, comma]

/-- A list of names that are expected is a list of declarations. -/
theorem IsNameList.declared (listed : IsNameList list) {context : Context}
    (expects : context.Expects) (free : selects before = false) (after : List Item) :
    ∀ name ∈ list, name.isName → ∃ kind,
      ⟨name.occurrence, .declaration kind⟩ ∈ classifyFrom context before (list ++ after) := by
  induction listed generalizing context before with
  | @single first named =>
    intro name member isName
    obtain rfl := List.mem_singleton.1 member
    obtain ⟨⟨kind, site⟩, -⟩ := expects.identifier free name after
    refine ⟨kind, ?_⟩
    rw [List.singleton_append, classifyFrom_of_isName named, site]
    exact List.mem_cons_self
  | @cons first comma rest named parts listed ih =>
    intro name member isName
    rw [List.cons_append, List.cons_append, classifyFrom_of_isName named]
    obtain ⟨⟨kind, site⟩, further⟩ := expects.identifier free first (comma :: (rest ++ after))
    rw [site]
    rcases List.mem_cons.1 member with rfl | member
    · exact ⟨kind, List.mem_cons_self⟩
    · rcases List.mem_cons.1 member with rfl | member
      · simp [isName_of_isMark parts] at isName
      · have free' : selects (comma :: first :: before) = false := by
          simp [selects, Item.isMark_of_isMark parts]
        obtain ⟨kind', declared⟩ := ih (further parts) free' name member isName
        refine ⟨kind', List.mem_cons_of_mem _ ?_⟩
        rwa [classifyFrom_of_silent (by rw [read_mark parts]), read_mark parts]

private theorem isKeyword_of_declares {keyword : Item} (declares : keyword.declares) :
    keyword.kind = .word ∧ Word.isKeyword keyword.text ∧ keyword.text ≠ "func".toList ∧
      (keyword.text = "type".toList ∨ keyword.text = "var".toList ∨
        keyword.text = "const".toList) := by
  simp only [Item.declares, Bool.and_eq_true, Bool.or_eq_true, beq_iff_eq, or_assoc] at declares
  obtain ⟨kind, text⟩ := declares
  refine ⟨kind, ?_⟩
  rcases text with text | text | text <;> rw [text] <;> decide

private theorem expects_of_declares {keyword name : Item} (declares : keyword.declares)
    (named : name.isName) (context : Context) (before rest : List Item) :
    (context.read before keyword (name :: rest)).2.Expects := by
  obtain ⟨kind, isKeyword, other, text⟩ := isKeyword_of_declares declares
  have noGroup : name.isMark '(' = false := Item.isMark_of_isName named '('
  simp only [Context.read, kind, isKeyword, if_true, Context.keyword, if_neg other, if_pos text,
    List.head?_cons, Option.any_some, noGroup, named, Bool.false_eq_true, if_false]
  exact .inr rfl

private theorem IsNameList.declared_behind (listed : IsNameList list) {keyword : Item}
    (declares : keyword.declares) {spans : List Span}
    (split : items spans = before ++ keyword :: (list ++ after)) {name : Item}
    (member : name ∈ list) (isName : name.isName) :
    ∃ kind, ⟨name.occurrence, .declaration kind⟩ ∈ classify spans := by
  obtain ⟨kind, isKeyword, -⟩ := isKeyword_of_declares declares
  have silent : keyword.isName = false := by simp [Item.isName, isKeyword]
  have free : selects (keyword :: (before.reverse ++ [])) = false := by
    simp [selects, Item.isMark, kind]
  have suffix := suffix_classifyFrom {} [] before (keyword :: (list ++ after))
  generalize Context.behind {} [] before (keyword :: (list ++ after)) = reached at suffix
  rw [classifyFrom_of_silent (read_silent silent)] at suffix
  obtain ⟨first, rest, rfl, named⟩ := listed.exists_cons
  have expects := expects_of_declares declares named reached (before.reverse ++ []) (rest ++ after)
  obtain ⟨kind, declared⟩ := listed.declared expects free after name member isName
  refine ⟨kind, ?_⟩
  rw [classify, split]
  exact suffix.subset declared

/-- In a list of names before `:=`, no name is a reference. -/
theorem IsNameList.bound (listed : IsNameList list) (next : defines after) {spans : List Span}
    (split : items spans = before ++ (list ++ after)) {name : Item} (member : name ∈ list)
    (isName : name.isName) : ∃ site ≠ .reference, ⟨name.occurrence, site⟩ ∈ classify spans := by
  obtain ⟨front, rest, rfl⟩ := List.append_of_mem member
  have further := listed.definesList_behind next rfl isName
  refine ⟨_, identifier_ne_reference further _ _ name, mem_classifyFrom_iff.2
    ⟨before ++ front, name, rest ++ after, ?_, isName, rfl⟩⟩
  simp [split]

end Lists

private theorem filter_word_of_mem {sites : List Identifier}
    (distinct : sites.Pairwise fun a b => a.word.start < b.word.start) {identifier : Identifier}
    (member : identifier ∈ sites) : sites.filter (·.word = identifier.word) = [identifier] := by
  induction sites with
  | nil => cases member
  | cons first rest ih =>
    obtain ⟨behind, distinct⟩ := List.pairwise_cons.1 distinct
    rcases List.mem_cons.1 member with rfl | member
    · rw [List.filter_cons_of_pos (by simp)]
      have others : rest.filter (·.word = identifier.word) = [] := by
        refine List.filter_eq_nil_iff.2 fun other later same => ?_
        have less := behind other later
        rw [of_decide_eq_true same] at less
        exact Nat.lt_irrefl _ less
      rw [others]
    · have less := behind identifier member
      rw [List.filter_cons_of_neg, ih distinct member]
      intro same
      rw [of_decide_eq_true same] at less
      exact Nat.lt_irrefl _ less

/-- A name of a list that stands directly behind `var`, `const` or `type`, or directly before `:=`,
is exactly one identifier, and that is no reference. -/
theorem listed_name_not_reference {text : Text} {spans : List Span}
    (scanned : Span.scan text = .ok spans) {before list after : List Item}
    (split : items spans = before ++ list ++ after) (listed : IsNameList list)
    (place : (∃ keyword ∈ before.getLast?, keyword.declares) ∨ defines after) {name : Item}
    (member : name ∈ list) (isName : name.isName) :
    ∃ site ≠ .reference,
      (classify spans).filter (·.word = name.occurrence) = [⟨name.occurrence, site⟩] := by
  have distinct : (classify spans).Pairwise fun a b => a.word.start < b.word.start := by
    have sorted : (Span.namesFrom 0 spans).Pairwise fun a b => a.start < b.start :=
      Span.namesFrom_sorted (Span.text_ne_nil_of_word scanned)
    rwa [← classify_words, List.pairwise_map] at sorted
  obtain ⟨site, different, found⟩ :
      ∃ site ≠ .reference, ⟨name.occurrence, site⟩ ∈ classify spans := by
    rcases place with ⟨keyword, last, declares⟩ | next
    · obtain ⟨front, rfl⟩ := List.getLast?_eq_some_iff.1 last
      obtain ⟨kind, declared⟩ :=
        listed.declared_behind declares (by simpa using split) member isName
      exact ⟨.declaration kind, Site.noConfusion, declared⟩
    · exact listed.bound next (by rw [split, List.append_assoc]) member isName
  exact ⟨site, different, filter_word_of_mem distinct found⟩

/-- A function that declares names behind a keyword and before `:=`. -/
def reefText : Text :=
  "package a\n\nfunc f() \x7b\n\tvar x, y int\n\tif p, q := x, y; p < q \x7b\x7d\n\x7d\n".toList

/-- The spans of this text. -/
def reefSpans : List Span :=
  (Span.scan reefText).toOption.getD []

theorem reef_names_declared :
    Span.scan reefText = .ok reefSpans ∧
      (∃ site ≠ .reference,
        (classify reefSpans).filter (·.word = ⟨30, ['y']⟩) = [⟨⟨30, ['y']⟩, site⟩]) ∧
      ∃ site ≠ .reference,
        (classify reefSpans).filter (·.word = ⟨40, ['p']⟩) = [⟨⟨40, ['p']⟩, site⟩] := by
  have scanned : Span.scan reefText = .ok reefSpans := by decide +kernel
  have listed (a b : Char) (start : Nat)
      (named : Item.isName ⟨.word, [a], start, false, false⟩ ∧
        Item.isName ⟨.word, [b], start + 3, false, false⟩) :
      IsNameList [⟨.word, [a], start, false, false⟩, ⟨.other, [','], start + 1, false, true⟩,
        ⟨.word, [b], start + 3, false, false⟩] :=
    .cons named.1 rfl (.single named.2)
  have behind : items reefSpans = (items reefSpans).take 7 ++
      [⟨.word, ['x'], 27, false, false⟩, ⟨.other, [','], 28, false, true⟩,
        ⟨.word, ['y'], 30, false, false⟩] ++ (items reefSpans).drop 10 := by
    decide +kernel
  have ahead : items reefSpans = (items reefSpans).take 12 ++
      [⟨.word, ['p'], 40, false, false⟩, ⟨.other, [','], 41, false, true⟩,
        ⟨.word, ['q'], 43, false, false⟩] ++ (items reefSpans).drop 15 := by
    decide +kernel
  refine ⟨scanned, ?_, ?_⟩
  · exact listed_name_not_reference scanned behind (listed 'x' 'y' 27 (by decide +kernel))
      (.inl (by decide +kernel)) (List.mem_of_getLast? rfl) (by decide +kernel)
  · exact listed_name_not_reference scanned ahead (listed 'p' 'q' 40 (by decide +kernel))
      (.inr (by decide +kernel)) List.mem_cons_self (by decide +kernel)

end Repackage.Site
