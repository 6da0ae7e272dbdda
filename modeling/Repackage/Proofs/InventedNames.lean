import Repackage.Proofs.ImportNames
import Repackage.Proofs.InertText
import Repackage.Proofs.Respelling

/-!
How the names of added imports are spelled. A package is imported under its own name, under that
name with a number, or under that name behind the word characters of its parent directory. Numbers
never spoil a name; a parent directory does when it starts with a digit, or when it makes a keyword.
-/

set_option autoImplicit false
set_option relaxedAutoImplicit false

namespace Repackage

namespace Word

theorem isSpelled_append {word : Text} (spelled : isSpelled word) {more : Text}
    (chars : ∀ c ∈ more, Text.isWordChar c) : isSpelled (word ++ more) := by
  cases word with
  | nil => cases spelled
  | cons c cs =>
    rw [isSpelled, Bool.and_eq_true, List.all_eq_true] at spelled
    rw [List.cons_append, isSpelled, Bool.and_eq_true, List.all_eq_true]
    refine ⟨spelled.1, fun other member => ?_⟩
    rcases List.mem_append.1 member with old | new
    · exact spelled.2 other old
    · exact chars other new

private theorem keywords_without_digits :
    (keywords.all fun keyword => keyword.toList.all fun c => !c.isDigit) = true := by
  decide

private theorem not_isKeyword_of_isDigit {word : Text} {c : Char} (member : c ∈ word)
    (digit : c.isDigit) : isKeyword word = false := by
  rw [Bool.eq_false_iff]
  intro reserved
  obtain ⟨keyword, listed, same⟩ := List.any_eq_true.1 reserved
  obtain rfl : keyword.toList = word := by simpa using same
  have letters := List.all_eq_true.1 keywords_without_digits keyword listed
  have letter := List.all_eq_true.1 letters c member
  rw [digit] at letter
  cases letter

theorem isIdentifier_numbered {name : String} (proper : isIdentifier name.toList) (n : Nat) :
    isIdentifier (name ++ toString n).toList := by
  have digits : ∀ c ∈ Nat.toDigits 10 n, c.isDigit := fun c member =>
    Nat.isDigit_of_mem_toDigits (by omega) (by omega) member
  obtain ⟨c, cs, same⟩ := List.exists_cons_of_ne_nil (Nat.toDigits_ne_nil : Nat.toDigits 10 n ≠ [])
  have text : (name ++ toString n).toList = name.toList ++ Nat.toDigits 10 n := by
    rw [String.toList_append, Nat.toString_eq_repr, Nat.toList_repr]
  have first : c ∈ Nat.toDigits 10 n := by rw [same]; exact List.mem_cons_self
  rw [text, isIdentifier, Bool.and_eq_true, Bool.not_eq_true']
  refine ⟨isSpelled_append (Token.isSpelled_of_isIdentifier proper) fun c member =>
    Text.isWordChar_of_isDigit (digits c member), ?_⟩
  exact not_isKeyword_of_isDigit (List.mem_append_right _ first) (digits c first)

end Word

namespace ImportPlan

/-- A name that a package can go by: an identifier, and not the blank one. -/
def IsProper (name : String) : Prop :=
  Word.isIdentifier name.toList ∧ name ≠ "_"

instance : DecidablePred IsProper := fun name =>
  inferInstanceAs (Decidable (Word.isIdentifier name.toList = true ∧ name ≠ "_"))

/-- Whether the name of a parent directory spoils the name of a package behind it: the two start
with no letter, or are a keyword. -/
def Spoils (parent name : String) : Prop :=
  (∃ c ∈ parent.toList.head?, Text.isWordStart c = false) ∨ Word.isKeyword (parent ++ name).toList

theorem isWordChar_of_mem_parentWord {path : String} :
    ∀ c ∈ (parentWord path).toList, Text.isWordChar c := by
  intro c member
  rw [parentWord] at member
  split at member
  · rw [String.toList_ofList] at member
    exact (List.mem_filter.1 member).2
  · simp at member

private theorem isProper_parent_iff {path name : String} (proper : IsProper name) :
    IsProper (parentWord path ++ name) ↔ ¬Spoils (parentWord path) name := by
  have chars : ∀ c ∈ (parentWord path).toList, Text.isWordChar c := isWordChar_of_mem_parentWord
  generalize parentWord path = parent at chars ⊢
  have later : ∀ c ∈ name.toList, Text.isWordChar c :=
    Word.isWordChar_of_isSpelled (Token.isSpelled_of_isIdentifier proper.1)
  rw [IsProper, Spoils, Word.isIdentifier, Bool.and_eq_true, Bool.not_eq_true', not_or]
  cases text : parent.toList with
  | nil =>
    obtain rfl : parent = "" := String.toList_inj.1 text
    have own := proper.1
    rw [Word.isIdentifier, Bool.and_eq_true, Bool.not_eq_true'] at own
    simp [own.1, own.2, proper.2]
  | cons c cs =>
    have long : parent ++ name ≠ "_" := by
      intro same
      have lengths := congrArg (fun word => word.toList.length) same
      obtain ⟨d, ds, rest⟩ : ∃ d ds, name.toList = d :: ds := by
        refine List.exists_cons_of_ne_nil fun empty => ?_
        have spelled := Token.isSpelled_of_isIdentifier proper.1
        rw [empty] at spelled
        cases spelled
      simp [text, rest] at lengths
    have spelled : Word.isSpelled (parent ++ name).toList = Text.isWordStart c := by
      rw [String.toList_append, text, List.cons_append, Word.isSpelled, Bool.and_eq_left_iff_imp]
      intro _
      rw [text] at chars
      exact List.all_eq_true.2 (List.forall_mem_append.2 ⟨(List.forall_mem_cons.1 chars).2, later⟩)
    rw [spelled]
    simp only [List.head?_cons, Option.mem_def, Option.some.injEq, exists_eq_left',
      Bool.not_eq_false, Bool.not_eq_true, ne_eq, long, not_false_eq_true, and_true]

private theorem pickName_cases (path name : String) (taken : List String) :
    pickName path name taken = name ∨ pickName path name taken = parentWord path ++ name ∨
      ∃ n : Nat, pickName path name taken = name ++ toString n := by
  have picks := picks_pickName path name taken
  generalize pickName path name taken = picked at picks ⊢
  cases picks with
  | own => exact .inl rfl
  | behindParent => exact .inr (.inl rfl)
  | @numbered n => exact .inr (.inr ⟨n, rfl⟩)

theorem nameFor_spelling (taken : List String) (path : String) (need : Need) :
    nameFor taken path need = need.name ∨ nameFor taken path need = parentWord path ++ need.name ∨
      ∃ n : Nat, nameFor taken path need = need.name ++ toString n := by
  rw [nameFor]
  split_ifs
  · exact .inl rfl
  · exact pickName_cases path need.name taken

private theorem localName_specFor {path name : String} (dot : name ≠ ".") (blank : name ≠ "_") :
    (specFor path name).localName = some name := by
  rw [specFor]
  split_ifs with conventional
  · rw [conventional]
    rfl
  · simp [Import.localName, dot, blank]

private theorem find?_planFrom_of_not_mem {existing : List Import} {plan final : ImportPlan}
    {taken : List String} {needs : List (String × Need)}
    (planned : planFrom existing plan taken needs = .ok final) {path : String}
    (absent : path ∉ needs.map Prod.fst) :
    final.bindings.find? path = plan.bindings.find? path := by
  induction needs generalizing plan taken with
  | nil =>
    cases planned
    rfl
  | cons entry needs ih =>
    obtain ⟨key, need⟩ := entry
    rw [List.map_cons, List.mem_cons, not_or] at absent
    rw [planFrom] at planned
    split at planned
    · split at planned
      · cases planned
      · rw [ih planned absent.2, Dict.find?_insert, if_neg absent.1]
    · rw [ih planned absent.2, Dict.find?_insert, if_neg absent.1]

theorem planFrom_additions {existing : List Import} {plan final : ImportPlan}
    {taken : List String} {needs : List (String × Need)}
    (planned : planFrom existing plan taken needs = .ok final)
    (sorted : needs.Pairwise fun a b => a.1 < b.1) {spec : Import}
    (member : spec ∈ final.additions) :
    spec ∈ plan.additions ∨ ∃ need taken, (spec.path, need) ∈ needs ∧
      spec = specFor spec.path (nameFor taken spec.path need) ∧
      final.bindings.find? spec.path = some (.qualified (nameFor taken spec.path need)) := by
  induction needs generalizing plan taken with
  | nil =>
    cases planned
    exact .inl member
  | cons entry needs ih =>
    obtain ⟨path, need⟩ := entry
    obtain ⟨above, sorted⟩ := List.pairwise_cons.1 sorted
    have absent : path ∉ needs.map Prod.fst := by
      intro found
      obtain ⟨other, listed, same⟩ := List.mem_map.1 found
      exact String.lt_irrefl _ (same ▸ above other listed)
    rw [planFrom] at planned
    split at planned
    · split at planned
      · cases planned
      · refine (ih planned sorted).imp_right ?_
        rintro ⟨other, taken, listed, same, bound⟩
        exact ⟨other, taken, List.mem_cons_of_mem _ listed, same, bound⟩
    · rcases ih planned sorted with old | ⟨other, taken, listed, same, bound⟩
      · rcases List.mem_append.1 old with old | new
        · exact .inl old
        · obtain rfl := List.mem_singleton.1 new
          refine .inr ⟨need, taken, ?_⟩
          rw [path_specFor]
          refine ⟨List.mem_cons_self, rfl, ?_⟩
          have now := (Dict.find?_insert plan.bindings path
            (.qualified (nameFor taken path need)) path).trans (if_pos rfl)
          exact (find?_planFrom_of_not_mem planned absent).trans now
      · exact .inr ⟨other, taken, List.mem_cons_of_mem _ listed, same, bound⟩

private theorem name_infix_nameFor (taken : List String) (path : String) (need : Need) :
    need.name.toList <:+: (nameFor taken path need).toList := by
  rcases nameFor_spelling taken path need with same | same | ⟨n, same⟩
  · simp only [same, List.infix_rfl]
  · rw [same, String.toList_append]
    exact (List.suffix_append _ _).isInfix
  · rw [same, String.toList_append]
    exact (List.prefix_append _ _).isInfix

private theorem nameFor_ne_singleton {taken : List String} {path : String} {need : Need}
    (proper : IsProper need.name) {c : Char} (other : need.name.toList ≠ [c]) :
    (nameFor taken path need).toList ≠ [c] := by
  intro same
  have inside := name_infix_nameFor taken path need
  rw [same, List.infix_cons_iff, List.prefix_cons_iff] at inside
  rcases inside with (empty | ⟨rest, starts, short⟩) | later
  · have spelled := Token.isSpelled_of_isIdentifier proper.1
    rw [empty] at spelled
    cases spelled
  · exact other (by rw [starts, List.prefix_nil.1 short])
  · have spelled := Token.isSpelled_of_isIdentifier proper.1
    rw [List.infix_nil.1 later] at spelled
    cases spelled

private theorem nameFor_ne_blank {taken : List String} {path : String} {need : Need}
    (proper : IsProper need.name) : nameFor taken path need ≠ "_" := fun same =>
  nameFor_ne_singleton proper (c := '_') (fun blank => proper.2 (String.toList_inj.1 blank))
    (by rw [same]; rfl)

private theorem nameFor_ne_dot {taken : List String} {path : String} {need : Need}
    (proper : IsProper need.name) : nameFor taken path need ≠ "." := by
  intro same
  refine nameFor_ne_singleton proper (c := '.') (fun dot => ?_) (by rw [same]; rfl)
  have named := proper.1
  rw [dot] at named
  revert named
  decide

private theorem isProper_nameFor {taken : List String} {path : String} {need : Need}
    (proper : IsProper need.name)
    (unspoiled : nameFor taken path need = parentWord path ++ need.name →
      ¬Spoils (parentWord path) need.name) : IsProper (nameFor taken path need) := by
  rcases nameFor_spelling taken path need with same | same | ⟨n, same⟩
  · rwa [same]
  · rw [same]
    exact (isProper_parent_iff proper).2 (unspoiled same)
  · refine ⟨?_, nameFor_ne_blank proper⟩
    rw [same]
    exact Word.isIdentifier_numbered proper.1 n

/-- Where all needed packages have proper names, an added import has the name that its path is bound
to, and all these names are proper exactly when none of them is a name behind that of a parent
directory which spoils it. -/
theorem added_names_proper_iff {existing : List Import} {needed : Dict Need}
    {declared : List String} {plan : ImportPlan}
    (named : ∀ entry ∈ needed.entries, IsProper entry.2.name)
    (planned : make existing needed declared = .ok plan) :
    (∀ spec ∈ plan.additions, ∃ name, spec.localName = some name ∧
        plan.bindings.find? spec.path = some (.qualified name)) ∧
      ((∀ spec ∈ plan.additions, ∀ name ∈ spec.localName, IsProper name) ↔
        ∀ spec ∈ plan.additions, ∀ need, needed.find? spec.path = some need →
          spec.localName = some (parentWord spec.path ++ need.name) →
            ¬Spoils (parentWord spec.path) need.name) := by
  have origin {spec : Import} (member : spec ∈ plan.additions) : ∃ need taken,
      needed.find? spec.path = some need ∧ IsProper need.name ∧
      spec.localName = some (nameFor taken spec.path need) ∧
      plan.bindings.find? spec.path = some (.qualified (nameFor taken spec.path need)) := by
    rcases planFrom_additions planned needed.sorted member with old | origin
    · cases old
    · obtain ⟨need, taken, listed, same, bound⟩ := origin
      have proper := named _ listed
      refine ⟨need, taken, Dict.mem_entries_iff.1 listed, proper, ?_, bound⟩
      rw [same, path_specFor]
      exact localName_specFor (nameFor_ne_dot proper) (nameFor_ne_blank proper)
  refine ⟨fun spec member => ?_, fun all spec member need found parent => ?_,
    fun unspoiled spec member name bound => ?_⟩
  · obtain ⟨need, taken, -, -, bound, binding⟩ := origin member
    exact ⟨_, bound, binding⟩
  · have proper := named _ (Dict.mem_entries_iff.2 found)
    exact (isProper_parent_iff proper).1 (all spec member _ parent)
  · obtain ⟨need, taken, found, proper, own, -⟩ := origin member
    obtain rfl := Option.some.inj (own.symm.trans bound)
    refine isProper_nameFor proper fun parent => unspoiled spec member need found ?_
    rw [own, parent]

/-- A package below a directory whose name starts with a digit. -/
def skerryNeeds : Dict Need :=
  Dict.ofList [("m/2d/base", ⟨"base", false⟩)]

/-- In a file that declares `base`, the package is imported under a name that is no identifier. -/
theorem skerry_name_spoiled :
    (∀ entry ∈ skerryNeeds.entries, IsProper entry.2.name) ∧
      ∃ plan, make [] skerryNeeds ["base"] = .ok plan ∧
        plan.additions = [⟨some "2dbase", "m/2d/base"⟩] ∧ Spoils "2d" "base" ∧
        ¬∀ spec ∈ plan.additions, ∀ name ∈ spec.localName, IsProper name := by
  have named : ∀ entry ∈ skerryNeeds.entries, IsProper entry.2.name := by decide
  have view : (make [] skerryNeeds ["base"]).toOption.map (·.additions) =
      some [⟨some "2dbase", "m/2d/base"⟩] := by
    decide +kernel
  have spoiled : Spoils "2d" "base" := .inl ⟨'2', rfl, by decide⟩
  obtain ⟨plan, planned, additions⟩ := exists_of_view view
  refine ⟨named, plan, planned, additions, spoiled, fun all => ?_⟩
  have unspoiled := (added_names_proper_iff named planned).2.1 all ⟨some "2dbase", "m/2d/base"⟩
    (by rw [additions]; exact List.mem_singleton_self _) ⟨"base", false⟩ (by decide +kernel)
    (by decide +kernel)
  exact unspoiled (by simpa [show parentWord "m/2d/base" = "2d" by decide +kernel] using spoiled)

end ImportPlan

end Repackage
