import Mathlib.Data.List.TakeWhile
import Mathlib.Tactic.SplitIfs
import Repackage.Path

/-!
Canonical paths. A canonical path is split at its slashes into the very components that it was put
together from. So it is its own canonical spelling, and two paths have the same one exactly when
they have the same components.
-/

set_option autoImplicit false
set_option relaxedAutoImplicit false

namespace Repackage

namespace Text

private theorem splitOn_eq (separator : Char) (text : Text) :
    splitOn separator text = List.splitOn separator text := by
  induction text with
  | nil => rfl
  | cons c cs ih =>
    rw [splitOn, List.splitOn_cons_eq_if_modifyHead, ← ih]
    by_cases separates : c = separator
    · simp [separates]
    · obtain ⟨part, parts, split⟩ := List.exists_cons_of_ne_nil (splitOn_ne_nil separator cs)
      simp [separates, split]

private theorem joinWith_eq (separator : Char) (parts : List Text) :
    joinWith separator parts = [separator].intercalate parts := by
  fun_induction joinWith separator parts with
  | case1 => rfl
  | case2 part => exact List.intercalate_singleton.symm
  | case3 part parts more ih =>
    rw [ih, List.intercalate_cons_of_ne_nil more, List.append_assoc]
    rfl

private theorem splitOn_joinWith {separator : Char} {parts : List Text} (some : parts ≠ [])
    (whole : ∀ part ∈ parts, separator ∉ part) :
    splitOn separator (joinWith separator parts) = parts := by
  rw [splitOn_eq, joinWith_eq, List.splitOn_intercalate separator whole some]

private theorem joinWith_splitOn (separator : Char) (text : Text) :
    joinWith separator (splitOn separator text) = text := by
  rw [splitOn_eq, joinWith_eq, List.intercalate_splitOn]

private theorem splitOn_append (separator : Char) (a b : Text) :
    splitOn separator (a ++ separator :: b) = splitOn separator a ++ splitOn separator b := by
  simp only [splitOn_eq, List.splitOn_append_cons_self]

private theorem mem_of_mem_splitOn {separator c : Char} {text part : Text}
    (member : part ∈ splitOn separator text) (inside : c ∈ part) : c ∈ text ∧ c ≠ separator := by
  induction text generalizing part with
  | nil =>
    obtain rfl := List.mem_singleton.1 member
    cases inside
  | cons d ds ih =>
    have later {part : Text} (member : part ∈ splitOn separator ds) (inside : c ∈ part) :
        c ∈ d :: ds ∧ c ≠ separator :=
      (ih member inside).imp_left (List.mem_cons_of_mem d)
    rw [splitOn] at member
    split_ifs at member with separates
    · rcases List.mem_cons.1 member with rfl | behind
      · cases inside
      · exact later behind inside
    · obtain ⟨first, parts, split⟩ := List.exists_cons_of_ne_nil (splitOn_ne_nil separator ds)
      simp only [split] at member later
      rcases List.mem_cons.1 member with rfl | behind
      · rcases List.mem_cons.1 inside with rfl | more
        · exact ⟨List.mem_cons_self, separates⟩
        · exact later List.mem_cons_self more
      · exact later (List.mem_cons_of_mem _ behind) inside

private theorem mem_of_mem_joinWith {separator c : Char} {parts : List Text}
    (member : c ∈ joinWith separator parts) : c = separator ∨ ∃ part ∈ parts, c ∈ part := by
  fun_induction joinWith separator parts with
  | case1 => cases member
  | case2 part => exact .inr ⟨part, List.mem_singleton_self part, member⟩
  | case3 part parts more ih =>
    rcases List.mem_append.1 member with first | behind
    · exact .inr ⟨part, List.mem_cons_self, first⟩
    · rcases List.mem_cons.1 behind with rfl | later
      · exact .inl rfl
      · exact (ih later).imp_right fun ⟨other, listed, inside⟩ =>
          ⟨other, List.mem_cons_of_mem _ listed, inside⟩

end Text

namespace Path

/-- Whether a text can stand between two slashes of a canonical path. -/
structure IsComponent (part : Text) : Prop where
  named : part ≠ [] ∧ part ≠ ['.']
  whole : ∀ c ∈ part, c ≠ '/' ∧ c ≠ '\\'

private theorem IsComponent.slash_not_mem {part : Text} (component : IsComponent part) : '/' ∉
    part :=
  fun slash => (component.whole '/' slash).1 rfl

private theorem isComponent_of_mem {path part : Text} (member : part ∈ components path) :
    IsComponent part := by
  obtain ⟨split, named⟩ := List.mem_filter.1 member
  refine ⟨of_decide_eq_true named, fun c inside => ?_⟩
  obtain ⟨origin, notSlash⟩ := Text.mem_of_mem_splitOn split inside
  refine ⟨notSlash, ?_⟩
  -- A backslash would have become a slash before the path was split.
  rintro rfl
  obtain ⟨d, -, same⟩ := List.mem_map.1 origin
  split_ifs at same with backslash
  · exact absurd same (by decide)
  · exact backslash same

private theorem map_slash_of_plain {text : Text} (plain : '\\' ∉ text) :
    text.map (fun c => if c = '\\' then '/' else c) = text := by
  refine (List.map_congr_left fun c member => if_neg ?_).trans (List.map_id text)
  rintro rfl
  exact plain member

/-- The parts of a path between its slashes. The empty path, which is the root, has none. -/
def parts (path : String) : List Text :=
  if path = "" then [] else Text.splitOn '/' path.toList

/-- Whether a path is spelled with single slashes between names. -/
structure IsCanonical (path : String) : Prop where
  plain : '\\' ∉ path.toList
  named : ∀ part ∈ parts path, part ≠ [] ∧ part ≠ ['.']

private theorem joinWith_parts (path : String) : Text.joinWith '/' (parts path) = path.toList := by
  rw [parts]
  split_ifs with empty
  · rw [empty]
    rfl
  · exact Text.joinWith_splitOn '/' path.toList

private theorem parts_normalize (path : String) : parts (normalize path) = components
    path.toList := by
  have all : ∀ part ∈ components path.toList, IsComponent part := fun part => isComponent_of_mem
  rw [parts, normalize, String.toList_ofList]
  generalize components path.toList = list at all ⊢
  cases list with
  | nil => rfl
  | cons first list =>
    have spelled : String.ofList (Text.joinWith '/' (first :: list)) ≠ "" := by
      intro empty
      have nothing : Text.joinWith '/' (first :: list) = [] := String.ofList_eq_empty_iff.1 empty
      apply (all first List.mem_cons_self).named.1
      cases list with
      | nil => exact nothing
      | cons second list => exact (List.append_eq_nil_iff.1 nothing).1
    rw [if_neg spelled]
    apply Text.splitOn_joinWith (List.cons_ne_nil first list)
    intro part listed
    exact (all part listed).slash_not_mem

private theorem isCanonical_normalize (path : String) : IsCanonical (normalize path) := by
  constructor
  · intro backslash
    rw [normalize, String.toList_ofList] at backslash
    rcases Text.mem_of_mem_joinWith backslash with slash | ⟨part, listed, inside⟩
    · exact absurd slash (by decide)
    · exact ((isComponent_of_mem listed).whole _ inside).2 rfl
  · intro part listed
    rw [parts_normalize] at listed
    exact (isComponent_of_mem listed).named

private theorem IsCanonical.components_eq {path : String} (canonical : IsCanonical path) :
    components path.toList = parts path := by
  have named := canonical.named
  rw [components, map_slash_of_plain canonical.plain]
  rw [parts] at named ⊢
  split_ifs at named ⊢ with empty
  · rw [empty]
    rfl
  · exact List.filter_eq_self.2 fun part listed => decide_eq_true (named part listed)

private theorem normalize_eq_self_iff {path : String} : normalize path = path ↔ IsCanonical
    path := by
  constructor
  · intro same
    exact same ▸ isCanonical_normalize path
  · intro canonical
    rw [normalize, canonical.components_eq, joinWith_parts, String.ofList_toList]

theorem normalize_normalize (path : String) : normalize (normalize path) = normalize path :=
  normalize_eq_self_iff.2 (isCanonical_normalize path)

private theorem components_append (a b : Text) :
    components (a ++ '/' :: b) = components a ++ components b := by
  rw [components, List.map_append, List.map_cons, if_neg (by decide), Text.splitOn_append,
    List.filter_append, components, components]

private theorem normalize_eq_iff {a b : String} :
    normalize a = normalize b ↔ components a.toList = components b.toList := by
  constructor
  · intro same
    rw [← parts_normalize, ← parts_normalize, same]
  · intro same
    rw [normalize, normalize, same]

/-- Every path has a canonical spelling, which is canonical and its own canonical spelling; a path
is its own canonical spelling only if it is canonical. A path below another one is spelled with the
parts of both, one after the other. Two paths have the same canonical spelling exactly when they
have the same components. -/
theorem canonical_form (a b : String) :
    normalize (normalize a) = normalize a ∧ IsCanonical (normalize a) ∧
      (normalize a = a ↔ IsCanonical a) ∧
      normalize (a ++ "/" ++ b) =
        String.ofList (Text.joinWith '/' (parts (normalize a) ++ parts (normalize b))) ∧
      (normalize a = normalize b ↔ components a.toList = components b.toList) := by
  refine ⟨normalize_normalize a, isCanonical_normalize a, normalize_eq_self_iff, ?_,
    normalize_eq_iff⟩
  have below : (a ++ "/" ++ b).toList = a.toList ++ '/' :: b.toList := by simp
  rw [normalize, below, components_append, parts_normalize, parts_normalize]

example : normalize ".\\internal//cli/./" = "internal/cli" ∧ normalize "./" = "" := by
  decide +kernel

theorem slash_not_mem_fileName (path : String) : '/' ∉ (fileName path).toList := by
  intro member
  rw [fileName, String.toList_ofList, afterLastSlash, List.mem_reverse] at member
  have other := List.all_eq_true.1 List.all_takeWhile '/' member
  simp at other

private theorem forall_reverse_ne_slash {name : Text} (plain : '/' ∉ name) :
    ∀ c ∈ name.reverse, decide (c ≠ '/') = true := fun _ member =>
  decide_eq_true fun slash => plain (slash ▸ List.mem_reverse.1 member)

theorem parent_below (dir : String) {name : String} (plain : '/' ∉ name.toList) :
    parent (dir ++ "/" ++ name) = dir := by
  have backwards : (dir ++ "/" ++ name).toList.reverse =
      name.toList.reverse ++ '/' :: dir.toList.reverse := by
    simp
  rw [parent, beforeLastSlash, backwards,
    List.dropWhile_append_of_pos (forall_reverse_ne_slash plain),
    List.dropWhile_cons_of_neg (by simp), List.drop_one, List.tail_cons, List.reverse_reverse,
    String.ofList_toList]

theorem parent_of_plain {name : String} (plain : '/' ∉ name.toList) : parent name = "" := by
  rw [parent, beforeLastSlash, List.dropWhile_eq_nil_iff.2 (forall_reverse_ne_slash plain)]
  rfl

end Path

end Repackage
