import Mathlib.Order.Interval.Finset.Nat
import Mathlib.Tactic.SplitIfs
import Repackage.Import.Plan

/-!
The search for a name that is not taken. A package whose own name is taken, and whose name behind
that of its parent directory is no help, is offered one number after the other. Nothing bounds these
numbers. The search ends since different numbers make different names, so that no more of them can
be passed over than names are taken. For the same reason a counter that has a largest number, such
as one of 32 bits, is enough for it as long as not too many names are taken.
-/

set_option autoImplicit false
set_option relaxedAutoImplicit false

namespace Repackage.ImportPlan

/-- The search through the numbered names, from one number to the one that is found. A number is
passed over as long as its name is taken, and nothing else ends the search. -/
inductive Finds (name : String) (taken : Finset String) : Nat → Nat → Prop where
  | found {n : Nat} (free : name ++ toString n ∉ taken) : Finds name taken n n
  | next {n last : Nat} (used : name ++ toString n ∈ taken)
      (later : Finds name taken (n + 1) last) : Finds name taken n last

/-- The search with a counter that has a largest number. It is moved on whenever a number is taken
from it, so the largest number itself is never given out. -/
inductive FindsBelow (name : String) (taken : Finset String) (largest : Nat) :
    Nat → Nat → Prop where
  | found {n : Nat} (room : n < largest) (free : name ++ toString n ∉ taken) :
    FindsBelow name taken largest n n
  | next {n last : Nat} (room : n < largest) (used : name ++ toString n ∈ taken)
      (later : FindsBelow name taken largest (n + 1) last) : FindsBelow name taken largest n last

/-- The choice of a local name for a package, where the search is carried to its end. -/
inductive Picks (path name : String) (taken : Finset String) : String → Prop where
  /-- Its own name. -/
  | own (free : name ∉ taken) : Picks path name taken name
  /-- Its name behind that of its parent directory, where this has word characters. -/
  | behindParent (used : name ∈ taken) (named : parentWord path ≠ "")
      (free : parentWord path ++ name ∉ taken) : Picks path name taken (parentWord path ++ name)
  /-- Its name with the first number, from two on, that is free. -/
  | numbered {n : Nat} (used : name ∈ taken)
      (barred : parentWord path ≠ "" → parentWord path ++ name ∈ taken)
      (found : Finds name taken 2 n) : Picks path name taken (name ++ toString n)

private theorem numbered_injective (name : String) :
    Function.Injective fun n : Nat => name ++ toString n := by
  intro a b same
  have digits : Nat.toDigits 10 a = Nat.toDigits 10 b := by
    have texts := congrArg String.toList same
    simpa only [String.toList_append, List.append_cancel_left_eq, Nat.toString_eq_repr,
      Nat.toList_repr] using texts
  have numbers := congrArg (fun digits => Nat.ofDigitChars 10 digits 0) digits
  simpa using numbers

private theorem le_card_of_forall_mem {name : String} {taken : Finset String} {first last : Nat}
    (used : ∀ n, first ≤ n → n < last → name ++ toString n ∈ taken) :
    last ≤ first + taken.card := by
  have inside : (Finset.Ico first last).image (fun n => name ++ toString n) ⊆ taken := by
    intro candidate member
    obtain ⟨n, within, rfl⟩ := Finset.mem_image.1 member
    rw [Finset.mem_Ico] at within
    exact used n within.1 within.2
  have bound := Finset.card_le_card inside
  rw [Finset.card_image_of_injective _ (numbered_injective name), Nat.card_Ico] at bound
  omega

private theorem exists_numbered_not_mem (name : String) (taken : Finset String) (first : Nat) :
    ∃ n, first ≤ n ∧ n ≤ first + taken.card ∧ name ++ toString n ∉ taken := by
  by_contra all
  have used : ∀ n, first ≤ n → n < first + taken.card + 1 → name ++ toString n ∈ taken := by
    intro n above below
    by_contra free
    exact all ⟨n, above, by omega, free⟩
  have bound := le_card_of_forall_mem used
  omega

namespace Finds

variable {name : String} {taken : Finset String} {first last : Nat}

private theorem not_mem (finds : Finds name taken first last) : name ++ toString last ∉ taken := by
  induction finds with
  | found free => exact free
  | next used later ih => exact ih

private theorem mem_of_lt (finds : Finds name taken first last) :
    ∀ n, first ≤ n → n < last → name ++ toString n ∈ taken := by
  induction finds with
  | found free =>
    intro n above below
    omega
  | @next start last used later ih =>
    intro n above below
    by_cases here : n = start
    · exact here ▸ used
    · exact ih n (by omega) below

theorem unique (finds : Finds name taken first last) {other : Nat}
    (again : Finds name taken first other) : other = last := by
  induction finds with
  | found free =>
    cases again with
    | found => rfl
    | next used => exact absurd used free
  | next used later ih =>
    cases again with
    | found free => exact absurd used free
    | next _ further => exact ih further

theorem le (finds : Finds name taken first last) : first ≤ last := by
  induction finds with
  | found free => exact Nat.le_refl _
  | next used later ih => omega

private theorem findsBelow (finds : Finds name taken first last) {largest : Nat}
    (room : last < largest) : FindsBelow name taken largest first last := by
  induction finds with
  | found free => exact .found room free
  | next used later ih =>
    have ahead := later.le
    exact .next (by omega) used (ih room)

end Finds

theorem FindsBelow.finds {name : String} {taken : Finset String} {largest first last : Nat}
    (finds : FindsBelow name taken largest first last) : Finds name taken first last := by
  induction finds with
  | found _ free => exact .found free
  | next _ used later ih => exact .next used ih

/-- While fewer names are taken than a counter of 32 bits with a sign can pass over from two on, the
search with it ends where the search without a bound does. -/
theorem findsBelow_int32_iff {name : String} {taken : Finset String} {last : Nat}
    (few : taken.card + 2 < 2 ^ 31 - 1) :
    FindsBelow name taken (2 ^ 31 - 1) 2 last ↔ Finds name taken 2 last := by
  constructor
  · intro finds
    exact finds.finds
  · intro finds
    have bound := le_card_of_forall_mem finds.mem_of_lt
    exact finds.findsBelow (by omega)

private theorem finds_numberedName {name : String} {taken : List String} {fuel first : Nat}
    (free : ∃ n, first ≤ n ∧ n ≤ first + fuel ∧ name ++ toString n ∉ taken.toFinset) :
    ∃ last, Finds name taken.toFinset first last ∧
      numberedName name taken fuel first = name ++ toString last := by
  induction fuel generalizing first with
  | zero =>
    obtain ⟨n, above, below, free⟩ := free
    obtain rfl : n = first := by omega
    exact ⟨n, .found free, rfl⟩
  | succ fuel ih =>
    rw [numberedName]
    split_ifs with used
    · rw [← List.mem_toFinset] at used
      obtain ⟨n, above, below, free⟩ := free
      have later : n ≠ first := by
        rintro rfl
        exact free used
      -- The number passed over is not the free one, which is now one step nearer.
      have ahead :
          ∃ m, first + 1 ≤ m ∧ m ≤ first + 1 + fuel ∧ name ++ toString m ∉ taken.toFinset :=
        ⟨n, by omega, by omega, free⟩
      obtain ⟨last, finds, same⟩ := ih ahead
      exact ⟨last, .next used finds, same⟩
    · rw [← List.mem_toFinset] at used
      exact ⟨first, .found used, rfl⟩

private theorem finds_numberedName_length (name : String) (taken : List String) (first : Nat) :
    ∃ last, Finds name taken.toFinset first last ∧
      numberedName name taken taken.length first = name ++ toString last := by
  obtain ⟨n, above, below, free⟩ := exists_numbered_not_mem name taken.toFinset first
  have size := taken.toFinset_card_le
  exact finds_numberedName ⟨n, above, by omega, free⟩

theorem picks_pickName (path name : String) (taken : List String) :
    Picks path name taken.toFinset (pickName path name taken) := by
  rw [pickName]
  split_ifs with own parent
  · rw [← List.mem_toFinset] at own parent
    exact .behindParent own parent.1 parent.2
  · obtain ⟨last, finds, same⟩ := finds_numberedName_length name taken 2
    rw [same]
    apply Picks.numbered _ _ finds
    · simpa using own
    · intro named
      by_contra free
      rw [List.mem_toFinset] at free
      exact parent ⟨named, free⟩
  · exact .own (by simpa using own)

namespace Picks

variable {path name picked : String} {taken : Finset String}

private theorem not_mem (picks : Picks path name taken picked) : picked ∉ taken := by
  cases picks with
  | own free => exact free
  | behindParent used named free => exact free
  | numbered used barred found => exact found.not_mem

theorem unique (picks : Picks path name taken picked) {other : String}
    (again : Picks path name taken other) : other = picked := by
  cases picks with
  | own free =>
    cases again with
    | own => rfl
    | behindParent used => exact absurd used free
    | numbered used => exact absurd used free
  | behindParent used named free =>
    cases again with
    | own unused => exact absurd used unused
    | behindParent => rfl
    | numbered _ barred => exact absurd (barred named) free
  | numbered used barred found =>
    cases again with
    | own unused => exact absurd used unused
    | behindParent _ named free => exact absurd (barred named) free
    | numbered _ _ again => rw [found.unique again]

end Picks

theorem pickName_not_mem (name : String) (taken : List String) (path : String) :
    pickName path name taken ∉ taken := by
  rw [← List.mem_toFinset]
  exact (picks_pickName path name taken).not_mem

/-- Whatever names are taken, the choice of a name comes to an end, at one name only, and this name
is not taken. From any number on, the search through the numbered names ends at one number only, and
passes over no more numbers than names are taken. -/
theorem picked_name_free (path name : String) (taken : List String) :
    (∀ picked, Picks path name taken.toFinset picked ↔ picked = pickName path name taken) ∧
      pickName path name taken ∉ taken ∧
      ∀ first, ∃ last ≤ first + taken.toFinset.card,
        ∀ n, Finds name taken.toFinset first n ↔ n = last := by
  refine ⟨fun picked => ⟨?_, ?_⟩, pickName_not_mem name taken path, fun first => ?_⟩
  · intro picks
    exact (picks_pickName path name taken).unique picks
  · rintro rfl
    exact picks_pickName path name taken
  · obtain ⟨last, finds, -⟩ := finds_numberedName_length name taken first
    refine ⟨last, le_card_of_forall_mem finds.mem_of_lt, fun n => ⟨?_, ?_⟩⟩
    · intro again
      exact finds.unique again
    · rintro rfl
      exact finds

-- One of the names that are taken stands twice, and `base4` leaves a gap.
example :
    pickName "m/cli/base" "base" ["base4", "base2", "clibase", "base", "base2"] = "base3" := by
  decide +kernel

end Repackage.ImportPlan
