import Mathlib.Data.List.Nodup
import Repackage.Proofs.Boundaries

/-!
Batches of edits and single edits. The one pass over an ordered batch makes the same text as the
edits that it keeps, made one at a time from the last to the first: so made, each edit finds the
text before it as it was in the beginning.
-/

set_option autoImplicit false
set_option relaxedAutoImplicit false

namespace Repackage.Edit

/-- The offsets between which an edit replaces the text. -/
def range (edit : Edit) : Nat × Nat :=
  (edit.start, edit.stop)

/-- Makes one edit in a text. There is no result when it lies outside the text or inside a
character. -/
def perform (edit : Edit) (text : Text) : Option Text := do
  let (before, _) ← Text.cut? edit.start text
  let (_, after) ← Text.cut? edit.stop text
  return before ++ edit.replacement ++ after

/-- The edits of an ordered batch that do not start before an offset, nor before the end of the one
that is kept before them. -/
def kept (offset : Nat) : List Edit → List Edit
  | [] => []
  | edit :: edits =>
    if edit.start < offset then kept offset edits else edit :: kept edit.stop edits

/-- Whether a batch has been put in order by start and end, edits of one range in the order in which
they came. -/
structure IsStableSort (edits sorted : List Edit) : Prop where
  perm : sorted.Perm edits
  ordered : sorted.Pairwise fun a b => a.precedes b
  stable : ∀ range, sorted.filter (·.range = range) = edits.filter (·.range = range)

theorem precedes_iff {a b : Edit} :
    a.precedes b ↔ a.start < b.start ∨ a.start = b.start ∧ a.stop ≤ b.stop := by
  simp [precedes]

private theorem precedes_refl (a : Edit) : a.precedes a :=
  precedes_iff.2 (.inr ⟨rfl, le_rfl⟩)

theorem precedes_trans (a b c : Edit) (first : a.precedes b) (second : b.precedes c) :
    a.precedes c := by
  rw [precedes_iff] at first second ⊢
  omega

theorem precedes_total (a b : Edit) : a.precedes b || b.precedes a := by
  rw [Bool.or_eq_true, precedes_iff, precedes_iff]
  omega

private theorem range_eq_of_precedes {a b : Edit} (first : a.precedes b) (second : b.precedes a) :
    a.range = b.range := by
  rw [precedes_iff] at first second
  exact Prod.ext (by simp only [range]; omega) (by simp only [range]; omega)

theorem pairwise_mergeSort_precedes (edits : List Edit) :
    (edits.mergeSort precedes).Pairwise fun a b => a.precedes b :=
  List.pairwise_mergeSort precedes_trans precedes_total edits

private theorem isStableSort_mergeSort (edits : List Edit) :
    IsStableSort edits (edits.mergeSort precedes) := by
  refine ⟨List.mergeSort_perm edits precedes, pairwise_mergeSort_precedes edits, fun range => ?_⟩
  have alike : (edits.filter (·.range = range)).Pairwise fun a b => a.precedes b := by
    refine List.pairwise_of_forall_mem_list fun a first b second => ?_
    have same : a.range = b.range := by
      simp only [List.mem_filter, decide_eq_true_eq] at first second
      rw [first.2, second.2]
    simp only [Edit.range, Prod.mk.injEq] at same
    exact precedes_iff.2 (.inr ⟨same.1, same.2.le⟩)
  -- Sorting keeps the edits of one range as a sublist, and there are as many of them as before.
  have kept : (edits.filter (·.range = range)).Sublist (edits.mergeSort precedes) :=
    List.sublist_mergeSort precedes_trans precedes_total alike List.filter_sublist
  have inner := kept.filter fun edit => decide (edit.range = range)
  simp only [List.filter_filter, Bool.and_self] at inner
  exact (inner.eq_of_length ((List.mergeSort_perm edits precedes).filter _).length_eq.symm).symm

private theorem mem_iff_of_filter {xs ys : List Edit}
    (same : ∀ range, xs.filter (·.range = range) = ys.filter (·.range = range)) (edit : Edit) :
    edit ∈ xs ↔ edit ∈ ys := by
  have member := congrArg (edit ∈ ·) (same edit.range)
  simpa using member

private theorem eq_of_ordered {xs ys : List Edit} (first : xs.Pairwise fun a b => a.precedes b)
    (second : ys.Pairwise fun a b => a.precedes b)
    (same : ∀ range, xs.filter (·.range = range) = ys.filter (·.range = range)) : xs = ys := by
  have mem_iff := mem_iff_of_filter same
  induction xs generalizing ys with
  | nil => exact (List.eq_nil_iff_forall_not_mem.2 fun edit member => by
      simpa using (mem_iff edit).2 member).symm
  | cons x xs ih =>
    cases ys with
    | nil => simpa using (mem_iff x).1 List.mem_cons_self
    | cons y ys =>
      obtain ⟨least, inner⟩ := List.pairwise_cons.1 first
      obtain ⟨least', inner'⟩ := List.pairwise_cons.1 second
      have xy : x.precedes y := by
        obtain rfl | member := List.mem_cons.1 ((mem_iff y).2 List.mem_cons_self)
        · exact precedes_refl y
        · exact least y member
      have yx : y.precedes x := by
        obtain rfl | member := List.mem_cons.1 ((mem_iff x).1 List.mem_cons_self)
        · exact precedes_refl x
        · exact least' x member
      have heads := same x.range
      rw [List.filter_cons_of_pos (by simp),
        List.filter_cons_of_pos (by simpa using range_eq_of_precedes yx xy)] at heads
      obtain ⟨rfl, -⟩ := List.cons.inj heads
      have tails (range : Nat × Nat) :
          xs.filter (·.range = range) = ys.filter (·.range = range) := by
        have here := same range
        simp only [List.filter_cons] at here
        split_ifs at here
        · exact (List.cons.inj here).2
        · exact here
      exact congrArg (x :: ·) (ih inner inner' tails (mem_iff_of_filter tails))

private theorem IsStableSort.eq {edits sorted : List Edit} (sorts : IsStableSort edits sorted) :
    sorted = edits.mergeSort precedes :=
  eq_of_ordered sorts.ordered (pairwise_mergeSort_precedes edits) fun range =>
    (sorts.stable range).trans ((isStableSort_mergeSort edits).stable range).symm

private theorem splice_eq_of_sorts {edits sorted : List Edit} (sorts : IsStableSort edits sorted)
    (text : Text) : splice text edits = spliceFrom text 0 sorted := by
  rw [splice, sorts.eq]

theorem splice_perm {edits others : List Edit} (perm : edits.Perm others)
    (distinct : (edits.map range).Nodup) (text : Text) :
    splice text edits = splice text others := by
  have sorted : edits.mergeSort precedes = others.mergeSort precedes := by
    have listed := List.mergeSort_perm edits precedes
    have permuted := (listed.trans perm).trans (List.mergeSort_perm others precedes).symm
    refine permuted.eq_of_pairwise ?_ (pairwise_mergeSort_precedes edits)
      (pairwise_mergeSort_precedes others)
    intro a b first second ab ba
    refine List.inj_on_of_nodup_map distinct (listed.subset first) ?_ (range_eq_of_precedes ab ba)
    exact listed.subset (permuted.symm.subset second)
  rw [splice, splice, sorted]

private theorem perform_byteSize (before replaced after replacement : Text) :
    perform ⟨Text.byteSize before, Text.byteSize (before ++ replaced), replacement⟩
        (before ++ replaced ++ after) = some (before ++ replacement ++ after) := by
  have first : Text.cut? (Text.byteSize before) (before ++ replaced ++ after) =
      some (before, replaced ++ after) := by
    rw [List.append_assoc, Text.cut?_byteSize]
  simp [perform, first, Text.cut?_byteSize, -List.append_assoc]

private theorem foldrM_kept {before rest result : Text} {edits : List Edit}
    (fits : ∀ edit ∈ edits, edit.Fits (before ++ rest))
    (spliced : spliceFrom (before ++ rest) (Text.byteSize before) edits = some result) :
    (kept (Text.byteSize before) edits).foldrM perform (before ++ rest) =
      some (before ++ result) := by
  induction edits generalizing before rest result with
  | nil =>
    obtain rfl : rest = result := by simpa [spliceFrom, Text.cut?_byteSize] using spliced
    rfl
  | cons edit edits ih =>
    obtain ⟨⟨ordered, start, stop⟩, later⟩ := List.forall_mem_cons.1 fits
    rw [spliceFrom] at spliced
    rw [kept]
    split_ifs at spliced ⊢ with behind
    · exact ih later spliced
    · obtain ⟨first, last, replacement⟩ := edit
      obtain ⟨middle, rest, rfl, rfl⟩ := start.exists_behind (Nat.le_of_not_lt behind)
      rw [← List.append_assoc] at stop later spliced ⊢
      obtain ⟨replaced, after, rfl, rfl⟩ := stop.exists_behind ordered
      rw [← List.append_assoc] at later spliced ⊢
      have sliced : Text.slice? (before ++ middle ++ replaced ++ after) (Text.byteSize before)
          (Text.byteSize (before ++ middle)) = some middle := by
        rw [List.append_assoc]
        exact Text.slice?_byteSize before middle (replaced ++ after)
      simp only [sliced] at spliced
      split at spliced
      next part tail here passed =>
        obtain rfl := Option.some.inj here
        obtain rfl := Option.some.inj spliced
        -- The later edits leave this one its place, and everything up to its end.
        have done := ih later passed
        rw [List.foldrM_cons, done, Option.bind_eq_bind, Option.bind_some, perform_byteSize]
        simp
      · cases spliced

/-- Splicing a batch of edits that fit a text gives a result: the one that its kept edits give when
they are made one at a time from the last to the first. The batch is first put in order, in the only
way that leaves edits of one range as they came; where no two edits have the same range, any other
order of the batch gives the same. -/
theorem splice_in_turn {text : Text} {edits : List Edit} (fits : ∀ edit ∈ edits, edit.Fits text) :
    (∃! sorted, IsStableSort edits sorted) ∧
      ∀ sorted, IsStableSort edits sorted → ∃ result,
        splice text edits = some result ∧
        (kept 0 sorted).foldrM perform text = some result ∧
        ((edits.map range).Nodup → ∀ others : List Edit, others.Perm edits →
          splice text others = some result) := by
  refine ⟨⟨_, isStableSort_mergeSort edits, fun sorted sorts => sorts.eq⟩, fun sorted sorts => ?_⟩
  obtain ⟨result, spliced⟩ := exists_splice fits
  refine ⟨result, spliced, ?_, fun distinct others perm => ?_⟩
  · rw [splice_eq_of_sorts sorts] at spliced
    have inner (edit : Edit) (member : edit ∈ sorted) : edit.Fits ([] ++ text) :=
      fits edit (sorts.perm.subset member)
    exact foldrM_kept inner spliced
  · rw [← splice_perm perm.symm distinct, spliced]

/-- Insertions at both ends of a replaced range, with edits inside of it and across its end. -/
def oxbowEdits : List Edit :=
  [⟨1, 5, ['X']⟩, .insertAt 5 ['>'], ⟨3, 4, ['Y']⟩, .insertAt 1 ['<'], ⟨4, 8, ['Z']⟩]

theorem oxbow_in_turn :
    (∀ edit ∈ oxbowEdits, edit.Fits "résumé".toList) ∧ (oxbowEdits.map range).Nodup ∧
      (kept 0 (oxbowEdits.mergeSort precedes)).foldrM perform "résumé".toList =
        some "r<X>mé".toList ∧
      splice "résumé".toList oxbowEdits.reverse = some "r<X>mé".toList := by
  have fits : ∀ edit ∈ oxbowEdits, edit.Fits "résumé".toList := by decide +kernel
  have distinct : (oxbowEdits.map range).Nodup := by decide +kernel
  obtain ⟨result, spliced, inTurn, anyOrder⟩ :=
    (splice_in_turn fits).2 _ (isStableSort_mergeSort oxbowEdits)
  obtain rfl : "r<X>mé".toList = result := by
    have sorted : oxbowEdits.mergeSort precedes = [.insertAt 1 ['<'], ⟨1, 5, ['X']⟩,
        ⟨3, 4, ['Y']⟩, ⟨4, 8, ['Z']⟩, .insertAt 5 ['>']] := by
      simp [oxbowEdits, List.mergeSort, precedes, insertAt]
    rw [sorted] at inTurn
    exact Option.some.inj (.trans (by decide +kernel) inTurn)
  exact ⟨fits, distinct, inTurn, anyOrder distinct _ (List.reverse_perm oxbowEdits)⟩

end Repackage.Edit
