import Mathlib.Data.List.Nodup
import Repackage.Proofs.Dict
import Repackage.Proofs.ImportPlaces

/-!
Adding imports that a file lacks. What is missing is listed once for each path, and all of it is put
at one place of the file. New lines go in where no other token than white space goes across, so they
are read as the imports they are written for, and once they are there nothing is missing any more.
-/

set_option autoImplicit false
set_option relaxedAutoImplicit false

namespace Repackage

open Token (texts space)

namespace Token

def IsOpenAt (text : Text) (offset : Nat) : Prop :=
  ∀ before token after, lex text = .ok (before ++ token :: after) →
    Text.byteSize (texts before) < offset → offset < Text.byteSize (texts (before ++ [token])) →
    token.kind = .blank

private theorem exists_of_texts_eq {tokens : List Token} {front back : Text} {c : Char}
    (same : texts tokens = front ++ c :: back) :
    ∃ before token after left right, tokens = before ++ token :: after ∧
      token.text = left ++ c :: right ∧ front = texts before ++ left := by
  induction tokens generalizing front with
  | nil => simp [texts] at same
  | cons token tokens ih =>
    have later {rest : Text} (tail : texts tokens = rest ++ c :: back) :
        ∃ before found after left right, token :: tokens = before ++ found :: after ∧
          found.text = left ++ c :: right ∧ token.text ++ rest = texts before ++ left := by
      obtain ⟨before, found, after, left, right, rfl, spelled, rfl⟩ := ih tail
      exact ⟨token :: before, found, after, left, right, rfl, spelled, by simp [texts]⟩
    rw [texts_cons] at same
    rcases append_cases same with ⟨rest, spelled, -⟩ | ⟨rest, rfl, tail⟩
    · exact ⟨[], token, tokens, front, rest, rfl, spelled, rfl⟩
    · exact later tail

section LineEnd

variable {before after before' after' : List Token} {token token' : Token} {left right : Text}

private theorem byteSize_of_newline (spelled : token.text = left ++ '\n' :: right) :
    Text.byteSize token.text = Text.byteSize (left ++ ['\n']) + Text.byteSize right := by
  rw [spelled, ← Text.byteSize_append]
  simp

theorem eq_of_across_newline
    (same : before' ++ token' :: after' = before ++ token :: after)
    (spelled : token.text = left ++ '\n' :: right)
    (starts : Text.byteSize (texts before') <
      Text.byteSize (texts before) + Text.byteSize (left ++ ['\n']))
    (ends : Text.byteSize (texts before) + Text.byteSize (left ++ ['\n']) <
      Text.byteSize (texts (before' ++ [token']))) : token' = token := by
  by_contra different
  -- Another token that ends behind the offset starts behind the whole token.
  obtain ⟨between, rfl, -⟩ := behind_of_byteSize_lt same different (by omega)
  have size := byteSize_of_newline spelled
  rw [texts_append, Text.byteSize_append, texts_cons, Text.byteSize_append] at starts
  omega

theorem across_newline {rest : Text} (stands : token.Stands rest) (solid : token.kind ≠ .blank)
    (spelled : token.text = left ++ '\n' :: right) (before : List Token) :
    Text.byteSize (texts before) <
        Text.byteSize (texts before) + Text.byteSize (left ++ ['\n']) ∧
      Text.byteSize (texts before) + Text.byteSize (left ++ ['\n']) <
        Text.byteSize (texts (before ++ [token])) := by
  have positive : 0 < Text.byteSize ['\n'] := by decide
  have more : 0 < Text.byteSize right := by
    rw [Nat.pos_iff_ne_zero]
    intro empty
    obtain rfl := Text.eq_nil_of_byteSize empty
    exact solid (stands.kind_of_newline (by simp [spelled]))
  have size := byteSize_of_newline spelled
  have ends : texts (before ++ [token]) = texts before ++ token.text := by simp [texts]
  rw [ends, Text.byteSize_append (texts before), size, Text.byteSize_append left]
  omega

private theorem isOpenAt_newline_iff (stand : Stand (before ++ token :: after))
    (spelled : token.text = left ++ '\n' :: right) :
    IsOpenAt (texts (before ++ token :: after))
      (Text.byteSize (texts before) + Text.byteSize (left ++ ['\n'])) ↔ token.kind = .blank := by
  have lexed : lex (texts (before ++ token :: after)) = .ok (before ++ token :: after) :=
    lexFrom_eq_ok_iff.2 ⟨rfl, stand⟩
  obtain ⟨-, ⟨stands, -⟩, -⟩ := stand_append_iff.1 stand
  constructor
  · intro isOpen
    by_contra solid
    obtain ⟨starts, ends⟩ := across_newline stands solid spelled before
    exact solid (isOpen before token after lexed starts ends)
  · intro blank before' token' after' lexed' starts ends
    have same := Except.ok.inj (lexed'.symm.trans lexed)
    rw [eq_of_across_newline same spelled starts ends]
    exact blank

end LineEnd

end Token

namespace SourceFile

/-- What has been found missing after some of the required imports. -/
private structure Lacks (present : List String) (required : List Import) (missing : Dict Import) :
    Prop where
  entries : ∀ entry ∈ missing.entries,
    entry.1 = entry.2.path ∧ entry.2 ∈ required ∧ entry.2.path ∉ present
  keys : ∀ spec ∈ required, spec.path ∉ present → spec.path ∈ missing.keys

private theorem Lacks.weaken {present : List String} {seen : List Import} {missing : Dict Import}
    (lacks : Lacks present seen missing) {spec : Import}
    (known : spec.path ∉ present → spec.path ∈ missing.keys) :
    Lacks present (seen ++ [spec]) missing where
  entries := by
    intro entry member
    obtain ⟨key, required, absent⟩ := lacks.entries entry member
    exact ⟨key, List.mem_append_left _ required, absent⟩
  keys := by
    intro other member
    rcases List.mem_append.1 member with earlier | new
    · exact lacks.keys other earlier
    · obtain rfl := List.mem_singleton.1 new
      exact known

private theorem Lacks.step {present : List String} {seen : List Import} {missing : Dict Import}
    (lacks : Lacks present seen missing) (spec : Import) :
    Lacks present (seen ++ [spec])
      (if spec.path ∈ present then missing else missing.insertNew spec.path spec) := by
  split_ifs with there
  · exact lacks.weaken fun absent => absurd there absent
  · rw [Dict.insertNew]
    split_ifs with noted
    · exact lacks.weaken fun _ => Dict.mem_keys_iff.2 noted
    · refine ⟨fun entry member => ?_, fun other member absent => ?_⟩
      · rcases Dict.mem_insertEntry member with rfl | old
        · exact ⟨rfl, by simp, there⟩
        · obtain ⟨key, required, absent⟩ := lacks.entries entry old
          exact ⟨key, List.mem_append_left _ required, absent⟩
      · rw [Dict.mem_keys_iff, Dict.find?_insert]
        split_ifs with same
        · rfl
        · rcases List.mem_append.1 member with earlier | new
          · exact Dict.mem_keys_iff.1 (lacks.keys other earlier absent)
          · obtain rfl := List.mem_singleton.1 new
            exact absurd rfl same

private theorem Lacks.run {present : List String} {seen : List Import} {missing : Dict Import}
    (lacks : Lacks present seen missing) (required : List Import) :
    Lacks present (seen ++ required) (required.foldl
      (fun missing spec =>
        if spec.path ∈ present then missing else missing.insertNew spec.path spec) missing) := by
  induction required generalizing seen missing with
  | nil => rwa [List.append_nil]
  | cons spec required ih =>
    have parts : seen ++ spec :: required = seen ++ [spec] ++ required := by simp
    rw [parts]
    exact ih (lacks.step spec)

variable {present : List String} {required : List Import}

private theorem exists_lacks (present : List String) (required : List Import) :
    ∃ missing : Dict Import, Lacks present required missing ∧
      missingImports present required = missing.values ∧
      (missingImports present required).map (·.path) = missing.keys := by
  have start : Lacks present [] Dict.empty := ⟨by simp [Dict.empty], by simp⟩
  have lacks := start.run required
  refine ⟨_, lacks, rfl, ?_⟩
  rw [missingImports, Dict.values, Dict.keys, List.map_map]
  exact List.map_congr_left fun entry member => (lacks.entries entry member).1.symm

theorem mem_of_mem_missingImports {spec : Import}
    (member : spec ∈ missingImports present required) :
    spec ∈ required ∧ spec.path ∉ present := by
  obtain ⟨missing, lacks, values, -⟩ := exists_lacks present required
  rw [values] at member
  obtain ⟨entry, found, rfl⟩ := List.mem_map.1 member
  exact (lacks.entries entry found).2

private theorem mem_missingImports_paths {spec : Import} (needed : spec ∈ required)
    (absent : spec.path ∉ present) :
    spec.path ∈ (missingImports present required).map (·.path) := by
  obtain ⟨missing, lacks, -, keys⟩ := exists_lacks present required
  rw [keys]
  exact lacks.keys spec needed absent

private theorem sorted_missingImports (present : List String) (required : List Import) :
    (missingImports present required).Pairwise fun a b => a.path < b.path := by
  obtain ⟨missing, -, -, keys⟩ := exists_lacks present required
  refine List.pairwise_map.1 ?_
  rw [keys]
  exact missing.keys_sorted

private theorem nodup_paths {specs : List Import}
    (sorted : specs.Pairwise fun a b => a.path < b.path) : (specs.map (·.path)).Nodup := by
  refine List.pairwise_map.2 (sorted.imp ?_)
  rintro a b less same
  rw [same] at less
  exact String.lt_irrefl _ less

private theorem nodup_missingImports (present : List String) (required : List Import) :
    ((missingImports present required).map (·.path)).Nodup :=
  nodup_paths (sorted_missingImports present required)

theorem missingImports_eq_self (sorted : required.Pairwise fun a b => a.path < b.path)
    (absent : ∀ spec ∈ required, spec.path ∉ present) :
    missingImports present required = required := by
  have ordered := sorted_missingImports present required
  have distinct := nodup_paths sorted
  have perm : (missingImports present required).Perm required := by
    refine (List.perm_ext_iff_of_nodup (nodup_paths ordered).of_map distinct.of_map).2 fun spec =>
      ⟨fun member => (mem_of_mem_missingImports member).1, fun needed => ?_⟩
    -- The one that is listed under the path is the same import.
    obtain ⟨other, member, same⟩ :=
      List.mem_map.1 (mem_missingImports_paths needed (absent spec needed))
    obtain rfl := List.inj_on_of_nodup_map distinct (mem_of_mem_missingImports member).1 needed same
    exact member
  refine perm.eq_of_pairwise (fun a b _ _ less greater => ?_) ordered sorted
  exact absurd (String.lt_trans less greater) (String.lt_irrefl _)

private theorem missingImports_eq_nil (all : ∀ spec ∈ required, spec.path ∈ present) :
    missingImports present required = [] := by
  rw [List.eq_nil_iff_forall_not_mem]
  intro spec member
  obtain ⟨needed, absent⟩ := mem_of_mem_missingImports member
  exact absent (all spec needed)

variable {file : SourceFile} {imports : List Import}

theorem exists_layout (read : file.imports = .ok imports) :
    ∃ layout, ImportLayout.ofFile file = .ok layout ∧
      layout.elim [] (fun layout => layout.specs.map (·.spec.path)) = imports.map (·.path) := by
  cases layout : ImportLayout.ofFile file with
  | error cause =>
    rw [SourceFile.imports, layout] at read
    cases read
  | ok found =>
    rw [SourceFile.imports, layout] at read
    cases found with
    | none =>
      cases read
      exact ⟨none, rfl, rfl⟩
    | some placed =>
      cases read
      exact ⟨some placed, rfl, by simp⟩

theorem reconcile_of_present (read : file.imports = .ok imports)
    (all : ∀ spec ∈ required, spec.path ∈ imports.map (·.path)) :
    file.reconcile required = .ok (file, []) := by
  obtain ⟨layout, found, paths⟩ := exists_layout read
  simp only [reconcile_eq, importEdit?, found, paths, missingImports_eq_nil all, if_true]

/-- Whether the required imports can be added to a file so that it has all of them, the new ones
once and the others as before, and nothing is left to add. -/
def ImportsOnce (file : SourceFile) (required : List Import) : Prop :=
  ∃ before edited added after, file.imports = .ok before ∧
    file.reconcile required = .ok (edited, added) ∧ edited.imports = .ok after ∧
    (∀ spec ∈ required, spec.path ∉ before.map (·.path) →
      (after.map (·.path)).count spec.path = 1) ∧
    (∀ path ∈ before.map (·.path),
      (after.map (·.path)).count path = (before.map (·.path)).count path) ∧
    edited.reconcile required = .ok (edited, [])

private theorem importsOnce_of_present (read : file.imports = .ok imports)
    (all : ∀ spec ∈ required, spec.path ∈ imports.map (·.path)) : file.ImportsOnce required := by
  have kept := reconcile_of_present read all
  refine ⟨imports, file, [], imports, read, kept, read, ?_, fun _ _ => rfl, kept⟩
  exact fun spec needed absent => absurd (all spec needed) absent

private theorem importsOnce_of_takesIn (read : file.imports = .ok imports) {edit : Edit}
    (takes : file.TakesIn imports edit (missingImports (imports.map (·.path)) required))
    (chosen : ∀ edited changed, file.edit [edit] = .ok (edited, changed) →
      file.reconcile required =
        .ok (edited, missingImports (imports.map (·.path)) required)) :
    file.ImportsOnce required := by
  obtain ⟨edited, changed, after, done, read', same⟩ := takes
  have count (path : String) : (after.map (·.path)).count path =
      (imports.map (·.path)).count path +
        ((missingImports (imports.map (·.path)) required).map (·.path)).count path := by
    rw [same.count_eq, List.count_append]
  refine ⟨imports, edited, _, after, read, chosen edited changed done, read', ?_, ?_, ?_⟩
  · intro spec needed absent
    have once := List.count_eq_one_of_mem (nodup_missingImports _ _)
      (mem_missingImports_paths needed absent)
    have never := List.count_eq_zero_of_not_mem absent
    rw [count]
    omega
  · intro path there
    have none : path ∉ (missingImports (imports.map (·.path)) required).map (·.path) := by
      intro member
      obtain ⟨spec, missing, rfl⟩ := List.mem_map.1 member
      exact (mem_of_mem_missingImports missing).2 there
    have never := List.count_eq_zero_of_not_mem none
    rw [count]
    omega
  · refine reconcile_of_present read' fun spec needed => same.mem_iff.2 ?_
    by_cases there : spec.path ∈ imports.map (·.path)
    · exact List.mem_append_left _ there
    · exact List.mem_append_right _ (mem_missingImports_paths needed there)

/-- Whether the place behind the first line end after the last import of the first group, where new
imports go, is not inside a comment or a literal. -/
def HasOpenEnd (file : SourceFile) : Prop :=
  ∀ specs start stop last tail,
    ImportLayout.ofFile file = .ok (some ⟨specs, some (start, stop)⟩) →
    (specs.filter fun placed => placed.start > start && placed.stop < stop).getLast? = some last →
    Text.slice? file.text last.stop stop = some tail → '\n' ∈ tail →
    Token.IsOpenAt file.text (last.stop + Text.byteSize (tail.takeWhile (· ≠ '\n')) + 1)

/-- Whether new imports go behind a line end at an offset: the first one after the last import of
the first group. -/
def EndsLineAt (file : SourceFile) (offset : Nat) : Prop :=
  ∃ specs start stop last tail,
    ImportLayout.ofFile file = .ok (some ⟨specs, some (start, stop)⟩) ∧
    (specs.filter fun placed => placed.start > start && placed.stop < stop).getLast? = some last ∧
    Text.slice? file.text last.stop stop = some tail ∧ '\n' ∈ tail ∧
    offset = last.stop + Text.byteSize (tail.takeWhile (· ≠ '\n')) + 1

theorem hasOpenEnd_iff :
    file.HasOpenEnd ↔ ∀ offset, file.EndsLineAt offset → Token.IsOpenAt file.text offset := by
  constructor
  · rintro openEnd offset ⟨specs, start, stop, last, tail, done, found, sliced, newline, rfl⟩
    exact openEnd specs start stop last tail done found sliced newline
  · intro openAt specs start stop last tail done found sliced newline
    exact openAt _ ⟨specs, start, stop, last, tail, done, found, sliced, newline, rfl⟩

def gapBehind (last : PlacedImport) (added : List Import) : Text :=
  if Import.isStandard last.spec.path && added.all (fun spec => !Import.isStandard spec.path)
  then ['\n'] else []

theorem eq_newline_of_mem_gapBehind {last : PlacedImport} {added : List Import} :
    ∀ c ∈ gapBehind last added, c = '\n' := by
  unfold gapBehind
  split_ifs <;> simp

variable {outline : Outline} {specs : List PlacedImport} {start stop : Nat} {last : PlacedImport}

theorem extendGroup_of_line {text tail : Text} {added : List Import}
    (found : (specs.filter fun placed =>
      placed.start > start && placed.stop < stop).getLast? = some last)
    (sliced : Text.slice? text last.stop stop = some tail) (newline : '\n' ∈ tail) :
    extendGroup text specs start stop added =
      some (.insertAt (last.stop + Text.byteSize (tail.takeWhile (· ≠ '\n')) + 1)
        (gapBehind last added ++ importLines added)) := by
  simp only [extendGroup, found, sliced, List.contains_iff_mem, newline, if_true, gapBehind]

theorem HasOutline.exists_last (has : file.HasOutline outline)
    (done : ImportLayout.ofFile file = .ok (some ⟨specs, some (start, stop)⟩))
    (found : (specs.filter fun placed =>
      placed.start > start && placed.stop < stop).getLast? = some last) :
    ∃ (slot : outline.Slot) (front : List Token) (literal : Token),
      slot.left = front ++ [literal] ∧ slot.middle = [] ∧ literal.kind = .literal ∧
      last.stop = slot.start ∧
      Text.slice? file.text last.stop stop = some (texts slot.right) := by
  obtain ⟨group, whole, isFirst, starts, stops, among⟩ := has.exists_group done
  obtain ⟨member, within⟩ := List.mem_filter.1 (List.mem_of_getLast? found)
  simp only [Bool.and_eq_true, decide_eq_true_eq, gt_iff_lt] at within
  obtain ⟨front, literal, back, inside, kind, ends⟩ :=
    Outline.Group.exists_literal isFirst.opens isFirst.closes (among last member)
      (starts ▸ within.1) (stops ▸ within.2)
  let slot : outline.Slot :=
    ⟨group, front ++ [literal], [], back, whole, isFirst, by simp [inside]⟩
  refine ⟨slot, front, literal, rfl, rfl, kind, ends, ?_⟩
  have text : file.text = texts (outline.front ++ slot.ahead) ++ texts back ++
      texts (group.closing :: group.after ++ outline.body) := by
    rw [has.text, slot.tokens_eq]
    simp [texts, slot, Outline.Slot.behind]
  have closes : stop = Text.byteSize (texts (outline.front ++ slot.ahead) ++ texts back) := by
    rw [stops, inside, ← Text.byteSize_append]
    simp [texts, slot, Outline.Slot.ahead]
  have begins : last.stop = Text.byteSize (texts (outline.front ++ slot.ahead)) := by
    rw [ends, Token.texts_append outline.front, Text.byteSize_append]
    rfl
  rw [begins, closes, text, Text.slice?_byteSize]

theorem HasOutline.exists_lineEnd (has : file.HasOutline outline) {offset : Nat}
    (ends : file.EndsLineAt offset) : ∃ place : outline.LineEnd, offset = place.offset := by
  obtain ⟨specs, start, stop, last, tail, done, found, sliced, newline, rfl⟩ := ends
  obtain ⟨slot, -, -, -, empty, -, begins, sliced'⟩ := has.exists_last done found
  obtain rfl : texts slot.right = tail := Option.some.inj (sliced'.symm.trans sliced)
  obtain ⟨behind, line⟩ := Text.exists_line newline
  obtain ⟨between, token, right, front, back, rest, spelled, parts⟩ :=
    Token.exists_of_texts_eq line
  have inside : slot.group.inside = (slot.left ++ between) ++ [token] ++ right := by
    rw [slot.inside, empty, rest]
    simp
  refine ⟨⟨⟨slot.group, slot.left ++ between, [token], right, slot.whole, slot.isFirst, inside⟩,
    token, front, back, rfl, spelled⟩, ?_⟩
  have one : Text.byteSize ['\n'] = 1 := by decide
  have ahead : slot.group.before ++ slot.group.opening :: (slot.left ++ between) =
      slot.ahead ++ between := by
    simp [Outline.Slot.ahead]
  rw [parts, begins]
  simp only [Outline.LineEnd.offset, Outline.Slot.start, ahead, Outline.Slot.ahead.eq_1,
    Token.texts_append, Text.byteSize_append, one]
  omega

theorem HasOutline.isOpenAt_offset_iff (has : file.HasOutline outline)
    (place : outline.LineEnd) :
    Token.IsOpenAt file.text place.offset ↔ place.token.kind = .blank := by
  rw [Outline.LineEnd.offset, Outline.Slot.start, ← Text.byteSize_append, ← Token.texts_append,
    has.text, place.tokens_eq]
  exact Token.isOpenAt_newline_iff (place.tokens_eq ▸ has.stand) place.spelled

private theorem HasOutline.exists_roomAtClosing (has : file.HasOutline outline)
    {group : Outline.Group}
    (whole : outline.imports = group.tokens) (isFirst : group.IsFirst outline.gap outline.body) :
    ∃ room : outline.Room, room.IsTight ∧
      room.offset = Text.byteSize (texts outline.front) +
        Text.byteSize (texts (group.before ++ group.opening :: group.inside)) ∧
      room.front = if (texts outline.front ++ texts (group.before ++ group.opening ::
        group.inside)).getLast? = some '\n' then [] else ['\n'] := by
  obtain ⟨init, token, row⟩ : ∃ init token, group.opening :: group.inside = init ++ [token] :=
    ⟨_, _, (List.dropLast_append_getLast (List.cons_ne_nil _ _)).symm⟩
  obtain ⟨lead, isLead⟩ : ∃ lead : Text, lead = if (texts outline.front ++ texts (group.before ++
      group.opening :: group.inside)).getLast? = some '\n' then [] else ['\n'] := ⟨_, rfl⟩
  have newline : ∀ c ∈ ['\n'], Text.isBlank c = true := by
    simp only [List.mem_singleton, forall_eq]
    decide
  have blanks : ∀ c ∈ lead, Text.isBlank c := by
    rw [isLead]
    split_ifs
    · simp
    · exact newline
  obtain ⟨rest, stands⟩ : ∃ rest, token.Stands rest := by
    have member : token ∈ outline.tokens := by
      have among : token ∈ group.opening :: group.inside := by simp [row]
      rw [Outline.tokens_eq, whole, Outline.Group.tokens]
      refine List.mem_append_left _ (List.mem_append_right _ ?_)
      rw [← List.cons_append]
      exact List.mem_append_right _ (List.mem_append_left _ among)
    exact Token.exists_stands_of_mem has.stand member
  have solid : token.text ≠ [] := by
    obtain ⟨c, cs, spelled, -⟩ := stands
    simp [spelled]
  by_cases blank : token.kind = .blank
  · -- The lines go behind the white space at the end of the group.
    obtain ⟨left, rfl⟩ : ∃ left, init = group.opening :: left := by
      cases init with
      | nil =>
        obtain ⟨rfl, -⟩ := List.cons.inj row
        have mark := isFirst.opens
        simp [Token.isMark, blank] at mark
      | cons first left =>
        obtain ⟨rfl, -⟩ := List.cons.inj row
        exact ⟨left, rfl⟩
    have same : space (token.text ++ []) = [token] := by
      have whitespace : (⟨.blank, token.text⟩ : Token) = token := by rw [← blank]
      rw [List.append_nil, Token.space, if_neg solid, whitespace]
    have inside : group.inside = left ++ [token] ++ [] := by
      rw [List.append_nil]
      exact (List.cons.inj row).2
    refine ⟨⟨⟨group, left, [token], [], whole, isFirst, inside⟩, token.text, lead, [], same.symm,
      blanks, fun empty => absurd empty solid, isFirst.closing_not_isBlank⟩, .inl rfl, ?_, isLead⟩
    rw [Outline.Room.offset, Outline.Slot.start, row, Nat.add_assoc, ← Text.byteSize_append]
    simp [texts, Outline.Slot.ahead]
  · -- The last token does not end a line.
    have text : texts outline.front ++ texts (group.before ++ group.opening :: group.inside) =
        texts outline.front ++ texts group.before ++ texts init ++ token.text := by
      rw [row]
      simp [texts]
    have opens : lead = ['\n'] := by
      rw [isLead, if_neg]
      rw [text, List.getLast?_append_of_ne_nil _ solid]
      exact fun ends => blank (stands.kind_of_newline ends)
    have inside : group.inside = group.inside ++ [] ++ [] := by simp
    have apart : ∀ last ∈ (group.before ++ group.opening :: group.inside).getLast?,
        last.kind ≠ .blank := by
      intro last found
      rw [row, ← List.append_assoc, List.getLast?_concat] at found
      obtain rfl : token = last := Option.some.inj found
      exact blank
    refine ⟨⟨⟨group, group.inside, [], [], whole, isFirst, inside⟩, [], lead, [], rfl, blanks,
      fun _ => ⟨by rw [opens]; rfl, apart⟩, isFirst.closing_not_isBlank⟩, .inl rfl, rfl, isLead⟩

private theorem HasOutline.exists_roomBehind (has : file.HasOutline outline) (slot : outline.Slot)
    (empty : slot.middle = []) {front : List Token} {literal : Token}
    (ends : slot.left = front ++ [literal]) (kind : literal.kind = .literal) {gap : Text}
    (blank : ∀ c ∈ gap, Text.isBlank c) :
    ∃ room : outline.Room, room.IsTight ∧ room.offset = slot.start ∧ room.front = '\n' :: gap := by
  obtain ⟨group, left, middle, right, whole, isFirst, inside⟩ := slot
  dsimp only at empty ends
  subst empty
  have stand : Token.Stand (right ++ [group.closing]) := by
    have inner : Token.Stand group.tokens := whole ▸ Outline.stand_imports has.stand
    have parts : group.tokens = (group.before ++ group.opening :: left) ++
        ((right ++ [group.closing]) ++ group.after) := by
      simp [Outline.Group.tokens, inside]
    rw [parts] at inner
    exact (Token.stand_append_iff.1 (Token.stand_append_iff.1 inner).2.1).1
  obtain ⟨after, rest, rfl, next⟩ := Token.exists_space stand isFirst.closing_not_isBlank
  have newline : ∀ c ∈ '\n' :: gap, Text.isBlank c := by
    refine List.forall_mem_cons.2 ⟨?_, blank⟩
    decide
  have apart : ∀ last ∈ (group.before ++ group.opening :: left).getLast?, last.kind ≠ .blank := by
    intro last found
    rw [ends, ← List.cons_append, ← List.append_assoc, List.getLast?_concat] at found
    obtain rfl : literal = last := Option.some.inj found
    simp [kind]
  have parts : group.inside = left ++ space ([] ++ after) ++ rest := by
    rw [inside]
    simp
  exact ⟨⟨⟨group, left, space ([] ++ after), rest, whole, isFirst, parts⟩, [], '\n' :: gap, after,
    rfl, newline, fun _ => ⟨rfl, apart⟩, next⟩, .inr ⟨front, literal, ends, kind⟩, rfl, rfl⟩

theorem HasOutline.exists_roomAtLineEnd (has : file.HasOutline outline) (place : outline.LineEnd)
    (kind : place.token.kind = .blank) {gap : Text} (blank : ∀ c ∈ gap, Text.isBlank c) :
    ∃ room : outline.Room, room.toSlot = place.toSlot ∧ room.offset = place.offset ∧
      room.front = gap := by
  have same : [place.token] = space ((place.front ++ ['\n']) ++ place.back) := by
    have text := place.spelled
    generalize place.token = token at kind text
    obtain ⟨found, spelled⟩ := token
    obtain rfl : found = .blank := kind
    obtain rfl : spelled = place.front ++ '\n' :: place.back := text
    simp [Token.space]
  have next : ∀ c ∈ (texts (place.right ++ [place.group.closing])).head?,
      Text.isBlank c = false := by
    obtain ⟨-, ⟨stands, -⟩, -⟩ := Token.stand_append_iff.1 (place.tokens_eq ▸ has.stand)
    rw [← place.head?_texts_behind (texts outline.body), ← Token.texts_append]
    exact stands.head?_not_isBlank kind
  exact ⟨⟨place.toSlot, place.front ++ ['\n'], gap, place.back, place.single.trans same, blank,
    fun empty => absurd empty (by simp), next⟩, rfl, rfl, rfl⟩

def BeginsWith (file : SourceFile) {outline : Outline} (single : outline.Single) : Prop :=
  ∃ first others, ImportLayout.ofFile file = .ok (some ⟨first :: others, none⟩) ∧
    first.start = Text.byteSize (texts outline.front) +
      Text.byteSize (texts (single.keyword :: single.lead))

/-- The edits that put new imports where they go in a file: into a first group behind the package
clause, into the first group right behind an import or at its end, behind a line end in its white
space, into another token that holds that line end, or into a group that is made of the first
import. -/
inductive Places (file : SourceFile) (outline : Outline) (added : List Import) : Edit → Prop
  | newGroup : outline.imports = [] →
    Places file outline added (newGroup file.clauseStop added)
  | tight (room : outline.Room) : room.IsTight →
    Places file outline added (.insertAt room.offset (room.front ++ importLines added))
  | lineEnd (place : outline.LineEnd) (room : outline.Room) : file.EndsLineAt place.offset →
    place.token.kind = .blank → room.toSlot = place.toSlot →
    Places file outline added (.insertAt room.offset (room.front ++ importLines added))
  | solid (place : outline.LineEnd) (gap : Text) : file.EndsLineAt place.offset →
    place.token.kind ≠ .blank → (∀ c ∈ gap, c = '\n') →
    Places file outline added (.insertAt place.offset (gap ++ importLines added))
  | promoted (single : outline.Single) : file.BeginsWith single →
    Places file outline added (single.edit added)

variable {added : List Import}

private theorem HasOutline.exists_extension (has : file.HasOutline outline)
    (done : ImportLayout.ofFile file = .ok (some ⟨specs, some (start, stop)⟩)) :
    ∃ edit, extendGroup file.text specs start stop added = some edit ∧
      file.Places outline added edit := by
  cases found : (specs.filter fun placed =>
      placed.start > start && placed.stop < stop).getLast? with
  | none =>
    obtain ⟨group, whole, isFirst, -, stops, -⟩ := has.exists_group done
    obtain ⟨room, tight, offset, front⟩ := has.exists_roomAtClosing whole isFirst
    have text : file.text = (texts outline.front ++ texts (group.before ++ group.opening ::
        group.inside)) ++ texts (group.closing :: group.after ++ outline.body) := by
      rw [has.text, Outline.tokens_eq, whole, Outline.Group.tokens]
      simp [texts]
    have cut : Text.cut? stop file.text = some (texts outline.front ++
        texts (group.before ++ group.opening :: group.inside),
          texts (group.closing :: group.after ++ outline.body)) := by
      rw [stops, text, ← Text.byteSize_append, Text.cut?_byteSize]
    refine ⟨_, ?_, .tight room tight⟩
    simp only [extendGroup, found, cut, offset, front, ← stops]
  | some last =>
    have blank : ∀ c ∈ gapBehind last added, Text.isBlank c := by
      intro c member
      rw [eq_newline_of_mem_gapBehind c member]
      decide
    obtain ⟨slot, front, literal, left, empty, kind, ends, sliced⟩ := has.exists_last done found
    by_cases newline : '\n' ∈ texts slot.right
    · have ends : file.EndsLineAt _ :=
        ⟨specs, start, stop, last, _, done, found, sliced, newline, rfl⟩
      have chosen := @extendGroup_of_line specs start stop last _ _ added found sliced newline
      obtain ⟨place, offset⟩ := has.exists_lineEnd ends
      rw [offset] at ends chosen
      by_cases white : place.token.kind = .blank
      · obtain ⟨room, slot, same, gap⟩ := has.exists_roomAtLineEnd place white blank
        rw [← same, ← gap] at chosen
        exact ⟨_, chosen, .lineEnd place room ends white slot⟩
      · exact ⟨_, chosen, .solid place _ ends white eq_newline_of_mem_gapBehind⟩
    · obtain ⟨room, tight, offset, lead⟩ := has.exists_roomBehind slot empty left kind blank
      refine ⟨_, ?_, .tight room tight⟩
      simp only [extendGroup, found, sliced, List.contains_iff_mem, newline, if_false, gapBehind,
        offset, lead, ← ends]

theorem HasOutline.exists_promotion (has : file.HasOutline outline)
    (read : file.imports = .ok imports)
    (done : ImportLayout.ofFile file = .ok (some ⟨specs, none⟩)) :
    ∃ single : outline.Single, file.BeginsWith single ∧
      ∀ required, missingImports (imports.map (·.path)) required ≠ [] →
        file.reconcile required = ((file.edit
          [single.edit (missingImports (imports.map (·.path)) required)]).mapError
            .ofEditError).map fun done =>
              (done.1, missingImports (imports.map (·.path)) required) := by
  obtain ⟨single, first, others, rfl, starts, stops⟩ := has.exists_single done
  have text : file.text = texts (outline.front ++ single.keyword :: single.lead) ++
      texts single.spec ++ texts (single.between ++ single.more ++ outline.body) := by
    rw [has.text, Outline.tokens_eq, single.whole]
    simp [texts]
  have ends : first.stop = Text.byteSize
      (texts (outline.front ++ single.keyword :: single.lead) ++ texts single.spec) := by
    rw [stops, ← Text.byteSize_append]
    simp [texts]
  have sliced : Text.slice? file.text first.start first.stop = some (texts single.spec) := by
    rw [starts, ← Text.byteSize_append, ← Token.texts_append outline.front, ends, text,
      Text.slice?_byteSize]
  have block : Span.firstOf? .importBlock file.spans =
      some ⟨Text.byteSize (texts outline.front), Text.newlines (texts outline.front) + 1,
        ⟨.importBlock, texts outline.imports⟩⟩ := by
    rw [has.spans, Span.firstOf?_importBlock, if_neg (has.exists_reading done).1]
  have chosen (added : List Import) :
      promoteSingle file.text first (Text.byteSize (texts outline.front)) added =
        some (single.edit added) := by
    rw [promoteSingle, sliced, Option.map_some, stops]
    rfl
  refine ⟨single, ⟨first, others, done, starts⟩, fun required present => ?_⟩
  obtain ⟨layout, found, paths⟩ := exists_layout read
  obtain rfl := Except.ok.inj (found.symm.trans done)
  simp only [reconcile_eq, importEdit?, done, paths, present, block, chosen, Option.map_some,
    if_false]
  generalize file.edit _ = done
  cases done <;> rfl

theorem HasOutline.exists_places (has : file.HasOutline outline) (read : file.imports = .ok imports)
    (present : missingImports (imports.map (·.path)) required ≠ []) :
    ∃ edit, file.Places outline (missingImports (imports.map (·.path)) required) edit ∧
      file.reconcile required = ((file.edit [edit]).mapError .ofEditError).map fun done =>
        (done.1, missingImports (imports.map (·.path)) required) := by
  obtain ⟨layout, found, paths⟩ := exists_layout read
  cases layout with
  | none =>
    have empty : outline.imports = [] := by
      by_contra some
      rw [has.ofFile_of_some some] at found
      split at found
      · cases found
      · split at found <;> cases found
    refine ⟨_, .newGroup empty, ?_⟩
    simp only [reconcile_eq, importEdit?, found, paths, present, if_false]
    generalize file.edit _ = done
    cases done <;> rfl
  | some layout =>
    obtain ⟨specs, place⟩ := layout
    cases place with
    | some place =>
      obtain ⟨start, stop⟩ := place
      obtain ⟨edit, chosen, places⟩ := has.exists_extension found
      refine ⟨edit, places, ?_⟩
      simp only [reconcile_eq, importEdit?, found, paths, present, chosen, Option.map_some,
        if_false]
      generalize file.edit _ = done
      cases done <;> rfl
    | none =>
      obtain ⟨single, begins, result⟩ := has.exists_promotion read found
      exact ⟨_, .promoted single begins, result required present⟩

theorem missingImports_ne_nil (some : ¬∀ spec ∈ required, spec.path ∈ present) :
    missingImports present required ≠ [] := by
  intro empty
  refine some fun spec needed => by_contra fun absent => ?_
  have missing := mem_missingImports_paths needed absent
  simp [empty] at missing

theorem importsOnce_of_openEnd (current : file.IsCurrent) (read : file.imports = .ok imports)
    (openEnd : file.HasOpenEnd) (plain : ∀ spec ∈ required, spec.IsPlain) :
    file.ImportsOnce required := by
  by_cases all : ∀ spec ∈ required, spec.path ∈ imports.map (·.path)
  · exact importsOnce_of_present read all
  have present := missingImports_ne_nil all
  have fits : ∀ spec ∈ missingImports (imports.map (·.path)) required, spec.IsPlain :=
    fun spec member => plain spec (mem_of_mem_missingImports member).1
  obtain ⟨outline, has⟩ := current.hasOutline
  obtain ⟨edit, places, result⟩ := has.exists_places read present
  have takes : file.TakesIn imports edit
      (missingImports (imports.map (·.path)) required) := by
    cases places with
    | newGroup empty => exact takesIn_newGroup current has read empty present fits
    | tight room _ => exact takesIn_room current has read room present fits
    | lineEnd _ room _ _ _ => exact takesIn_room current has read room present fits
    | solid place gap ends solid _ =>
      exact absurd ((has.isOpenAt_offset_iff place).1 (hasOpenEnd_iff.1 openEnd _ ends)) solid
    | promoted single _ => exact takesIn_promoted current has read single present fits
  refine importsOnce_of_takesIn read takes fun edited changed done => ?_
  rw [result, done]
  rfl

end SourceFile

end Repackage
