import Repackage.Proofs.ImportGroup

/-!
Files that take new imports in. A text that is put inside the first group of a file, or new lines
behind its package clause, or a first import written inside a group, lead to a file whose outline is
known; and its imports are then the old ones and the new ones.
-/

set_option autoImplicit false
set_option relaxedAutoImplicit false

namespace Repackage

open Token (texts space linesOf)

namespace SourceFile

open ImportLayout (Reading pathsOf)
open Outline (groupTokens promotedTokens)

variable {file : SourceFile} {outline : Outline} {imports : List Import}

theorem HasOutline.exists_group (has : file.HasOutline outline) {specs : List PlacedImport}
    {start stop : Nat}
    (done : ImportLayout.ofFile file = .ok (some ⟨specs, some (start, stop)⟩)) :
    ∃ group : Outline.Group, outline.imports = group.tokens ∧
      group.IsFirst outline.gap outline.body ∧
      start = Text.byteSize (texts outline.front) + Text.byteSize (texts group.before) ∧
      stop = Text.byteSize (texts outline.front) +
        Text.byteSize (texts (group.before ++ group.opening :: group.inside)) ∧
      ∀ placed ∈ specs,
        ImportLayout.IsAmong (Text.byteSize (texts outline.front)) group.tokens placed := by
  obtain ⟨-, reading, -, tells, same⟩ := has.exists_reading done
  obtain ⟨rfl, offsets⟩ := ImportLayout.mk.inj same
  obtain ⟨first, opened, rest⟩ := Option.bind_eq_some_iff.1 offsets.symm
  obtain ⟨last, closed, both⟩ := Option.map_eq_some_iff.1 rest
  cases both
  rw [tells.opened] at opened
  rw [tells.closed] at closed
  obtain ⟨before, opening, after, parts, mark, -⟩ := Token.markAt?_eq_some opened
  obtain ⟨group, whole, isFirst⟩ :=
    has.formed.imports.exists_group ⟨opening, by simp [parts], mark⟩
  refine ⟨group, whole, isFirst, ?_, ?_, fun placed member => whole ▸ tells.specs placed member⟩
  · rw [whole, Outline.Group.tokens, Token.markAt?_of_first _
      (fun token member => (isFirst.first token member).1) isFirst.opens] at opened
    exact (Option.some.inj opened).symm
  · have free : ∀ token ∈ group.before ++ group.opening :: group.inside,
        token.isMark ')' = false := by
      refine List.forall_mem_append.2 ⟨fun token member => (isFirst.first token member).2,
        List.forall_mem_cons.2 ⟨Outline.isMark_unique isFirst.opens (by decide), isFirst.free⟩⟩
    have tokens : group.tokens =
        (group.before ++ group.opening :: group.inside) ++ group.closing :: group.after := by
      simp [Outline.Group.tokens]
    rw [whole, tokens, Token.markAt?_of_first _ free isFirst.closes] at closed
    exact (Option.some.inj closed).symm

def TakesIn (file : SourceFile) (imports : List Import) (edit : Edit) (added : List Import) :
    Prop :=
  ∃ edited changed after, file.edit [edit] = .ok (edited, changed) ∧ edited.imports = .ok after ∧
    (after.map (·.path)).Perm (imports.map (·.path) ++ added.map (·.path))

theorem HasOutline.readable (has : file.HasOutline outline) (read : file.imports = .ok imports) :
    ∃ named, outline.imports.foldlM Reading.advance (0, false) = some (0, named) :=
  has.imports_ok_iff.1 ⟨imports, read, has.paths_of_imports read⟩

theorem takesIn_of_leadsTo {outline' : Outline} {edit : Edit} {added : List Import}
    (has : file.HasOutline outline) (read : file.imports = .ok imports)
    (leads : file.LeadsTo [edit] outline')
    (readable : ∃ named, outline'.imports.foldlM Reading.advance (0, false) = some (0, named))
    (paths : (pathsOf outline'.imports).Perm (pathsOf outline.imports ++ added.map (·.path))) :
    file.TakesIn imports edit added := by
  obtain ⟨edited, changed, done, -, has'⟩ := leads
  obtain ⟨after, read', same⟩ := has'.imports_ok_iff.2 readable
  refine ⟨edited, changed, after, done, read', ?_⟩
  rw [same, has.paths_of_imports read]
  exact paths

theorem leadsTo_fill (current : file.IsCurrent) (has : file.HasOutline outline)
    (slot : outline.Slot) {tokens : List Token} {before after text : Text}
    (parts : texts slot.middle = before ++ after)
    (spelled : texts tokens = before ++ text ++ after)
    (free : ∀ token ∈ tokens, token.isMark ')' = false)
    (stand : Token.Stand (slot.fill tokens).tokens) :
    file.LeadsTo [.insertAt (slot.start + Text.byteSize before) text] (slot.fill tokens) := by
  have place := Edit.splice_singleton (texts (outline.front ++ slot.ahead) ++ before) []
    (after ++ texts (slot.behind ++ outline.body)) text
  have whole : file.text = texts (outline.front ++ slot.ahead) ++ before ++
      (after ++ texts (slot.behind ++ outline.body)) := by
    rw [has.text, slot.tokens_eq, Token.texts_append, Token.texts_append, parts]
    simp
  rw [List.append_nil, ← whole, Text.byteSize_append, Token.texts_append outline.front,
    Text.byteSize_append] at place
  refine leadsTo_of_splice current stand (slot.isWellFormed_fill has.formed free) ?_
  rw [slot.tokens_fill, Token.texts_append, Token.texts_append, Token.texts_append outline.front,
    spelled, Edit.insertAt, Outline.Slot.start, place]
  simp

variable {added : List Import}

theorem leadsTo_room (current : file.IsCurrent) (has : file.HasOutline outline)
    (room : outline.Room) (present : added ≠ []) (writable : ∀ spec ∈ added, spec.IsWritable) :
    file.LeadsTo [.insertAt room.offset (room.front ++ importLines added)]
      (room.fill (room.lines added)) := by
  have stand : Token.Stand (room.fill (room.lines added)).tokens := by
    have old := has.stand
    rw [room.tokens_eq, room.spaced] at old
    rw [room.tokens_fill]
    refine Token.stand_insert old present writable room.blank ?_ ?_
    · intro empty
      obtain ⟨newline, solid⟩ := room.apart empty
      refine ⟨newline, fun last found => solid last ?_⟩
      rw [Outline.Slot.getLast?_ahead]
      rw [Outline.Slot.ahead, ← List.append_assoc,
        List.getLast?_append_of_ne_nil _ (List.cons_ne_nil _ _)] at found
      exact found
    · rw [Token.texts_append, room.head?_texts_behind]
      exact room.next
  have parts : texts room.middle = room.before ++ room.after := by
    rw [room.spaced, Token.texts_space]
  refine leadsTo_fill current has room.toSlot parts ?_
    (Token.not_isMark_of_mem_linesOf writable) stand
  rw [Outline.Room.lines, Token.texts_linesOf]
  simp

theorem takesIn_room (current : file.IsCurrent) (has : file.HasOutline outline)
    (read : file.imports = .ok imports) (room : outline.Room) (present : added ≠ [])
    (plain : ∀ spec ∈ added, spec.IsPlain) :
    file.TakesIn imports (.insertAt room.offset (room.front ++ importLines added)) added := by
  refine takesIn_of_leadsTo has read
    (leadsTo_room current has room present fun spec member => (plain spec member).isWritable) ?_ ?_
  · obtain ⟨named, readable⟩ := has.readable read
    rw [room.imports_eq, room.spaced] at readable
    exact Reading.foldlM_advance_insert present plain readable
  · rw [room.fill_imports, room.imports_eq, room.spaced, Outline.Room.lines]
    simp only [ImportLayout.pathsOf_append, ImportLayout.pathsOf_space,
      ImportLayout.pathsOf_linesOf plain, List.nil_append, List.append_assoc]
    exact List.Perm.append_left _ List.perm_append_comm

theorem leadsTo_newGroup (current : file.IsCurrent) (has : file.HasOutline outline)
    (empty : outline.imports = []) {added : List Import} (present : added ≠ [])
    (writable : ∀ spec ∈ added, spec.IsWritable) :
    file.LeadsTo [newGroup file.clauseStop added] (outline.withGroup added) := by
  have newline : ∀ c ∈ ['\n'], Text.isBlank c := by
    simp only [List.mem_singleton, forall_eq]
    decide
  obtain ⟨clause, region⟩ :
      ∃ clause, clause = outline.header ++ outline.clauseStart ++ [outline.name] := ⟨_, rfl⟩
  have tokens : outline.tokens = clause ++ outline.body := by
    simp [Outline.tokens, region, has.formed.imports.gap_eq_nil empty, empty]
  have tokens' : (outline.withGroup added).tokens = clause ++ ⟨.blank, ['\n', '\n']⟩ ::
      (groupTokens (linesOf ['\n'] added []) ++ outline.body) := by
    simp [Outline.tokens, region, Outline.withGroup]
  obtain ⟨front, stands, -⟩ := Token.stand_append_iff.1 (tokens ▸ has.stand)
  have stand : Token.Stand (outline.withGroup added).tokens := by
    have opened : Token.Stand (⟨.blank, ['\n', '\n']⟩ ::
        (groupTokens (linesOf ['\n'] added []) ++ outline.body)) := by
      refine ⟨.blank (by simp) (by simpa using newline) ?_,
        Outline.stand_group (Outline.stand_lastLines present writable stands)⟩
      rw [Token.texts_append, Outline.texts_groupTokens]
      simp only [String.reduceToList, List.cons_append, List.head?_cons, Option.mem_def,
        Option.some.injEq, forall_eq']
      decide
    rw [tokens']
    refine Token.stand_append_iff.2 ⟨front, opened, fun last found c head => ?_⟩
    obtain rfl : outline.name = last := by simpa [region] using found
    obtain rfl : '\n' = c := by simpa [texts] using head
    exact Token.endsBefore_newline (by rw [has.formed.name]; simp)
  have formed : (outline.withGroup added).IsWellFormed := by
    refine ⟨has.formed.header, has.formed.clause, has.formed.name, ?_⟩
    have group : Outline.HasImports [⟨.blank, ['\n', '\n']⟩]
        (groupTokens (linesOf ['\n'] added []) ++ [] ++ []) outline.body :=
      Outline.hasImports_groupTokens (by simp [Outline.separates, Token.isSignificant])
        (Token.not_isMark_of_mem_linesOf writable) (.nil has.formed.imports.startsImport)
    simpa [Outline.withGroup] using group
  refine leadsTo_of_splice current stand formed ?_
  have place := Edit.splice_singleton (texts clause) [] (texts outline.body)
    ("\n\nimport (\n".toList ++ importLines added ++ [')'])
  rw [List.append_nil, ← Token.texts_append, ← tokens, ← has.text] at place
  rw [newGroup, Edit.insertAt, clauseStop_of_spans has.spans, ← region, place, tokens',
    Token.texts_append, Token.texts_cons, Token.texts_append, Outline.texts_groupTokens,
    Token.texts_linesOf]
  simp

theorem takesIn_newGroup (current : file.IsCurrent) (has : file.HasOutline outline)
    (read : file.imports = .ok imports) (empty : outline.imports = []) {added : List Import}
    (present : added ≠ []) (plain : ∀ spec ∈ added, spec.IsPlain) :
    file.TakesIn imports (newGroup file.clauseStop added) added := by
  refine takesIn_of_leadsTo has read (leadsTo_newGroup current has empty present
    fun spec member => (plain spec member).isWritable) ⟨false, ?_⟩ ?_
  · exact Outline.foldlM_advance_groupTokens (Reading.foldlM_advance_linesOf _ present plain)
  · simp only [Outline.withGroup, Outline.pathsOf_groupTokens, ImportLayout.pathsOf_linesOf plain,
      empty]
    exact .refl _

theorem HasOutline.exists_single (has : file.HasOutline outline) {specs : List PlacedImport}
    (done : ImportLayout.ofFile file = .ok (some ⟨specs, none⟩)) :
    ∃ (single : outline.Single) (first : PlacedImport) (others : List PlacedImport),
      specs = first :: others ∧
      first.start = Text.byteSize (texts outline.front) +
        Text.byteSize (texts (single.keyword :: single.lead)) ∧
      first.stop = Text.byteSize (texts outline.front) +
        Text.byteSize (texts (single.keyword :: single.lead ++ single.spec)) := by
  obtain ⟨present, reading, run, tells, same⟩ := has.exists_reading done
  obtain ⟨rfl, none⟩ := ImportLayout.mk.inj same
  obtain ⟨keyword, declaration, between, more, parts, isImport, shape, rest⟩ :
      ∃ keyword declaration between more,
        outline.imports = keyword :: declaration ++ between ++ more ∧ keyword.isWord "import" ∧
        Outline.IsImport declaration ∧ Outline.HasImports between more outline.body := by
    have shapes := has.formed.imports
    generalize outline.gap = region at shapes
    generalize outline.imports = found at shapes present ⊢
    cases shapes with
    | nil => exact absurd rfl present
    | cons _ isImport shape rest => exact ⟨_, _, _, _, rfl, isImport, shape, rest⟩
  rcases shape.cases_spec with ⟨gap, opening, inside, closing, rfl, -, opens, -, closes⟩ |
    ⟨gap, spec, rfl, gaps, single⟩
  · -- Both parentheses of a group would be noted.
    have opened := Token.isSome_markAt? (Text.byteSize (texts outline.front))
      (show opening ∈ outline.imports by simp [parts]) opens
    have closed := Token.isSome_markAt? (Text.byteSize (texts outline.front))
      (show closing ∈ outline.imports by simp [parts]) closes
    rw [← tells.opened] at opened
    rw [← tells.closed] at closed
    obtain ⟨start, found⟩ := Option.isSome_iff_exists.1 opened
    obtain ⟨stop, found'⟩ := Option.isSome_iff_exists.1 closed
    simp [found, found'] at none
  · have front : keyword :: (gap ++ spec) ++ between ++ more =
        (keyword :: (gap ++ spec)) ++ (between ++ more) := by
      simp
    rw [parts, front, Token.significantFrom_append] at run
    obtain ⟨middle, begun, later⟩ := Reading.exists_of_run_append run
    obtain ⟨lead, spec', placed, split, shape', silent, passed, specs, starts, stops⟩ :=
      Reading.run_single isImport gaps single begun
    obtain ⟨others, grown⟩ := Reading.exists_specs_of_run later
    have whole : outline.imports = keyword :: lead ++ spec' ++ (between ++ more) := by
      rw [parts, front, split]
      simp
    refine ⟨⟨keyword, lead, spec', between, more, whole, isImport, shape', rest, silent, passed⟩,
      placed, others, ?_, starts, stops⟩
    rw [grown, specs]
    rfl

theorem leadsTo_promoted (current : file.IsCurrent) (has : file.HasOutline outline)
    (single : outline.Single) (present : added ≠ [])
    (writable : ∀ spec ∈ added, spec.IsWritable) :
    file.LeadsTo [single.edit added] (single.promoted added) := by
  obtain ⟨keyword, lead, spec, between, more, whole, isImport, shape, rest, -, -⟩ := single
  dsimp only [Outline.Single.edit, Outline.Single.promoted]
  have tokens : outline.tokens = outline.front ++
      (keyword :: lead ++ spec ++ (between ++ more ++ outline.body)) := by
    rw [Outline.tokens_eq, whole]
    simp
  have tokens' : (outline.withImports (promotedTokens spec added ++ between ++ more)).tokens =
      outline.front ++ (promotedTokens spec added ++ (between ++ more ++ outline.body)) := by
    rw [Outline.tokens_withImports]
    simp
  have stand : Token.Stand
      (outline.withImports (promotedTokens spec added ++ between ++ more)).tokens := by
    obtain ⟨front, behind, ends⟩ := Token.stand_append_iff.1 (tokens ▸ has.stand)
    obtain ⟨declared, after, -⟩ := Token.stand_append_iff.1 behind
    obtain ⟨-, alone, -⟩ := Token.stand_append_iff.1 declared
    rw [tokens']
    refine Token.stand_append_iff.2
      ⟨front, Outline.stand_promotedTokens shape alone present writable after, ?_⟩
    intro last found c head
    refine ends last found c ?_
    simp only [Token.isWord, Bool.and_eq_true, beq_iff_eq] at isImport
    simp only [Token.texts_append, Outline.texts_promotedTokens, String.reduceToList,
      List.cons_append, List.head?_cons, Option.mem_def] at head
    simpa [Token.texts_cons, isImport.2] using head
  have spliced := Edit.splice_singleton (texts outline.front) (texts (keyword :: lead ++ spec))
    (texts (between ++ more ++ outline.body))
    ("import (\n\t".toList ++ texts spec ++ '\n' :: importLines added ++ [')'])
  rw [← Token.texts_append, ← Token.texts_append, List.append_assoc outline.front, ← tokens,
    ← has.text, Token.texts_append outline.front, Text.byteSize_append] at spliced
  refine leadsTo_of_splice current stand (has.formed.withImports
    (Outline.hasImports_promotedTokens shape writable has.formed.imports.separates rest))
    (spliced.trans ?_)
  rw [tokens', Token.texts_append outline.front, Token.texts_append (promotedTokens spec added),
    Outline.texts_promotedTokens, List.append_assoc (texts outline.front)]

theorem takesIn_promoted (current : file.IsCurrent) (has : file.HasOutline outline)
    (read : file.imports = .ok imports) (single : outline.Single) (present : added ≠ [])
    (plain : ∀ spec ∈ added, spec.IsPlain) :
    file.TakesIn imports (single.edit added) added := by
  refine takesIn_of_leadsTo has read (leadsTo_promoted current has single present
    fun spec member => (plain spec member).isWritable) ?_ ?_
  · obtain ⟨named, readable⟩ := has.readable read
    refine ⟨named, ?_⟩
    rw [single.whole, List.foldlM_append, List.foldlM_append, single.passed] at readable
    simp only [single.shape.foldlM_advance, Option.bind_eq_bind, Option.bind_some] at readable
    rw [Outline.Single.promoted, Outline.withImports_imports, List.append_assoc,
      List.foldlM_append, Outline.foldlM_advance_promotedTokens single.shape present plain]
    exact readable
  · rw [single.whole, List.append_assoc (single.keyword :: single.lead),
      ImportLayout.pathsOf_append (single.keyword :: single.lead), single.silent]
    simp only [Outline.Single.promoted, Outline.withImports_imports, ImportLayout.pathsOf_append,
      Outline.pathsOf_promotedTokens single.spec plain, List.nil_append, List.append_assoc]
    refine List.Perm.append_left _ ?_
    rw [← List.append_assoc (pathsOf single.between)]
    exact List.perm_append_comm

end SourceFile

end Repackage
