import Repackage.Proofs.ImportSpecs
import Repackage.Proofs.Reconciliation

/-!
What adding imports leaves as it is. Only the import block changes, or a first one comes behind the
package clause; and the imports that were there are still there, in their order, unless the new
lines go into one of them. An import can go across the place for new lines in two ways: its literal
holds the line end, and then its path changes, or its name stands on the line before its path, and
then the first new import takes the name.
-/

set_option autoImplicit false
set_option relaxedAutoImplicit false

namespace Repackage

open Token (texts significantFrom)

namespace Span

/-- Whether spans differ in their import block only: it has another text, or there is one behind the
package clause where there was none. -/
inductive ChangesBlock : List Span → List Span → Prop
  | same (spans : List Span) : ChangesBlock spans spans
  | exchanged {before after : List Span} (old new : Text) :
    (∀ span ∈ before ++ after, span.kind ≠ .importBlock) →
    ChangesBlock (before ++ ⟨.importBlock, old⟩ :: after)
      (before ++ ⟨.importBlock, new⟩ :: after)
  | inserted {before after : List Span} (clause new : Text) :
    (∀ span ∈ before ++ after, span.kind ≠ .importBlock) →
    ChangesBlock (before ++ ⟨.packageClause, clause⟩ :: after)
      (before ++ ⟨.packageClause, clause⟩ :: ⟨.other, ['\n', '\n']⟩ :: ⟨.importBlock, new⟩ :: after)

private theorem changesBlock_withImports {outline : Outline} (present : outline.imports ≠ [])
    {imports : List Token} (present' : imports ≠ []) :
    ChangesBlock (ofOutline outline) (ofOutline (outline.withImports imports)) := by
  have others : ∀ span ∈ (outline.header.map ofToken ++
      ⟨.packageClause, Token.texts outline.clauseStart ++ outline.name.text⟩ ::
        outline.gap.map ofToken) ++ outline.body.map ofToken, span.kind ≠ .importBlock := by
    simp only [List.forall_mem_append, List.forall_mem_cons]
    exact ⟨⟨not_importBlock_of_ofToken, by simp, not_importBlock_of_ofToken⟩,
      not_importBlock_of_ofToken⟩
  have changes := ChangesBlock.exchanged (Token.texts outline.imports) (Token.texts imports) others
  simpa [ofOutline, Outline.withImports, present, present'] using changes

private theorem changesBlock_withGroup {outline : Outline} (gap : outline.gap = [])
    (empty : outline.imports = []) (added : List Import) :
    ChangesBlock (ofOutline outline) (ofOutline (outline.withGroup added)) := by
  have others : ∀ span ∈ outline.header.map ofToken ++ outline.body.map ofToken,
      span.kind ≠ .importBlock :=
    List.forall_mem_append.2 ⟨not_importBlock_of_ofToken, not_importBlock_of_ofToken⟩
  have changes := ChangesBlock.inserted (Token.texts outline.clauseStart ++ outline.name.text)
    (Token.texts (outline.withGroup added).imports) others
  simpa [ofOutline, Outline.withGroup, gap, empty, Outline.groupTokens, ofToken] using changes

end Span

namespace Outline

open ImportLayout (Reading pathsOf specsFrom waits takesName isPassed)

/-- Whether no import goes across a row of tokens of the first group: no name waits there, or what
comes behind takes none. -/
def Slot.IsFree {outline : Outline} (slot : outline.Slot) : Prop :=
  slot.ahead.foldl waits none = none ∨ takesName slot.behind = false

variable {outline : Outline}

private theorem Slot.changesBlock_fill (slot : outline.Slot) (tokens : List Token) :
    Span.ChangesBlock (Span.ofOutline outline) (Span.ofOutline (slot.fill tokens)) := by
  refine Span.changesBlock_withImports ?_ ?_
  · rw [slot.whole]
    simp [Group.tokens]
  · simp [ahead]

private theorem LineEnd.read_longer (place : outline.LineEnd)
    (comment : place.token.kind = .comment) (lines : Text) :
    specsFrom none (place.fill [place.longer lines]).imports = specsFrom none outline.imports ∧
      (place.fill [place.longer lines]).imports.foldlM Reading.advance (0, false) =
        outline.imports.foldlM Reading.advance (0, false) := by
  have longer : (place.longer lines).kind = .comment := comment
  have silent {token : Token} (comment : token.kind = .comment) :
      token.isSignificant = false := by
    simp [Token.isSignificant, comment]
  have passed {token : Token} (comment : token.kind = .comment) (waiting : Option String) :
      waits waiting token = waiting :=
    ImportLayout.waits_of_isPassed
      (ImportLayout.isPassed_of_isGap (by simp [isGap, silent comment])) waiting
  rw [place.imports_eq, place.single, place.fill_imports, List.append_assoc, List.append_assoc]
  constructor
  · simp [ImportLayout.specsFrom_append, specsFrom, comment, longer, passed]
  · simp [Reading.advance_of_gap, silent, comment, longer]

private theorem Room.isFree_of_isTight {room : outline.Room} (tight : room.IsTight) :
    room.IsFree := by
  rcases tight with last | ⟨front, literal, left, kind⟩
  · obtain ⟨between, more, after, shapes⟩ := room.isFirst.later
    have passed : isPassed room.group.closing = true := by
      simp [isPassed, room.isFirst.closes]
    right
    rw [Slot.behind, last, List.nil_append, takesName, if_pos passed, after]
    exact ImportLayout.takesName_of_hasImports shapes
  · left
    rw [Slot.ahead, left, List.foldl_append, List.foldl_cons, List.foldl_append, List.foldl_cons,
      List.foldl_nil, ImportLayout.waits_of_literal kind]

private theorem Room.specsFrom_imports (room : outline.Room) :
    specsFrom none outline.imports = specsFrom none room.ahead ++
      specsFrom (room.ahead.foldl waits none) room.behind := by
  obtain ⟨silent, waiting⟩ :=
    ImportLayout.specsFrom_space (room.ahead.foldl waits none) (room.before ++ room.after)
  rw [room.imports_eq, room.spaced, ImportLayout.specsFrom_append, ImportLayout.specsFrom_append,
    List.foldl_append, silent, waiting, List.append_nil]

private theorem Room.specsFrom_fill (room : outline.Room) {spec : Import} {added : List Import}
    (plain : ∀ each ∈ spec :: added, each.IsPlain) :
    specsFrom none (room.fill (room.lines (spec :: added))).imports = specsFrom none room.ahead ++
      (⟨spec.name.or (room.ahead.foldl waits none), spec.path⟩ :: added) ++
        specsFrom none room.behind := by
  obtain ⟨read, waiting⟩ := ImportLayout.specsFrom_linesOf plain
    (room.ahead.foldl waits none) (room.before ++ room.front) room.after
  rw [room.fill_imports, ImportLayout.specsFrom_append, ImportLayout.specsFrom_append,
    List.foldl_append, Room.lines, read, waiting]

private theorem Room.sublist_fill {room : outline.Room} (free : room.IsFree) {added : List Import}
    (present : added ≠ []) (plain : ∀ each ∈ added, each.IsPlain) :
    (specsFrom none outline.imports).Sublist
      (specsFrom none (room.fill (room.lines added)).imports) := by
  obtain ⟨spec, added, rfl⟩ := List.exists_cons_of_ne_nil present
  have behind : specsFrom (room.ahead.foldl waits none) room.behind =
      specsFrom none room.behind := by
    rcases free with none | stops
    · rw [none]
    · rcases ImportLayout.specsFrom_cases room.behind with ⟨takes, -⟩ | ⟨-, same⟩
      · rw [stops] at takes
        cases takes
      · exact same _ _
  rw [room.specsFrom_imports, room.specsFrom_fill plain, behind, List.append_assoc]
  exact (List.sublist_append_right _ _).append_left _

private theorem foldl_waits_of_foldlM_advance {tokens : List Token}
    (read : tokens.foldlM Reading.advance (0, false) = some (0, false)) :
    tokens.foldl waits none = none := by
  have stages := Reading.map_stage_run {} 0 0 tokens
  have start : Reading.stage {} = (0, false) := rfl
  rw [start, read] at stages
  cases run : Reading.run {} (significantFrom 0 0 tokens) with
  | error cause =>
    rw [run] at stages
    cases stages
  | ok reading =>
    rw [run] at stages
    have unnamed : reading.name = none := by
      simpa [Reading.stage] using congrArg Prod.snd (Option.some.inj stages)
    have waiting := (Reading.specs_of_run run).2
    rw [unnamed] at waiting
    exact waiting.symm

private theorem specsFrom_groupTokens (inside : List Token) :
    specsFrom none (groupTokens inside) = specsFrom none inside ∧
      (groupTokens inside).foldl waits none = inside.foldl waits none := by
  have keyword : waits none ⟨.word, "import".toList⟩ = none := by decide
  have blank : waits none ⟨.blank, [' ']⟩ = none := rfl
  have opening : waits none ⟨.mark, ['(']⟩ = none := by decide
  have closing (waiting : Option String) : waits waiting ⟨.mark, [')']⟩ = waiting :=
    ImportLayout.waits_of_isPassed (by decide) waiting
  constructor
  · simp only [groupTokens, ImportLayout.specsFrom_append, ImportLayout.specsFrom_cons_of_ne,
      ne_eq, reduceCtorEq, not_false_eq_true, keyword, blank, opening]
    exact List.append_nil _
  · simp only [groupTokens, List.foldl_cons, List.foldl_append, List.foldl_nil, keyword, blank,
      opening, closing]

private theorem IsSpec.foldl_waits {spec : List Token} (shape : IsSpec spec)
    (waiting : Option String) : spec.foldl waits waiting = none := by
  obtain ⟨front, path, rfl, literal⟩ := shape.exists_literal
  rw [List.foldl_append, List.foldl_cons, List.foldl_nil, ImportLayout.waits_of_literal literal]

private theorem Single.sublist_promoted (single : outline.Single) {added : List Import}
    (present : added ≠ []) (plain : ∀ each ∈ added, each.IsPlain) :
    (specsFrom none outline.imports).Sublist
      (specsFrom none (single.promoted added).imports) := by
  obtain ⟨spec, added, rfl⟩ := List.exists_cons_of_ne_nil present
  have silent : specsFrom none (single.keyword :: single.lead) = [] := by
    rw [← List.map_eq_nil_iff (f := (·.path)), ImportLayout.map_path_specsFrom, single.silent]
  have old : specsFrom none outline.imports =
      specsFrom none single.spec ++ specsFrom none (single.between ++ single.more) := by
    rw [single.whole, List.append_assoc, ImportLayout.specsFrom_append, silent, List.nil_append,
      foldl_waits_of_foldlM_advance single.passed, ImportLayout.specsFrom_append,
      single.shape.foldl_waits]
  obtain ⟨read, waiting⟩ := ImportLayout.specsFrom_linesOf plain none ['\n'] []
  rw [Option.or_none] at read
  obtain ⟨opened, closed⟩ : specsFrom none (promotedTokens single.spec (spec :: added)) =
        specsFrom none single.spec ++ spec :: added ∧
      (promotedTokens single.spec (spec :: added)).foldl waits none = none := by
    obtain ⟨inside, ends⟩ := specsFrom_groupTokens
      (⟨.blank, ['\n', '\t']⟩ :: (single.spec ++ Token.linesOf ['\n'] (spec :: added) []))
    rw [promotedTokens, inside, ends, (ImportLayout.specsFrom_blank_cons _ _ _).1,
      (ImportLayout.specsFrom_blank_cons _ _ _).2, ImportLayout.specsFrom_append,
      List.foldl_append, single.shape.foldl_waits, read, waiting]
    exact ⟨rfl, rfl⟩
  rw [old, Single.promoted, withImports_imports, List.append_assoc,
    ImportLayout.specsFrom_append none (promotedTokens _ _), opened, closed, List.append_assoc]
  exact (List.sublist_append_right _ _).append_left _

end Outline

/-- Whether a comment goes across an offset of a text. -/
def Token.IsCommentAt (text : Text) (offset : Nat) : Prop :=
  ∃ before token after, lex text = .ok (before ++ token :: after) ∧
    Text.byteSize (texts before) < offset ∧ offset < Text.byteSize (texts (before ++ [token])) ∧
    token.kind = .comment

private theorem ImportLayout.IsAmong.stop_le {start : Nat} {tokens : List Token}
    {placed : PlacedImport} (among : IsAmong start tokens placed) :
    placed.stop ≤ start + Text.byteSize (texts tokens) := by
  obtain ⟨before, middle, literal, after, rfl, -, -, stops⟩ := among
  rw [List.append_cons, Token.texts_append _ after, Text.byteSize_append]
  omega

private theorem ImportLayout.Reading.Tells.name_le {start : Nat} {tokens : List Token}
    {reading : Reading} (tells : reading.Tells start tokens) {name : String} {offset : Nat}
    (named : reading.name = some (name, offset)) :
    offset ≤ start + Text.byteSize (texts tokens) := by
  obtain ⟨before, after, rfl, rfl⟩ := tells.name name offset named
  rw [Token.texts_append, Text.byteSize_append]
  omega

theorem Outline.LineEnd.offset_bounds {outline : Outline} (place : outline.LineEnd) :
    place.start < place.offset ∧ place.offset ≤ place.start + Text.byteSize place.token.text := by
  have positive : 0 < Text.byteSize ['\n'] := by decide
  have size : Text.byteSize place.token.text =
      Text.byteSize (place.front ++ ['\n']) + Text.byteSize place.back := by
    rw [place.spelled, ← Text.byteSize_append]
    simp
  rw [offset, size, Text.byteSize_append]
  omega

namespace SourceFile

open ImportLayout (Reading specsFrom waits takesName)

variable {file : SourceFile} {outline : Outline} {imports : List Import} {layout : ImportLayout}

theorem HasOutline.exists_across_offset_iff (has : file.HasOutline outline)
    (place : outline.LineEnd) {solid : Token → Prop}
    (notBlank : ∀ token, solid token → token.kind ≠ .blank) :
    (∃ before token after, Token.lex file.text = .ok (before ++ token :: after) ∧
      Text.byteSize (texts before) < place.offset ∧
      place.offset < Text.byteSize (texts (before ++ [token])) ∧ solid token) ↔
        solid place.token := by
  have lexed : Token.lex file.text = .ok
      ((outline.front ++ place.ahead) ++ place.token :: (place.behind ++ outline.body)) := by
    rw [has.text, ← place.tokens_eq]
    exact Token.lexFrom_eq_ok_iff.2 ⟨rfl, has.stand⟩
  rw [Outline.LineEnd.offset, Outline.Slot.start, ← Text.byteSize_append, ← Token.texts_append]
  constructor
  · rintro ⟨before, token, after, lexed', starts, ends, holds⟩
    have same := Except.ok.inj (lexed'.symm.trans lexed)
    rwa [← Token.eq_of_across_newline same place.spelled starts ends]
  · intro holds
    obtain ⟨-, ⟨stands, -⟩, -⟩ := Token.stand_append_iff.1 (place.tokens_eq ▸ has.stand)
    obtain ⟨starts, ends⟩ := Token.across_newline stands (notBlank _ holds) place.spelled
      (outline.front ++ place.ahead)
    exact ⟨_, _, _, lexed, starts, ends, holds⟩

theorem HasOutline.isCommentAt_offset_iff (has : file.HasOutline outline)
    (place : outline.LineEnd) :
    Token.IsCommentAt file.text place.offset ↔ place.token.kind = .comment :=
  has.exists_across_offset_iff place fun token comment => by simp [comment]

private theorem HasOutline.exists_readings (has : file.HasOutline outline)
    (done : ImportLayout.ofFile file = .ok (some layout)) (slot : outline.Slot) :
    ∃ (first last : Reading) (line : Nat),
      first.Tells (Text.byteSize (texts outline.front)) slot.ahead ∧
      first.name.map (·.1) = slot.ahead.foldl waits none ∧
      first.run (significantFrom slot.start line (slot.middle ++ slot.behind)) = .ok last ∧
      layout.specs = last.specs := by
  obtain ⟨-, last, run, -, rfl⟩ := has.exists_reading done
  rw [slot.imports_eq, List.append_assoc, Token.significantFrom_append] at run
  obtain ⟨first, begun, rest⟩ := Reading.exists_of_run_append run
  exact ⟨first, last, _, (Reading.tells_nil _).run begun, (Reading.specs_of_run begun).2, rest, rfl⟩

private theorem HasOutline.exists_across_of_literal (has : file.HasOutline outline)
    (done : ImportLayout.ofFile file = .ok (some layout)) (place : outline.LineEnd)
    (literal : place.token.kind = .literal) :
    ∃ placed ∈ layout.specs, placed.start < place.offset ∧ place.offset < placed.stop := by
  obtain ⟨first, last, line, tells, -, run, same⟩ := has.exists_readings done place.toSlot
  obtain ⟨-, ⟨stands, -⟩, -⟩ := Token.stand_append_iff.1 (place.tokens_eq ▸ has.stand)
  have significant : place.token.isSignificant = true := by simp [Token.isSignificant, literal]
  rw [place.single, List.singleton_append, Token.significantFrom_cons, if_pos significant,
    Reading.run] at run
  split at run
  · cases run
  next stepped found =>
    obtain ⟨-, -, placed, grown, -, starts, stops⟩ | ⟨other, -⟩ := Reading.step_cases found
    · obtain ⟨more, rest⟩ := Reading.exists_specs_of_run run
      refine ⟨placed, by simp [same, rest, grown], ?_, ?_⟩
      · cases named : first.name with
        | none =>
          rw [starts, named]
          exact place.offset_bounds.1
        | some name =>
          rw [starts, named]
          exact (tells.name_le named).trans_lt place.offset_bounds.1
      · have ends := (Token.across_newline stands (by simp [literal]) place.spelled []).2
        rw [stops, Outline.LineEnd.offset]
        simpa [texts, Text.byteSize] using ends
    · exact absurd literal other

private theorem HasOutline.exists_across_iff (has : file.HasOutline outline)
    (done : ImportLayout.ofFile file = .ok (some layout)) (place : outline.LineEnd)
    (blank : place.token.kind = .blank) :
    (∃ placed ∈ layout.specs, placed.start < place.offset ∧ place.offset < placed.stop) ↔
      ¬place.IsFree := by
  obtain ⟨first, last, line, tells, waiting, run, same⟩ := has.exists_readings done place.toSlot
  have skipped : place.token.isSignificant = false := by simp [Token.isSignificant, blank]
  rw [place.single, List.singleton_append, Token.significantFrom_cons, skipped,
    if_neg (by simp)] at run
  obtain ⟨before, behind⟩ := place.offset_bounds
  rw [same]
  constructor
  · rintro ⟨placed, member, starts, stops⟩ free
    have kept : takesName place.behind = false ∨
        ∀ name offset, first.name = some (name, offset) →
          place.start + Text.byteSize place.token.text ≤ offset := by
      rcases free with none | refuses
      · right
        intro name offset named
        rw [← waiting, named] at none
        cases none
      · exact .inl refuses
    rcases Reading.le_start_of_run (Nat.le_refl _) kept run placed member with old | new
    · have ends := (tells.specs placed old).stop_le
      rw [Outline.Slot.start] at before
      omega
    · omega
  · intro across
    rw [Outline.Slot.IsFree, not_or, Bool.not_eq_false] at across
    obtain ⟨waits, takes⟩ := across
    rw [← waiting] at waits
    obtain ⟨⟨name, offset⟩, named⟩ : ∃ name, first.name = some name := by
      rw [← Option.isSome_iff_exists]
      simpa [Option.isSome_iff_ne_none] using waits
    have solid : ∀ token ∈ place.behind, 0 < Text.byteSize token.text := by
      intro token member
      have among : token ∈ outline.tokens := by
        rw [place.tokens_eq]
        simp [member]
      obtain ⟨_, c, cs, spelled, -⟩ := Token.exists_stands_of_mem has.stand among
      rw [Nat.pos_iff_ne_zero]
      intro empty
      simp [Text.eq_nil_of_byteSize empty] at spelled
    obtain ⟨placed, member, starts, stops⟩ :=
      Reading.exists_across_of_run solid takes named run
    have early := tells.name_le named
    rw [Outline.Slot.start] at before
    exact ⟨placed, member, by omega, by omega⟩

/-- Whether the required imports can be added to a file so that only its import block changes, can
still be read, and has the imports that were there in their order. -/
def AddsInPlace (file : SourceFile) (required : List Import) : Prop :=
  ∃ before edited added after, file.imports = .ok before ∧
    file.reconcile required = .ok (edited, added) ∧ edited.imports = .ok after ∧
    before.Sublist after ∧ file.text = Span.texts file.spans ∧
    edited.text = Span.texts edited.spans ∧ Span.ChangesBlock file.spans edited.spans

/-- Whether an offset is in a comment or in none of the imports of a file. -/
def SparesImports (file : SourceFile) (offset : Nat) : Prop :=
  Token.IsCommentAt file.text offset ∨
    ∀ layout, ImportLayout.ofFile file = .ok (some layout) →
      ∀ placed ∈ layout.specs, placed.stop ≤ offset ∨ offset ≤ placed.start

private theorem HasOutline.sparesImports_iff (has : file.HasOutline outline)
    (place : outline.LineEnd) (ends : file.EndsLineAt place.offset) :
    file.SparesImports place.offset ↔
      place.token.kind = .comment ∨ place.token.kind = .blank ∧ place.IsFree := by
  obtain ⟨specs, start, stop, -, -, done, -, -, -, -⟩ := ends
  obtain ⟨-, ⟨stands, -⟩, -⟩ := Token.stand_append_iff.1 (place.tokens_eq ▸ has.stand)
  have apart : (∀ layout, ImportLayout.ofFile file = .ok (some layout) →
      ∀ placed ∈ layout.specs, placed.stop ≤ place.offset ∨ place.offset ≤ placed.start) ↔
      ¬∃ placed ∈ specs, placed.start < place.offset ∧ place.offset < placed.stop := by
    constructor
    · rintro apart ⟨placed, member, starts, stops⟩
      have := apart _ done placed member
      omega
    · intro none layout found placed member
      obtain rfl := Option.some.inj (Except.ok.inj (done.symm.trans found))
      by_contra across
      exact none ⟨placed, member, by omega, by omega⟩
  rw [SparesImports, has.isCommentAt_offset_iff place, apart]
  rcases stands.kind_of_mem_newline (by simp [place.spelled]) with blank | comment | literal
  · simp [blank, has.exists_across_iff done place blank]
  · simp [comment]
  · simp only [literal, reduceCtorEq, false_and, or_false, false_or, iff_false, not_not]
    exact has.exists_across_of_literal done place literal

private theorem HasOutline.text_eq_spans (has : file.HasOutline outline) :
    file.text = Span.texts file.spans := by
  rw [has.text, has.spans, Span.texts_ofOutline]

variable {required : List Import} {edit : Edit}

private theorem addsInPlace_of_present (current : file.IsCurrent)
    (read : file.imports = .ok imports)
    (all : ∀ spec ∈ required, spec.path ∈ imports.map (·.path)) : file.AddsInPlace required := by
  obtain ⟨outline, has⟩ := current.hasOutline
  exact ⟨imports, file, [], imports, read, reconcile_of_present read all, read, .refl _,
    has.text_eq_spans, has.text_eq_spans, .same _⟩

private theorem addsInPlace_of_leadsTo {outline' : Outline} {added taken : List Import}
    (has : file.HasOutline outline) (read : file.imports = .ok imports)
    (leads : file.LeadsTo [edit] outline') (takes : file.TakesIn imports edit taken)
    (kept : (specsFrom none outline.imports).Sublist (specsFrom none outline'.imports))
    (changes : Span.ChangesBlock (Span.ofOutline outline) (Span.ofOutline outline'))
    (result : file.reconcile required = ((file.edit [edit]).mapError .ofEditError).map
      fun done => (done.1, added)) : file.AddsInPlace required := by
  obtain ⟨edited, changed, done, -, has'⟩ := leads
  obtain ⟨edited', changed', after, done', read', -⟩ := takes
  obtain ⟨rfl, -⟩ := Prod.mk.inj (Except.ok.inj (done.symm.trans done'))
  rw [done] at result
  refine ⟨imports, edited, added, after, read, result, read', ?_, has.text_eq_spans,
    has'.text_eq_spans, ?_⟩
  · rwa [has.eq_specsFrom read, has'.eq_specsFrom read']
  · rwa [has.spans, has'.spans]

private theorem addsInPlace_of_room {added : List Import} (current : file.IsCurrent)
    (has : file.HasOutline outline) (read : file.imports = .ok imports) {room : outline.Room}
    (free : room.IsFree) (present : added ≠ []) (plain : ∀ spec ∈ added, spec.IsPlain)
    (result : file.reconcile required = ((file.edit [.insertAt room.offset
      (room.front ++ importLines added)]).mapError .ofEditError).map fun done => (done.1, added)) :
    file.AddsInPlace required := by
  have writable : ∀ spec ∈ added, spec.IsWritable := fun spec member =>
    (plain spec member).isWritable
  refine addsInPlace_of_leadsTo has read (leadsTo_room current has room present writable)
    (takesIn_room current has read room present plain)
    (Outline.Room.sublist_fill free present plain) (room.changesBlock_fill _) result

private theorem addsInPlace_of_comment {added : List Import} (current : file.IsCurrent)
    (has : file.HasOutline outline) (read : file.imports = .ok imports) (place : outline.LineEnd)
    (comment : place.token.kind = .comment) {gap : Text} (newlines : ∀ c ∈ gap, c = '\n')
    (plain : ∀ spec ∈ added, spec.IsPlain)
    (result : file.reconcile required = ((file.edit [.insertAt place.offset
      (gap ++ importLines added)]).mapError .ofEditError).map fun done => (done.1, added)) :
    file.AddsInPlace required := by
  have writable : ∀ spec ∈ added, spec.IsWritable := fun spec member =>
    (plain spec member).isWritable
  rcases leadsTo_solid current has place (by simp [comment]) newlines writable with leads | quoted
  · obtain ⟨specs, stages⟩ := place.read_longer comment (gap ++ importLines added)
    have takes : file.TakesIn imports
        (.insertAt place.offset (gap ++ importLines added)) [] := by
      refine takesIn_of_leadsTo has read leads ?_ ?_
      · rw [stages]
        exact has.readable read
      · rw [← ImportLayout.map_path_specsFrom none, ← ImportLayout.map_path_specsFrom none, specs,
          List.map_nil, List.append_nil]
    refine addsInPlace_of_leadsTo has read leads takes ?_ (place.changesBlock_fill _) result
    rw [specs]
  · rw [quoted.1] at comment
    cases comment

private theorem addsInPlace_of_spares (current : file.IsCurrent) (read : file.imports = .ok imports)
    (spares : ∀ offset, file.EndsLineAt offset → file.SparesImports offset)
    (plain : ∀ spec ∈ required, spec.IsPlain) : file.AddsInPlace required := by
  by_cases all : ∀ spec ∈ required, spec.path ∈ imports.map (·.path)
  · exact addsInPlace_of_present current read all
  have present := missingImports_ne_nil all
  have fits : ∀ spec ∈ missingImports (imports.map (·.path)) required, spec.IsPlain :=
    fun spec member => plain spec (mem_of_mem_missingImports member).1
  have writable : ∀ spec ∈ missingImports (imports.map (·.path)) required, spec.IsWritable :=
    fun spec member => (fits spec member).isWritable
  obtain ⟨outline, has⟩ := current.hasOutline
  obtain ⟨edit, places, result⟩ := has.exists_places read present
  cases places with
  | newGroup empty =>
    refine addsInPlace_of_leadsTo has read (leadsTo_newGroup current has empty present writable)
      (takesIn_newGroup current has read empty present fits) ?_
      (Span.changesBlock_withGroup (has.formed.imports.gap_eq_nil empty) empty _) result
    rw [empty]
    exact List.nil_sublist _
  | tight room tight =>
    exact addsInPlace_of_room current has read (Outline.Room.isFree_of_isTight tight) present fits
      result
  | lineEnd place room ends blank same =>
    have free : place.IsFree := by
      rcases (has.sparesImports_iff place ends).1 (spares _ ends) with comment | ⟨-, free⟩
      · rw [blank] at comment
        cases comment
      · exact free
    exact addsInPlace_of_room current has read (same ▸ free) present fits result
  | solid place gap ends solid newlines =>
    rcases (has.sparesImports_iff place ends).1 (spares _ ends) with comment | ⟨blank, -⟩
    · exact addsInPlace_of_comment current has read place comment newlines fits result
    · exact absurd blank solid
  | promoted single _ =>
    refine addsInPlace_of_leadsTo has read (leadsTo_promoted current has single present writable)
      (takesIn_promoted current has read single present fits) (single.sublist_promoted present fits)
      (Span.changesBlock_withImports ?_ ?_) result
    · simp [single.whole]
    · simp [Outline.promotedTokens, Outline.groupTokens]

private theorem not_sublist_of_not_isFree {room : outline.Room} (across : ¬room.IsFree)
    {path : String} (plain : (⟨none, path⟩ : Import).IsPlain)
    (absent : path ∉ (specsFrom none outline.imports).map (·.path)) :
    ¬(specsFrom none outline.imports).Sublist
      (specsFrom none (room.fill (room.lines [⟨none, path⟩])).imports) := by
  rw [Outline.Slot.IsFree, not_or, Bool.not_eq_false] at across
  obtain ⟨waiting, takes⟩ := across
  obtain ⟨name, named⟩ := Option.ne_none_iff_exists'.1 waiting
  rcases ImportLayout.specsFrom_cases room.behind with ⟨-, first, rest, behind⟩ | ⟨refuses, -⟩
  · rw [room.specsFrom_imports, named, behind] at absent ⊢
    rw [room.specsFrom_fill (by simpa using plain), named, behind]
    intro sublist
    -- The import with the name is there once less than before.
    have fewer := sublist.count_le ⟨some name, first⟩
    have other : first ≠ path := by
      rintro rfl
      simp at absent
    simp only [List.count_append, List.count_cons, List.count_nil, Option.none_or, beq_iff_eq,
      Import.mk.injEq, reduceCtorEq, false_and, if_false, if_true, other.symm, and_false] at fewer
    omega
  · rw [refuses] at takes
    cases takes

private theorem not_sublist_of_longer (place : outline.LineEnd)
    (literal : place.token.kind = .literal) {lines : Text} (newline : '\n' ∈ lines) :
    ¬(specsFrom none outline.imports).Sublist
      (specsFrom none (place.fill [place.longer lines]).imports) := by
  have longer : (place.longer lines).kind = .literal := literal
  intro sublist
  rw [place.imports_eq, place.single, place.fill_imports, List.append_assoc,
    List.append_assoc] at sublist
  simp only [ImportLayout.specsFrom_append, List.singleton_append, specsFrom, literal, longer,
    if_true] at sublist
  have same := List.append_cancel_left (sublist.eq_of_length (by simp))
  have paths := congrArg Import.path (List.cons.inj same).1
  -- The path has one more line end for each in the new lines.
  have counts := congrArg (fun path => path.toList.count '\n') paths
  simp only [ImportLayout.count_newline_unquote, place.spelled, Outline.LineEnd.longer,
    List.count_append, List.count_cons] at counts
  have more := List.count_pos_iff.2 newline
  omega

private theorem exists_not_addsInPlace {offset : Nat} (current : file.IsCurrent)
    (read : file.imports = .ok imports) (ends : file.EndsLineAt offset)
    (shut : ¬file.SparesImports offset) :
    ∃ required, (∀ spec ∈ required, spec.IsPlain) ∧ ¬file.AddsInPlace required := by
  obtain ⟨outline, has⟩ := current.hasOutline
  obtain ⟨place, rfl⟩ := has.exists_lineEnd ends
  obtain ⟨path, nonempty, letters, absent⟩ := exists_absent_path (imports.map (·.path))
  have plain := isPlain_letters nonempty letters
  refine ⟨[⟨none, path⟩], by simpa using plain, ?_⟩
  rintro ⟨before, edited, added, after, read', reconciled, readAfter, sublist, -⟩
  obtain rfl : imports = before := Except.ok.inj (read.symm.trans read')
  rw [has.sparesImports_iff place ends, not_or, not_and] at shut
  obtain ⟨-, ⟨stands, -⟩, -⟩ := Token.stand_append_iff.1 (place.tokens_eq ▸ has.stand)
  rcases stands.kind_of_mem_newline (by simp [place.spelled]) with blank | comment | literal
  · obtain ⟨room, same, offset, front⟩ :=
      has.exists_roomAtLineEnd place blank (by simp : ∀ c ∈ [], Text.isBlank c)
    obtain ⟨changed, edit⟩ := exists_edit_of_reconcile read ends (isStandard_letters letters) absent
      reconciled
    obtain ⟨edited', changed', done, -, has'⟩ := leadsTo_room current has room
      (List.cons_ne_nil _ []) (by simpa using plain.isWritable)
    have line : room.front ++ importLines [⟨none, path⟩] =
        '\t' :: '"' :: (path.toList ++ ['"', '\n']) := by
      simp [front, importLines, Import.render]
    rw [line, offset] at done
    obtain ⟨rfl, -⟩ := Prod.mk.inj (Except.ok.inj (done.symm.trans edit))
    rw [has.eq_specsFrom read, has'.eq_specsFrom readAfter] at sublist
    rw [has.eq_specsFrom read] at absent
    exact not_sublist_of_not_isFree (same ▸ shut.2 blank) plain absent sublist
  · exact absurd comment shut.1
  · have has' := hasOutline_of_reconcile current has read place ends (by simp [literal]) nonempty
      letters absent reconciled
    rw [has.eq_specsFrom read, has'.eq_specsFrom readAfter] at sublist
    exact not_sublist_of_longer place literal (by simp) sublist

/-- Whatever a file lacks is added in place exactly when the place for new lines spares the imports
of the file. -/
theorem added_in_place_iff {path : String} {text : Text} (parsed : parse path text = .ok file)
    (read : file.imports = .ok imports) :
    (∀ required : List Import, (∀ spec ∈ required, spec.IsPlain) → file.AddsInPlace required) ↔
      ∀ offset, file.EndsLineAt offset → file.SparesImports offset := by
  have current : file.IsCurrent := .of_parse parsed
  constructor
  · intro inPlace offset ends
    by_contra shut
    obtain ⟨required, plain, fails⟩ := exists_not_addsInPlace current read ends shut
    exact fails (inPlace required plain)
  · intro spares required plain
    exact addsInPlace_of_spares current read spares plain

/-- A file with a dot import whose path stands on the line behind the dot, after a line. -/
def splitDotFile (line : String) : SourceFile :=
  let text := ("package a\n\nimport (\n\t\"fmt\"; .\n" ++ line ++ "\t\"strings\")\n").toList
  ⟨"a.go", none, "a", text, (Span.scan text).toOption.getD []⟩

private theorem not_sparesImports_splitDotFile :
    (splitDotFile "").EndsLineAt 30 ∧ ¬(splitDotFile "").SparesImports 30 := by
  have layout : ImportLayout.ofFile (splitDotFile "") =
      .ok (some ⟨[⟨⟨none, "fmt"⟩, 21, 26⟩, ⟨⟨some ".", "strings"⟩, 28, 40⟩], some (18, 40)⟩) := by
    decide +kernel
  have sliced : Text.slice? (splitDotFile "").text 26 40 = some "; .\n\t\"strings\"".toList := by
    decide +kernel
  have lexed : Token.lex (splitDotFile "").text =
      .ok [⟨.word, "package".toList⟩, ⟨.blank, [' ']⟩, ⟨.word, ['a']⟩, ⟨.blank, ['\n', '\n']⟩,
        ⟨.word, "import".toList⟩, ⟨.blank, [' ']⟩, ⟨.mark, ['(']⟩, ⟨.blank, ['\n', '\t']⟩,
        ⟨.literal, "\"fmt\"".toList⟩, ⟨.mark, [';']⟩, ⟨.blank, [' ']⟩, ⟨.mark, ['.']⟩,
        ⟨.blank, ['\n', '\t']⟩, ⟨.literal, "\"strings\"".toList⟩, ⟨.mark, [')']⟩,
        ⟨.blank, ['\n']⟩] := by
    decide +kernel
  refine ⟨⟨_, _, _, ⟨⟨none, "fmt"⟩, 21, 26⟩, _, layout, by decide, sliced, by decide, by decide⟩,
    ?_⟩
  rintro (⟨before, token, after, tokens, -, -, comment⟩ | apart)
  · have none : ∀ each ∈ before ++ token :: after, each.kind ≠ .comment := by
      rw [← Except.ok.inj (lexed.symm.trans tokens)]
      decide
    exact none token (by simp) comment
  · have outside := apart _ layout ⟨⟨some ".", "strings"⟩, 28, 40⟩ (by simp)
    simp at outside

/-- The new import goes between the dot and its path, and takes the dot. -/
theorem dot_goes_to_new_import :
    parse "a.go" (splitDotFile "").text = .ok (splitDotFile "") ∧
      (splitDotFile "").imports = .ok [⟨none, "fmt"⟩, ⟨some ".", "strings"⟩] ∧
      (splitDotFile "").reconcile [⟨none, "m/b"⟩] =
        .ok (splitDotFile "\t\"m/b\"\n", [⟨none, "m/b"⟩]) ∧
      (splitDotFile "\t\"m/b\"\n").imports =
        .ok [⟨none, "fmt"⟩, ⟨some ".", "m/b"⟩, ⟨none, "strings"⟩] ∧
      ¬∀ required : List Import, (∀ spec ∈ required, spec.IsPlain) →
        (splitDotFile "").AddsInPlace required := by
  have parsed : parse "a.go" (splitDotFile "").text = .ok (splitDotFile "") := by decide +kernel
  have read : (splitDotFile "").imports = .ok [⟨none, "fmt"⟩, ⟨some ".", "strings"⟩] := by
    decide +kernel
  refine ⟨parsed, read, by decide +kernel, by decide +kernel, fun inPlace => ?_⟩
  obtain ⟨ends, shut⟩ := not_sparesImports_splitDotFile
  exact shut ((added_in_place_iff parsed read).1 inPlace 30 ends)

end SourceFile

end Repackage
