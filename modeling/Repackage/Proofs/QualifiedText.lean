import Repackage.Proofs.ImportAdditions
import Repackage.Proofs.ImportSpecs
import Repackage.Proofs.InventedNames
import Repackage.Proofs.RespelledText
import Repackage.Proofs.SelectorImports
import Repackage.Proofs.Slices

/-!
What a qualified text is read as. Whatever packages a file asks for, they are packages of the table,
and the local names that its plan chooses are rows of word characters. So the text of a qualified
file is read as the imports that were there and another body, unless a qualifier is the keyword of
one more import; and what the plan adds is missing from it still.
-/

set_option autoImplicit false
set_option relaxedAutoImplicit false

namespace Repackage

def Word.IsRow (row : Text) : Prop :=
  row ≠ [] ∧ ∀ c ∈ row, Text.isWordChar c

private theorem Word.isRow_of_isSpelled {word : Text} (spelled : isSpelled word) : IsRow word := by
  refine ⟨?_, isWordChar_of_isSpelled spelled⟩
  rintro rfl
  cases spelled

private theorem Word.isRow_of_isIdentifier {word : Text} (name : isIdentifier word) : IsRow word :=
  isRow_of_isSpelled (Token.isSpelled_of_isIdentifier name)

namespace ImportLayout

def IsAlias (name : String) : Prop :=
  name = "." ∨ Word.isSpelled name.toList

private theorem isAlias_waits {token : Token} {rest : Text} (stands : token.Stands rest)
    {waiting : Option String} (kept : ∀ name ∈ waiting, IsAlias name) :
    ∀ name ∈ waits waiting token, IsAlias name := by
  intro name found
  rw [waits] at found
  split_ifs at found with passed dot word
  · exact kept name found
  · obtain rfl := Option.some.inj found
    exact .inl rfl
  · obtain rfl := Option.some.inj found
    right
    rw [String.toList_ofList]
    exact stands.isSpelled word.1
  · cases found

private theorem isAlias_of_mem_specsFrom {tokens : List Token} (stand : Token.Stand tokens)
    {waiting : Option String} (kept : ∀ name ∈ waiting, IsAlias name) {spec : Import}
    (member : spec ∈ specsFrom waiting tokens) : ∀ name ∈ spec.name, IsAlias name := by
  induction tokens generalizing waiting with
  | nil => cases member
  | cons token tokens ih =>
    obtain ⟨stands, stand⟩ := stand
    rw [specsFrom] at member
    split_ifs at member with literal
    · rcases List.mem_cons.1 member with rfl | later
      · exact kept
      · exact ih stand (by simp) later
    · exact ih stand (isAlias_waits stands kept) member

end ImportLayout

namespace ImportPlan

open ImportLayout (IsAlias)

private theorem isRow_nameFor {taken : List String} {path : String} {need : Need}
    (name : Word.isIdentifier need.name.toList) :
    Word.IsRow (nameFor taken path need).toList := by
  have own : Word.IsRow need.name.toList := Word.isRow_of_isIdentifier name
  rcases nameFor_spelling taken path need with same | same | ⟨n, same⟩
  · rwa [same]
  · rw [same, String.toList_append]
    refine ⟨?_, List.forall_mem_append.2 ⟨isWordChar_of_mem_parentWord, own.2⟩⟩
    intro empty
    exact own.1 (List.append_eq_nil_iff.1 empty).2
  · rw [same]
    exact Word.isRow_of_isIdentifier (Word.isIdentifier_numbered name n)

private theorem isRow_of_dictates {spec : Import} {need : Need} {name : String}
    (written : ∀ name ∈ spec.name, IsAlias name) (own : Word.isIdentifier need.name.toList)
    (dictated : Dictates need spec (.qualified name)) : Word.IsRow name.toList := by
  cases dictated with
  | unnamed => exact Word.isRow_of_isIdentifier own
  | aliased dot blank =>
    rcases written name rfl with isDot | spelled
    · exact absurd isDot dot
    · exact Word.isRow_of_isSpelled spelled

private theorem isRow_of_make {existing : List Import} {needed : Dict Need} {declared : List String}
    {plan : ImportPlan} (written : ∀ spec ∈ existing, ∀ name ∈ spec.name, IsAlias name)
    (named : ∀ entry ∈ needed.entries, Word.isIdentifier entry.2.name.toList)
    (planned : make existing needed declared = .ok plan) :
    ∀ name ∈ plan.names, Word.IsRow name.toList := by
  intro name member
  obtain ⟨binding, bound, chosen⟩ := List.mem_filterMap.1 member
  obtain ⟨⟨path, binding⟩, listed, rfl⟩ := List.mem_map.1 bound
  obtain rfl : binding = .qualified name := by
    cases binding with
    | qualified other => exact congrArg _ (Option.some.inj chosen)
    | dot => cases chosen
  obtain ⟨need, asked, ⟨spec, imported, dictated⟩ | ⟨-, names, same⟩⟩ :=
    (plans_of_make planned).binding_cases listed
  · exact isRow_of_dictates (written spec (List.mem_of_find?_eq_some imported)) (named _ asked)
      dictated
  · obtain rfl := Binding.qualified.inj same
    exact isRow_nameFor (named _ asked)

theorem isWritable_of_mem_additions {existing : List Import} {needed : Dict Need}
    {declared : List String} {plan : ImportPlan}
    (named : ∀ entry ∈ needed.entries, Word.isIdentifier entry.2.name.toList)
    (plain : ∀ entry ∈ needed.entries, ∀ c ∈ entry.1.toList,
      Text.isAsciiAlphanumeric c ∨ c ∈ ['.', '_', '-', '~', '/'])
    (planned : make existing needed declared = .ok plan) {spec : Import}
    (member : spec ∈ plan.additions) : spec.IsWritable := by
  rcases planFrom_additions planned needed.sorted member with old | ⟨need, taken, listed, same, -⟩
  · cases old
  have row := @isRow_nameFor taken spec.path need (named _ listed)
  have chosen : ∀ name ∈ spec.name, name = nameFor taken spec.path need := by
    intro name found
    rw [same, specFor] at found
    split_ifs at found
    · cases found
    · exact (Option.some.inj found).symm
  refine ⟨plain _ listed, fun name found => ?_, fun name found => ?_⟩
  · rw [chosen name found]
    exact row.1
  · rw [chosen name found]
    exact row.2

theorem exists_blank_of_planFrom {existing : List Import} {plan : ImportPlan}
    {taken : List String} {needs : List (String × Need)} {failure : Failure}
    (stopped : planFrom existing plan taken needs = .error failure) :
    ∃ spec ∈ existing, spec.name = some "_" ∧ failure = blankConflict spec.path := by
  obtain ⟨⟨path, need⟩, found, rfl⟩ := planFrom_eq_error_iff.1 stopped
  obtain ⟨spec, imported, blank⟩ := isBlank_iff.1 (by simpa using List.find?_some found)
  obtain rfl : spec.path = path := by simpa using List.find?_some imported
  exact ⟨spec, List.mem_of_find?_eq_some imported, blank, rfl⟩

theorem missingImports_additions {existing : List Import} {needed : Dict Need}
    {declared : List String} {plan : ImportPlan}
    (planned : make existing needed declared = .ok plan) :
    SourceFile.missingImports (existing.map (·.path)) plan.additions = plan.additions := by
  obtain ⟨added, same, adds⟩ := exists_adds planned
  obtain rfl : plan.additions = added := same
  refine SourceFile.missingImports_eq_self ((adds.pairwise needed.sorted).imp And.left) ?_
  intro spec member
  exact (adds.mem_paths_iff.1 (List.mem_map_of_mem member)).2

end ImportPlan

namespace Qualification

private theorem mem_entries_foldl_addNeed {entries : List (String × Need)} {needed : Dict Need}
    {entry : String × Need} (member : entry ∈ (entries.foldl addNeed needed).entries) :
    entry ∈ needed.entries ∨ entry ∈ entries := by
  induction entries generalizing needed with
  | nil => exact .inl member
  | cons first entries ih =>
    rcases ih member with old | later
    · have one : entry = first ∨ entry ∈ needed.entries := by
        rw [addNeed] at old
        split_ifs at old with fixed
        · exact Dict.mem_insertEntry old
        · rw [Dict.insertNew] at old
          split_ifs at old with known
          · exact .inr old
          · exact Dict.mem_insertEntry old
      rcases one with rfl | before
      · exact .inr List.mem_cons_self
      · exact .inl before
    · exact .inr (List.mem_cons_of_mem _ later)

private theorem Scope.exists_package_of_need {config : Config} {scope : Scope}
    (loaded : Table.load config = .ok scope.table) {identifier : Identifier} {path : String}
    {need : Need} (asked : (scope.inspect identifier).need = some (path, need)) :
    ∃ package ∈ scope.table.packages.values,
      package.importPath = path ∧ package.name = need.name := by
  obtain ⟨word, site⟩ := identifier
  cases site with
  | reference =>
    obtain ⟨symbol, -, -, package, owner, same⟩ := reference_need_eq_some_iff.1 asked
    obtain ⟨rfl, rfl⟩ := Prod.mk.inj same
    exact ⟨package, Dict.mem_values_of_find? owner, rfl, rfl⟩
  | declaration kind =>
    rw [inspect, declaration_need] at asked
    cases asked
  | selected qualifier =>
    cases qualifier with
    | none => cases asked
    | some qualifier =>
      obtain ⟨-, package, resolved, -, free, -, same⟩ := selected_need_eq_some_iff.1 asked
      rw [packageOf?, free] at resolved
      obtain ⟨rfl, rfl⟩ := Prod.mk.inj same
      obtain ⟨member, named⟩ := (Table.package?_eq_some_iff loaded).1 resolved
      exact ⟨package, member, rfl, named⟩

end Qualification

namespace SourceFile

open Qualification ImportLayout

variable {config : Config} {table : Table} {home : Option Package} {file : SourceFile}
  {imports : List Import} {plan : ImportPlan} {outline : Outline}

theorem exists_package_of_needed (loaded : Table.load config = .ok table)
    {entry : String × Need}
    (member : entry ∈ (file.needed (file.scope table home imports)).entries) :
    ∃ package ∈ table.packages.values,
      package.importPath = entry.1 ∧ package.name = entry.2.name := by
  rcases mem_entries_foldl_addNeed member with old | asked
  · cases old
  · obtain ⟨finding, inspected, asked⟩ := List.mem_filterMap.1 asked
    obtain ⟨identifier, -, rfl⟩ := List.mem_map.1 inspected
    exact Scope.exists_package_of_need loaded asked

theorem isIdentifier_of_needed (loaded : Table.load config = .ok table) :
    ∀ entry ∈ (file.needed (file.scope table home imports)).entries,
      Word.isIdentifier entry.2.name.toList := by
  intro entry member
  obtain ⟨package, listed, -, named⟩ := exists_package_of_needed loaded member
  rw [← named]
  exact Table.isIdentifier_of_mem_packages loaded listed

private theorem swap_isWritable (loaded : Table.load config = .ok table)
    (has : file.HasOutline outline)
    (read : file.imports = .ok imports) (planned : file.importPlan table home = .ok plan) :
    (file.swap table home imports plan).IsWritable := by
  have written : ∀ spec ∈ imports, ∀ name ∈ spec.name, IsAlias name := by
    intro spec member
    rw [has.eq_specsFrom read] at member
    exact isAlias_of_mem_specsFrom (Outline.stand_imports has.stand) (by simp) member
  rw [importPlan_eq read] at planned
  have rows : ∀ name ∈ plan.names, Word.IsRow name.toList :=
    ImportPlan.isRow_of_make written (isIdentifier_of_needed loaded) planned
  intro word spelling found
  obtain ⟨identifier, -, rfl, spelled⟩ := Scope.swap_cases found
  obtain ⟨symbol, known, name, qualifier⟩ := Scope.respelling?_cases spelled
  have row : ∀ front ∈ spelling.qualifier, Word.IsRow front := by
    intro front found
    obtain ⟨bare, -⟩ | ⟨-, chosen, member, qualified⟩ := qualifier
    · simp [bare] at found
    · rw [qualified] at found
      obtain rfl := Option.some.inj found
      exact rows chosen member
  refine ⟨?_, fun front found => (row front found).1, fun front found => (row front found).2⟩
  rw [name]
  exact Table.isIdentifier_of_mem_symbols loaded (Table.name_of_symbol? known).1

theorem qualify_of_importPlan_error (read : file.imports = .ok imports) {failure : Failure}
    (failed : file.importPlan table home = .error failure) :
    file.qualify table home = .error failure := by
  rw [importPlan_eq read] at failed
  simp only [needed, scope] at failed
  simp only [qualify, tryQualify, read, failed]
  rfl

private theorem edit_eq_unscannable (current : file.IsCurrent) {edits : List Edit} {text : Text}
    {cause : ScanError} (spliced : Edit.splice file.text edits = some text)
    (refused : Span.scan text = .error cause) : file.edit edits = .error (.unscannable cause) := by
  have other : text ≠ file.text := by
    rintro rfl
    rw [current.scanned] at refused
    cases refused
  have some : edits ≠ [] := by
    rintro rfl
    exact other (by simpa [Edit.splice, Edit.spliceFrom, Text.cut?] using spliced.symm)
  simp only [edit_eq, some, spliced, other, withText, refused, if_false]
  rfl

theorem splice_edits (current : file.IsCurrent) (has : file.HasOutline outline) :
    Edit.splice file.text ((file.scope table home imports).edits plan file.sites) =
      some (Token.texts (outline.front ++ outline.imports) ++ Token.texts
        (Span.respellBody (file.swap table home imports plan) outline).body) := by
  have spliced := Span.splice_editsFrom (file.swap table home imports plan) file.spans
  rw [Span.texts_of_scan current.scanned, ← edits_eq current.scanned, has.spans,
    Span.respellFrom_ofOutline _ has.formed, Span.texts_ofOutline] at spliced
  rw [spliced, ← Token.texts_append]
  rfl

theorem qualify_cases (current : file.IsCurrent) (loaded : Table.load config = .ok table)
    (has : file.HasOutline outline) (read : file.imports = .ok imports)
    (planned : file.importPlan table home = .ok plan) :
    let spelled := Span.respellBody (file.swap table home imports plan) outline
    (Outline.startsImport spelled.body = false ∧ ∃ qualified result body,
        file.qualify table home = .ok (qualified, result) ∧ result.imports = plan.additions ∧
          qualified.IsCurrent ∧ qualified.HasOutline (outline.withBody body)) ∨
      Outline.startsImport spelled.body = true ∧
        ∃ cause, file.qualify table home = .error (.ambiguous cause) := by
  intro spelled
  have outcome := qualify_eq read planned
  have spliced := @splice_edits table home file imports plan outline current has
  obtain ⟨body, text, stand, cases⟩ :=
    Outline.exists_withBody (swap_isWritable loaded has read planned) has.stand has.formed
  rw [← text, ← Token.texts_append, ← Outline.tokens_withBody] at spliced
  rcases cases with ⟨none, formed⟩ | ⟨opens, breaks⟩
  · obtain ⟨qualified, changed, done, current', has'⟩ :=
      leadsTo_of_splice current stand formed spliced
    simp only [done, Except.mapError, Except.map] at outcome
    exact .inl ⟨none, qualified, _, body, outcome, rfl, current', has'⟩
  · obtain ⟨cause, failed⟩ : ∃ cause,
        Outline.ofTokens (outline.withBody body).tokens = .error cause :=
      has.formed.ofTokens_eq_error breaks
    have lexed : Token.lex (Token.texts (outline.withBody body).tokens) =
        .ok (outline.withBody body).tokens :=
      Token.lexFrom_eq_ok_iff.2 ⟨rfl, stand⟩
    have refused : Span.scan (Token.texts (outline.withBody body).tokens) = .error cause := by
      simp only [Span.scan, lexed, failed]
      rfl
    simp only [edit_eq_unscannable current spliced refused, Except.mapError, Except.map,
      Failure.ofEditError] at outcome
    exact .inr ⟨opens, cause, outcome⟩

end SourceFile

end Repackage
