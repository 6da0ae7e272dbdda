import Repackage.Proofs.ImportGroup

/-!
The imports that tokens are read as. A name waits for the next path, across white space, comments
and parentheses, and anything else lets go of it; so what is read from a row of tokens depends on
what came before it by the waiting name only. An import goes across a place in the tokens exactly
when a name waits there and the next token of another kind is a path.
-/

set_option autoImplicit false
set_option relaxedAutoImplicit false

namespace Repackage.ImportLayout

open Token (texts significantFrom linesOf space)

def isPassed (token : Token) : Bool :=
  Outline.isGap token || token.isMark '(' || token.isMark ')'

def waits (waiting : Option String) (token : Token) : Option String :=
  if isPassed token then waiting
  else if token.isMark '.' then some "."
  else if token.kind = .word ∧ token.text ≠ "import".toList then some (String.ofList token.text)
  else none

def specsFrom (waiting : Option String) : List Token → List Import
  | [] => []
  | token :: tokens =>
    if token.kind = .literal then ⟨waiting, unquote token.text⟩ :: specsFrom none tokens
    else specsFrom (waits waiting token) tokens

def takesName : List Token → Bool
  | [] => false
  | token :: tokens => if isPassed token then takesName tokens else token.kind = .literal

private theorem isPassed_eq_false_of_literal {token : Token} (literal : token.kind = .literal) :
    isPassed token = false := by
  simp [isPassed, Outline.isGap_eq_false_of_kind (.inr literal),
    Outline.isMark_eq_false_of_literal literal]

theorem waits_of_literal {token : Token} (literal : token.kind = .literal)
    (waiting : Option String) : waits waiting token = none := by
  simp [waits, isPassed_eq_false_of_literal literal, Outline.isMark_eq_false_of_literal literal,
    literal]

theorem waits_of_isPassed {token : Token} (passed : isPassed token) (waiting : Option String) :
    waits waiting token = waiting := by
  rw [waits, if_pos passed]

private theorem waits_of_not_isPassed {token : Token} (stops : isPassed token = false)
    (waiting other : Option String) : waits waiting token = waits other token := by
  simp only [waits, stops, Bool.false_eq_true, if_false]

theorem specsFrom_cons_of_ne {token : Token} (other : token.kind ≠ .literal)
    (waiting : Option String) (tokens : List Token) :
    specsFrom waiting (token :: tokens) = specsFrom (waits waiting token) tokens := by
  rw [specsFrom, if_neg other]

theorem specsFrom_append (waiting : Option String) (a b : List Token) :
    specsFrom waiting (a ++ b) =
      specsFrom waiting a ++ specsFrom (a.foldl waits waiting) b := by
  induction a generalizing waiting with
  | nil => rfl
  | cons token a ih =>
    rw [List.cons_append, specsFrom, specsFrom, List.foldl_cons]
    split_ifs with literal
    · rw [ih, waits_of_literal literal, List.cons_append]
    · exact ih _

theorem map_path_specsFrom (waiting : Option String) (tokens : List Token) :
    (specsFrom waiting tokens).map (·.path) = pathsOf tokens := by
  induction tokens generalizing waiting with
  | nil => rfl
  | cons token tokens ih =>
    rw [specsFrom]
    split_ifs with literal
    · rw [List.map_cons, ih, pathsOf_cons_of_eq literal]
    · rw [ih, pathsOf_cons_of_ne literal]

theorem specsFrom_cases (tokens : List Token) :
    takesName tokens = true ∧ (∃ path rest, ∀ waiting,
        specsFrom waiting tokens = ⟨waiting, path⟩ :: rest) ∨
      takesName tokens = false ∧
        ∀ waiting other, specsFrom waiting tokens = specsFrom other tokens := by
  induction tokens with
  | nil => exact .inr ⟨rfl, fun _ _ => rfl⟩
  | cons token tokens ih =>
    by_cases literal : token.kind = .literal
    · refine .inl ⟨?_, unquote token.text, specsFrom none tokens, fun waiting => ?_⟩
      · simp [takesName, isPassed_eq_false_of_literal literal, literal]
      · rw [specsFrom, if_pos literal]
    · cases passed : isPassed token with
      | true => simpa only [takesName, specsFrom, passed, if_true, literal, if_false,
          waits_of_isPassed passed] using ih
      | false =>
        refine .inr ⟨by simp [takesName, passed, literal], fun waiting other => ?_⟩
        rw [specsFrom_cons_of_ne literal, specsFrom_cons_of_ne literal,
          waits_of_not_isPassed passed waiting other]

theorem isPassed_of_isGap {token : Token} (gap : Outline.isGap token) : isPassed token = true := by
  simp [isPassed, gap]

theorem specsFrom_space (waiting : Option String) (text : Text) :
    specsFrom waiting (space text) = [] ∧ (space text).foldl waits waiting = waiting := by
  unfold Token.space
  split_ifs
  · exact ⟨rfl, rfl⟩
  · exact ⟨rfl, rfl⟩

theorem takesName_of_hasImports {between more body : List Token}
    (shapes : Outline.HasImports between more body) : takesName (between ++ more) = false := by
  have separators := shapes.separates
  have stops : takesName more = false := by
    cases shapes with
    | nil => rfl
    | @cons _ declaration _ _ _ keyword _ isImport _ _ =>
      have word := Outline.kind_of_isWord isImport
      have halts : isPassed keyword = false := by
        simp [isPassed, Outline.isGap_eq_false_of_kind (.inl word),
          Outline.isMark_eq_false_of_word word]
      simp [takesName, halts, word]
  clear shapes
  induction between with
  | nil => exact stops
  | cons token between ih =>
    obtain ⟨first, later⟩ := List.forall_mem_cons.1 separators
    rw [List.cons_append, takesName]
    split_ifs with passed
    · exact ih later
    · rcases Bool.or_eq_true_iff.1 first with gap | semicolon
      · exact absurd (isPassed_of_isGap gap) passed
      · simp [(Token.isMark_iff.1 semicolon).1]

section Lines

variable {spec : Import}

private theorem specsFrom_tokens (plain : spec.IsPlain) (waiting : Option String) :
    specsFrom waiting spec.tokens = [⟨spec.name.or waiting, spec.path⟩] ∧
      spec.tokens.foldl waits waiting = none := by
  cases named : spec.name with
  | none =>
    simp [Import.tokens, named, specsFrom, unquote_plain plain.path, waits_of_literal]
  | some name =>
    have identifier : Word.isIdentifier name.toList := plain.name name named
    have other : name.toList ≠ "import".toList := by
      intro same
      rw [same] at identifier
      exact absurd identifier (by decide)
    have halts : isPassed ⟨.word, name.toList⟩ = false := rfl
    have passed : isPassed ⟨.blank, [' ']⟩ = true := rfl
    have waitsFor : waits waiting ⟨.word, name.toList⟩ = some name := by
      rw [waits, halts, if_neg (by simp), if_neg (by simp [Token.isMark]), if_pos ⟨rfl, other⟩,
        String.ofList_toList]
    rw [Import.tokens, named]
    simp only [Import.nameTokens_of_isSpelled (plain.isSpelled named), List.cons_append,
      List.nil_append, specsFrom, List.foldl_cons, List.foldl_nil, waitsFor,
      waits_of_isPassed passed, Option.some_or, unquote_plain plain.path]
    simp [waits_of_literal]

theorem specsFrom_blank_cons (waiting : Option String) (text : Text) (tokens : List Token) :
    specsFrom waiting (⟨.blank, text⟩ :: tokens) = specsFrom waiting tokens ∧
      (⟨.blank, text⟩ :: tokens).foldl waits waiting = tokens.foldl waits waiting :=
  ⟨rfl, rfl⟩

theorem specsFrom_linesOf {specs : List Import} (plain : ∀ each ∈ spec :: specs, each.IsPlain)
    (waiting : Option String) (front back : Text) :
    specsFrom waiting (linesOf front (spec :: specs) back) =
        ⟨spec.name.or waiting, spec.path⟩ :: specs ∧
      (linesOf front (spec :: specs) back).foldl waits waiting = none := by
  induction specs generalizing spec waiting front with
  | nil =>
    obtain ⟨first, -⟩ := List.forall_mem_cons.1 plain
    obtain ⟨read, waits⟩ := specsFrom_tokens first waiting
    rw [linesOf, linesOf, List.cons_append, (specsFrom_blank_cons _ _ _).1,
      (specsFrom_blank_cons _ _ _).2, specsFrom_append, List.foldl_append, read, waits]
    exact ⟨rfl, rfl⟩
  | cons other specs ih =>
    obtain ⟨first, later⟩ := List.forall_mem_cons.1 plain
    obtain ⟨read, waits⟩ := specsFrom_tokens first waiting
    obtain ⟨rest, ends⟩ := ih later none ['\n']
    rw [linesOf, List.cons_append, (specsFrom_blank_cons _ _ _).1, (specsFrom_blank_cons _ _ _).2,
      specsFrom_append, List.foldl_append, read, waits, rest, ends, Option.or_none]
    exact ⟨rfl, rfl⟩

end Lines

namespace Reading

variable {start line : Nat} {token : Token} {tokens : List Token} {reading next : Reading}

theorem step_cases (done : reading.step ⟨start, line, token⟩ = some next) :
    (token.kind = .literal ∧ next.name = none ∧ ∃ placed : PlacedImport,
      next.specs = reading.specs ++ [placed] ∧
      placed.spec = ⟨reading.name.map (·.1), unquote token.text⟩ ∧
      placed.start = reading.name.elim start (·.2) ∧
      placed.stop = start + Text.byteSize token.text) ∨
    (token.kind ≠ .literal ∧ next.specs = reading.specs ∧
      (isPassed token = true ∧ next.name = reading.name ∨
        isPassed token = false ∧
          next.name = (waits none token).map fun name => (name, start))) := by
  simp only [Reading.step] at done
  cases kind : token.kind with
  | blank => simp [kind] at done
  | comment => simp [kind] at done
  | number => simp [kind] at done
  | literal =>
    simp only [kind, Option.some.injEq] at done
    subst done
    refine .inl ⟨rfl, rfl, _, rfl, ?_⟩
    cases reading.name with
    | none => exact ⟨rfl, rfl, rfl⟩
    | some name => exact ⟨rfl, rfl, rfl⟩
  | word =>
    have stops : isPassed token = false := by
      simp [isPassed, Outline.isGap_eq_false_of_kind (.inl kind),
        Outline.isMark_eq_false_of_word kind]
    simp only [kind] at done
    split_ifs at done with keyword <;> cases done
    · refine .inr ⟨by simp, rfl, .inr ⟨stops, ?_⟩⟩
      simp [waits, stops, Outline.isMark_eq_false_of_word kind, keyword]
    · refine .inr ⟨by simp, rfl, .inr ⟨stops, ?_⟩⟩
      simp only [waits, stops, Outline.isMark_eq_false_of_word kind, kind, ne_eq, keyword]
      simp
  | mark =>
    have gap : Outline.isGap token = false := by simp [Outline.isGap, Token.isSignificant, kind]
    have isMark (c : Char) : token.isMark c = (token.text == [c]) := by simp [Token.isMark, kind]
    simp only [kind] at done
    split_ifs at done with dot opening closing semicolon <;> cases done
    · refine .inr ⟨by simp, rfl, .inr ⟨?_, ?_⟩⟩
      · simp [isPassed, gap, isMark, dot]
      · simp [waits, isPassed, gap, isMark, dot]
    · exact .inr ⟨by simp, rfl, .inl ⟨by simp [isPassed, isMark, opening], rfl⟩⟩
    · exact .inr ⟨by simp, rfl, .inl ⟨by simp [isPassed, isMark, closing], rfl⟩⟩
    · refine .inr ⟨by simp, rfl, .inr ⟨?_, ?_⟩⟩
      · simp [isPassed, gap, isMark, semicolon]
      · simp [waits, isPassed, gap, isMark, semicolon, kind]

theorem specs_of_run (done : reading.run (significantFrom start line tokens) = .ok next) :
    next.specs.map (·.spec) =
        reading.specs.map (·.spec) ++ specsFrom (reading.name.map (·.1)) tokens ∧
      next.name.map (·.1) = tokens.foldl waits (reading.name.map (·.1)) := by
  induction tokens generalizing start line reading with
  | nil =>
    cases done
    exact ⟨(List.append_nil _).symm, rfl⟩
  | cons token tokens ih =>
    rw [Token.significantFrom_cons] at done
    rw [specsFrom, List.foldl_cons]
    split_ifs at done with significant
    · rw [Reading.run] at done
      split at done
      · cases done
      next stepped found =>
        obtain ⟨specs, name⟩ := ih done
        obtain ⟨literal, none, placed, grown, spec, -⟩ | ⟨other, same, waiting⟩ := step_cases found
        · rw [specs, name, grown, none, if_pos literal, waits_of_literal literal]
          simp [spec]
        · have left : stepped.name.map (·.1) = waits (reading.name.map (·.1)) token := by
            obtain ⟨passed, kept⟩ | ⟨stops, now⟩ := waiting
            · rw [kept, waits_of_isPassed passed]
            · rw [now, waits_of_not_isPassed stops (reading.name.map (·.1)) none]
              cases waits none token with
              | none => rfl
              | some name => rfl
          rw [specs, name, same, if_neg other, left]
          exact ⟨rfl, rfl⟩
    · have passed : isPassed token = true :=
        isPassed_of_isGap (by simpa [Outline.isGap] using significant)
      have other : token.kind ≠ .literal := by
        intro literal
        simp [isPassed_eq_false_of_literal literal] at passed
      rw [if_neg other, waits_of_isPassed passed]
      exact ih done

theorem le_start_of_run {bound : Nat} (behind : bound ≤ start)
    (free : takesName tokens = false ∨
      ∀ name offset, reading.name = some (name, offset) → bound ≤ offset)
    (done : reading.run (significantFrom start line tokens) = .ok next) :
    ∀ placed ∈ next.specs, placed ∈ reading.specs ∨ bound ≤ placed.start := by
  induction tokens generalizing start line reading with
  | nil =>
    cases done
    exact fun placed member => .inl member
  | cons token tokens ih =>
    rw [Token.significantFrom_cons] at done
    split_ifs at done with significant
    · rw [Reading.run] at done
      split at done
      · cases done
      next stepped found =>
        obtain ⟨literal, none, placed, grown, -, starts, -⟩ | ⟨other, same, waiting⟩ :=
          step_cases found
        · have own : bound ≤ placed.start := by
            have early := free.resolve_left (by
              simp [takesName, isPassed_eq_false_of_literal literal, literal])
            cases named : reading.name with
            | none =>
              rw [starts, named]
              exact behind
            | some name =>
              rw [starts, named]
              exact early name.1 name.2 named
          intro later member
          rcases ih (by omega) (.inr (by simp [none])) done later member with old | new
          · rw [grown, List.mem_append, List.mem_singleton] at old
            rcases old with old | rfl
            · exact .inl old
            · exact .inr own
          · exact .inr new
        · rw [← same]
          refine ih (by omega) ?_ done
          obtain ⟨passed, kept⟩ | ⟨stops, now⟩ := waiting
          · rw [kept]
            rwa [takesName, if_pos passed] at free
          · refine .inr fun name offset named => ?_
            rw [now, Option.map_eq_some_iff] at named
            obtain ⟨_, -, pair⟩ := named
            obtain ⟨-, rfl⟩ := Prod.mk.inj pair
            exact behind
    · have passed : isPassed token = true :=
        isPassed_of_isGap (by simpa [Outline.isGap] using significant)
      rw [takesName, if_pos passed] at free
      exact ih (by omega) free done

theorem exists_across_of_run {name : String} {offset : Nat}
    (solid : ∀ token ∈ tokens, 0 < Text.byteSize token.text) (takes : takesName tokens)
    (named : reading.name = some (name, offset))
    (done : reading.run (significantFrom start line tokens) = .ok next) :
    ∃ placed ∈ next.specs, placed.start = offset ∧ start < placed.stop := by
  induction tokens generalizing start line reading with
  | nil => cases takes
  | cons token tokens ih =>
    obtain ⟨own, later⟩ := List.forall_mem_cons.1 solid
    rw [Token.significantFrom_cons] at done
    rw [takesName] at takes
    split_ifs at done with significant
    · rw [Reading.run] at done
      split at done
      · cases done
      next stepped found =>
        obtain ⟨literal, -, placed, grown, -, starts, stops⟩ | ⟨other, -, waiting⟩ :=
          step_cases found
        · obtain ⟨more, rest⟩ := exists_specs_of_run done
          refine ⟨placed, ?_, ?_, by omega⟩
          · rw [rest, grown]
            simp
          · rw [starts, named]
            rfl
        · obtain ⟨passed, kept⟩ | ⟨stops, -⟩ := waiting
          · rw [if_pos passed] at takes
            obtain ⟨placed, member, starts, ends⟩ := ih later takes (kept.trans named) done
            exact ⟨placed, member, starts, by omega⟩
          · simp [stops, other] at takes
    · have passed : isPassed token = true :=
        isPassed_of_isGap (by simpa [Outline.isGap] using significant)
      rw [if_pos passed] at takes
      obtain ⟨placed, member, starts, ends⟩ := ih later takes named done
      exact ⟨placed, member, starts, by omega⟩

end Reading

end Repackage.ImportLayout

namespace Repackage.SourceFile

open ImportLayout (Reading specsFrom)

variable {file : SourceFile} {outline : Outline} {imports : List Import}

theorem HasOutline.eq_specsFrom (has : file.HasOutline outline)
    (read : file.imports = .ok imports) : imports = specsFrom none outline.imports := by
  cases found : ImportLayout.ofFile file with
  | error cause =>
    rw [SourceFile.imports, found] at read
    cases read
  | ok layout =>
    rw [SourceFile.imports, found] at read
    cases layout with
    | none =>
      obtain rfl := Except.ok.inj read
      have paths := has.paths_of_imports (by rw [SourceFile.imports, found]; rfl)
      rw [← ImportLayout.map_path_specsFrom none] at paths
      exact (List.map_eq_nil_iff.1 paths.symm).symm
    | some layout =>
      obtain ⟨-, reading, run, -, rfl⟩ := has.exists_reading found
      obtain rfl := Except.ok.inj read
      exact (Reading.specs_of_run run).1

end Repackage.SourceFile
