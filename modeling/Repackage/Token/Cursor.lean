import Repackage.Token

/-!
The tokens of a text read at byte offsets. A cursor stands at an offset of its text, and whatever it
looks at is cut out of the text there; offsets that do not fall between two characters can not be
cut at. All cuts of the lexer exist, and it comes to the tokens that `Token.lex` gives, each at its
place.
-/

set_option autoImplicit false
set_option relaxedAutoImplicit false

namespace Repackage.Token

/-- An offset into a text. -/
structure Cursor where
  source : Text
  position : Nat

/-- A lexical class with the offsets of its token. -/
structure Placed where
  kind : Kind
  start : Nat
  stop : Nat
  deriving DecidableEq

def Placed.of (located : Located) : Placed :=
  ⟨located.token.kind, located.start, located.stop⟩

namespace Cursor

def rest? (cursor : Cursor) : Option Text :=
  (Text.cut? cursor.position cursor.source).map Prod.snd

def peek? (cursor : Cursor) : Option (Option Char) :=
  cursor.rest?.map List.head?

def peekSecond? (cursor : Cursor) : Option (Option Char) :=
  cursor.rest?.map fun rest => rest[1]?

def move (cursor : Cursor) (bytes : Nat) : Cursor :=
  { cursor with position := cursor.position + bytes }

def bump? (cursor : Cursor) : Option (Option Char × Cursor) :=
  cursor.peek?.map fun next =>
    match next with
    | none => (none, cursor)
    | some c => (some c, cursor.move c.utf8Size)

def between (before after : Text) : Cursor :=
  ⟨before ++ after, Text.byteSize before⟩

def left (cursor : Cursor) : Nat :=
  Text.byteSize cursor.source - cursor.position

private theorem left_between (before after : Text) : (between before after).left = Text.byteSize
    after := by
  rw [left, between, Text.byteSize_append, Nat.add_sub_cancel_left]

private theorem eq_between_of_peek {cursor : Cursor} {c : Char}
    (next : cursor.peek? = some (some c)) :
    ∃ before after, cursor = between before (c :: after) := by
  obtain ⟨rest, found, first⟩ := Option.map_eq_some_iff.mp next
  obtain ⟨⟨before, after⟩, cut, same⟩ := Option.map_eq_some_iff.mp found
  cases same
  obtain ⟨whole, place⟩ := Text.eq_append_of_cut? cut
  obtain ⟨source, position⟩ := cursor
  cases after with
  | nil => cases first
  | cons d after =>
    cases first
    cases whole
    cases place
    exact ⟨before, after, rfl⟩

private theorem move_between (before middle rest : Text) :
    (between before (middle ++ rest)).move (Text.byteSize middle) =
      between (before ++ middle) rest := by
  rw [move, between, between, Text.byteSize_append, List.append_assoc]

private theorem left_move {cursor : Cursor} {c : Char} (next : cursor.peek? = some (some c)) :
    (cursor.move c.utf8Size).left < cursor.left := by
  obtain ⟨before, after, rfl⟩ := eq_between_of_peek next
  have moved : (between before (c :: after)).move c.utf8Size = between (before ++ [c]) after :=
    move_between before [c] after
  have positive := c.utf8Size_pos
  rw [moved, left_between, left_between, Text.byteSize]
  omega

private theorem left_bump {cursor next : Cursor} {c : Char}
    (bumped : cursor.bump? = some (some c, next)) : next.left < cursor.left := by
  obtain ⟨first, peeked, same⟩ := Option.map_eq_some_iff.mp bumped
  cases first with
  | none => cases same
  | some c =>
    cases same
    exact left_move peeked

def eatWhile? (p : Char → Bool) (cursor : Cursor) : Option Cursor :=
  match _ : cursor.peek? with
  | none => none
  | some none => some cursor
  | some (some c) => if p c then (cursor.move c.utf8Size).eatWhile? p else some cursor
termination_by cursor.left
decreasing_by exact left_move (by assumption)

def closeQuoted? (quote : Char) (cursor : Cursor) : Option (Option Cursor) :=
  match _ : cursor.bump? with
  | none => none
  | some (none, _) => some none
  | some (some c, next) =>
    if c = '\n' then some none
    else if c = '\\' then
      match _ : next.bump? with
      | none => none
      | some (none, _) => some none
      | some (some _, after) => after.closeQuoted? quote
    else if c = quote then some (some next)
    else next.closeQuoted? quote
termination_by cursor.left
decreasing_by
  · exact Nat.lt_trans (left_bump (by assumption)) (left_bump (by assumption))
  · exact left_bump (by assumption)

def unterminated? {α : Type} (cursor : Cursor) (what : Delimited) :
    Option (Except ScanError α) :=
  (Text.lineAt? cursor.source cursor.position).map fun line => .error (.unterminated what line)

def quoted? (cursor : Cursor) (quote : Char) (what : Delimited) :
    Option (Except ScanError Cursor) :=
  match cursor.bump? with
  | none => none
  | some (_, next) =>
    match next.closeQuoted? quote with
    | none => none
    | some none => cursor.unterminated? what
    | some (some after) => some (.ok after)

def numberFrom? (hexadecimal : Bool) (last : Char) (cursor : Cursor) : Option Cursor :=
  match _ : cursor.bump? with
  | none => none
  | some (none, _) => some cursor
  | some (some c, next) =>
    if continuesNumber hexadecimal last c then next.numberFrom? hexadecimal c else some cursor
termination_by cursor.left
decreasing_by exact left_bump (by assumption)

def number? (cursor : Cursor) : Option Cursor := do
  let first ← cursor.peek?
  let second ← cursor.peekSecond?
  let (last, next) ← cursor.bump?
  next.numberFrom? (isHexadecimal (first.getD '0') second) (last.getD '0')

def closed? (cursor : Cursor) (opening : Nat) (mark : Text) (what : Delimited) :
    Option (Except ScanError Cursor) :=
  match (cursor.move opening).rest? with
  | none => none
  | some rest =>
    match Text.find? mark rest with
    | none => cursor.unterminated? what
    | some offset => some (.ok (cursor.move (opening + offset + Text.byteSize mark)))

/-- The class of the token at the cursor, which starts with the two characters, and the cursor
behind it. -/
def token? (cursor : Cursor) (c : Char) (second : Option Char) :
    Option (Except ScanError (Kind × Cursor)) :=
  if c = '/' ∧ second = some '/' then
    (cursor.eatWhile? (· ≠ '\n')).map fun next => .ok (.comment, next)
  else if c = '/' ∧ second = some '*' then
    (cursor.closed? 2 ['*', '/'] .blockComment).map (·.map (Kind.comment, ·))
  else if Text.isBlank c then
    (cursor.eatWhile? Text.isBlank).map fun next => .ok (.blank, next)
  else if c = '"' then (cursor.quoted? '"' .stringLiteral).map (·.map (Kind.literal, ·))
  else if c = '\'' then (cursor.quoted? '\'' .runeLiteral).map (·.map (Kind.literal, ·))
  else if c = '\x60' then
    (cursor.closed? 1 ['\x60'] .rawString).map (·.map (Kind.literal, ·))
  else if Text.isWordStart c then
    (cursor.eatWhile? Text.isWordChar).map fun next => .ok (.word, next)
  else if c.isDigit || (c == '.' && second.any Char.isDigit) then
    cursor.number?.map fun next => .ok (.number, next)
  else cursor.bump?.map fun (_, next) => .ok (.mark, next)

variable (before rest : Text)

private theorem rest?_between : (between before rest).rest? = some rest := by
  rw [rest?, between, Text.cut?_byteSize]
  rfl

private theorem peek?_between : (between before rest).peek? = some rest.head? := by
  rw [peek?, rest?_between]
  rfl

private theorem peekSecond?_between (c : Char) :
    (between before (c :: rest)).peekSecond? = some rest.head? := by
  rw [peekSecond?, rest?_between]
  cases rest <;> rfl

private theorem bump?_between_nil : (between before []).bump? = some (none, between before []) := by
  rw [bump?, peek?_between]
  rfl

private theorem bump?_between_cons (c : Char) :
    (between before (c :: rest)).bump? = some (some c, between (before ++ [c]) rest) := by
  have moved := move_between before [c] rest
  rw [bump?, peek?_between, ← moved]
  rfl

private theorem eatWhile?_between (p : Char → Bool) :
    (between before rest).eatWhile? p =
      some (between (before ++ rest.takeWhile p) (rest.dropWhile p)) := by
  induction rest generalizing before with
  | nil =>
    rw [eatWhile?, peek?_between]
    simp
  | cons c cs ih =>
    have moved : (between before (c :: cs)).move c.utf8Size = between (before ++ [c]) cs :=
      move_between before [c] cs
    rw [eatWhile?, peek?_between]
    cases goes : p c with
    | false => simp [goes]
    | true => simp [goes, moved, ih]

private theorem closeQuoted?_between (quote : Char) :
    (between before rest).closeQuoted? quote =
      some ((quotedLength quote rest).map fun n =>
        between (before ++ rest.take n) (rest.drop n)) := by
  fun_induction quotedLength quote rest generalizing before with
  | case1 =>
    rw [closeQuoted?, bump?_between_nil]
    rfl
  | case2 cs =>
    rw [closeQuoted?, bump?_between_cons]
    simp
  | case3 bare =>
    rw [closeQuoted?, bump?_between_cons]
    simp only [bare, if_false, if_true]
    split
    · next missing =>
      rw [bump?_between_nil] at missing
      cases missing
    · rfl
    · next found =>
      rw [bump?_between_nil] at found
      cases found
  | case4 escaped rest bare ih =>
    rw [closeQuoted?, bump?_between_cons]
    simp only [bare, if_false, if_true]
    split
    · next missing =>
      rw [bump?_between_cons] at missing
      cases missing
    · next missing =>
      rw [bump?_between_cons] at missing
      cases missing
    · next found =>
      rw [bump?_between_cons] at found
      cases found
      simp [ih, Function.comp_def]
  | case5 cs bare notEscape =>
    rw [closeQuoted?, bump?_between_cons]
    simp [bare, notEscape]
  | case6 c cs bare notEscape notQuote ih =>
    rw [closeQuoted?, bump?_between_cons]
    simp [bare, notEscape, notQuote, ih, Function.comp_def]

private theorem numberFrom?_between (hexadecimal : Bool) (last : Char) :
    (between before rest).numberFrom? hexadecimal last =
      some (between (before ++ rest.take (numberLength hexadecimal last rest))
        (rest.drop (numberLength hexadecimal last rest))) := by
  induction rest generalizing before last with
  | nil =>
    rw [numberFrom?, bump?_between_nil]
    simp
  | cons c cs ih =>
    rw [numberFrom?, bump?_between_cons]
    cases goes : continuesNumber hexadecimal last c with
    | false => simp [goes, numberLength]
    | true => simp [goes, numberLength, ih]

private theorem unterminated?_between {α : Type} (what : Delimited) :
    @unterminated? α (between before rest) what =
      some (.error (.unterminated what (Text.newlines before + 1))) := by
  rw [unterminated?, between, Text.lineAt?_byteSize]
  rfl

private theorem quoted?_between (quote : Char) (what : Delimited) :
    (between before (quote :: rest)).quoted? quote what =
      some ((quotedLength quote rest).elim (.error (.unterminated what (Text.newlines before + 1)))
        fun n => .ok (between (before ++ quote :: rest.take n) (rest.drop n))) := by
  rw [quoted?, bump?_between_cons]
  simp only [closeQuoted?_between]
  cases quotedLength quote rest with
  | none => exact unterminated?_between before (quote :: rest) what
  | some n => simp

private theorem number?_between (c : Char) :
    (between before (c :: rest)).number? =
      some (between
        (before ++ c :: rest.take (numberLength (isHexadecimal c rest.head?) c rest))
        (rest.drop (numberLength (isHexadecimal c rest.head?) c rest))) := by
  have second : (between before (c :: rest)).peekSecond? = some rest.head? :=
    peekSecond?_between before rest c
  simp [number?, peek?_between, second, bump?_between_cons, numberFrom?_between]

private theorem find?_eq {mark : Text} {length? : Text → Option Nat} (visible : mark ≠ [])
    (empty : length? [] = none)
    (step : ∀ c cs, length? (c :: cs) =
      if mark.isPrefixOf (c :: cs) then some mark.length else (length? cs).map (· + 1)) :
    (Text.find? mark rest).map (· + Text.byteSize mark) =
      (length? rest).map fun n => Text.byteSize (rest.take n) := by
  induction rest with
  | nil => simp [Text.find?, visible, empty]
  | cons c cs ih =>
    rw [Text.find?, step]
    split
    · next starts =>
      obtain ⟨tail, whole⟩ := List.isPrefixOf_iff_prefix.mp starts
      simp [← whole]
    · have later := congrArg (Option.map (· + c.utf8Size)) ih
      simp only [Option.map_map] at later ⊢
      refine Eq.trans ?_ (later.trans ?_)
      · congr 1
        funext n
        exact Nat.add_right_comm n c.utf8Size (Text.byteSize mark)
      · congr 1
        funext n
        exact Nat.add_comm _ _

private theorem find?_comment :
    (Text.find? ['*', '/'] rest).map (· + Text.byteSize ['*', '/']) =
      (commentLength rest).map fun n => Text.byteSize (rest.take n) := by
  refine find?_eq rest (by simp) rfl fun c cs => ?_
  rw [commentLength]
  congr 1
  cases cs with
  | nil => simp
  | cons d ds => simp [@eq_comm _ c, @eq_comm _ d]

private theorem find?_raw :
    (Text.find? ['\x60'] rest).map (· + Text.byteSize ['\x60']) =
      (rawLength rest).map fun n => Text.byteSize (rest.take n) := by
  refine find?_eq rest (by simp) rfl fun c cs => ?_
  rw [rawLength]
  congr 1
  simp [@eq_comm _ c]

private theorem closed?_between (opening mark : Text) (what : Delimited) {found : Option Nat}
    (finds : (Text.find? mark rest).map (· + Text.byteSize mark) =
      found.map fun n => Text.byteSize (rest.take n)) :
    (between before (opening ++ rest)).closed? (Text.byteSize opening) mark what =
      some (found.elim (.error (.unterminated what (Text.newlines before + 1)))
        fun n => .ok (between (before ++ (opening ++ rest.take n)) (rest.drop n))) := by
  unfold closed?
  rw [move_between, rest?_between]
  dsimp only
  cases place : Text.find? mark rest with
  | none =>
    rw [place] at finds
    cases found with
    | none => exact unterminated?_between before (opening ++ rest) what
    | some n => cases finds
  | some offset =>
    rw [place] at finds
    cases found with
    | none => cases finds
    | some n =>
      have size : Text.byteSize opening + offset + Text.byteSize mark =
          Text.byteSize (opening ++ rest.take n) := by
        rw [Text.byteSize_append, Nat.add_assoc]
        exact congrArg _ (Option.some.inj finds)
      have moved := move_between before (opening ++ rest.take n) (rest.drop n)
      rw [List.append_assoc, List.take_append_drop] at moved
      simp only [Option.elim_some, size, moved]

private theorem eatWhile?_between_cons (p : Char → Bool) {c : Char} (goes : p c = true) :
    (between before (c :: rest)).eatWhile? p =
      some (between (before ++ c :: rest.take (rest.takeWhile p).length)
        (rest.drop (rest.takeWhile p).length)) := by
  have parts : rest.takeWhile p ++ rest.dropWhile p = rest := List.takeWhile_append_dropWhile
  have taken : rest.take (rest.takeWhile p).length = rest.takeWhile p :=
    (congrArg (List.take _) parts.symm).trans List.take_left
  have dropped : rest.drop (rest.takeWhile p).length = rest.dropWhile p :=
    (congrArg (List.drop _) parts.symm).trans List.drop_left
  rw [taken, dropped, eatWhile?_between, List.takeWhile_cons_of_pos goes,
    List.dropWhile_cons_of_pos goes]

private theorem token?_between (c : Char) :
    (between before (c :: rest)).token? c rest.head? =
      some (((extent c rest).mapError (.unterminated · (Text.newlines before + 1))).map fun found =>
        (found.1, between (before ++ c :: rest.take found.2) (rest.drop found.2))) := by
  unfold token? extent
  split
  · next opens =>
    rw [eatWhile?_between_cons]
    · rfl
    · simp [opens.1]
  split
  · next opens =>
    obtain ⟨rfl, second⟩ := opens
    cases rest with
    | nil => cases second
    | cons d ds =>
      cases second
      have closes := closed?_between before ds ['/', '*'] ['*', '/'] .blockComment
        (find?_comment ds)
      have two : Text.byteSize ['/', '*'] = 2 := rfl
      rw [two] at closes
      simp only [List.cons_append, List.nil_append] at closes
      rw [closes, List.tail_cons]
      cases commentLength ds <;> rfl
  split
  · next blank =>
    rw [eatWhile?_between_cons _ _ _ blank]
    rfl
  split
  · next quote =>
    cases quote
    rw [quoted?_between]
    cases quotedLength '"' rest <;> rfl
  split
  · next quote =>
    cases quote
    rw [quoted?_between]
    cases quotedLength '\'' rest <;> rfl
  split
  · next quote =>
    cases quote
    have closes := closed?_between before rest ['\x60'] ['\x60'] .rawString (find?_raw rest)
    have one : Text.byteSize ['\x60'] = 1 := rfl
    rw [one] at closes
    simp only [List.cons_append, List.nil_append] at closes
    rw [closes]
    cases rawLength rest <;> rfl
  split
  · next starts =>
    rw [eatWhile?_between_cons]
    · rfl
    · rcases Bool.or_eq_true_iff.mp starts with letter | underscore
      · simp [Text.isWordChar, letter]
      · simp [Text.isWordChar, underscore]
  split
  · rw [number?_between]
    rfl
  · rw [bump?_between_cons]
    rfl

private theorem left_token {cursor next : Cursor} {c : Char} {second : Option Char} {kind : Kind}
    (first : cursor.peek? = some (some c)) (behind : cursor.peekSecond? = some second)
    (taken : cursor.token? c second = some (.ok (kind, next))) : next.left < cursor.left := by
  obtain ⟨before, rest, rfl⟩ := eq_between_of_peek first
  obtain rfl : rest.head? = second := by
    rw [peekSecond?_between] at behind
    exact Option.some.inj behind
  rw [token?_between] at taken
  cases found : extent c rest with
  | error what =>
    rw [found] at taken
    cases taken
  | ok extent =>
    rw [found] at taken
    cases taken
    have parts := congrArg Text.byteSize (List.take_append_drop extent.2 rest)
    have positive := c.utf8Size_pos
    rw [Text.byteSize_append] at parts
    rw [left_between, left_between, Text.byteSize]
    omega

def tokenize? (cursor : Cursor) : Option (Except ScanError (List Placed)) :=
  match _ : cursor.peek? with
  | none => none
  | some none => some (.ok [])
  | some (some c) =>
    match _ : cursor.peekSecond? with
    | none => none
    | some second =>
      match _ : cursor.token? c second with
      | none => none
      | some (.error e) => some (.error e)
      | some (.ok (kind, next)) =>
        next.tokenize?.map (·.map (⟨kind, cursor.position, next.position⟩ :: ·))
termination_by cursor.left
decreasing_by exact left_token (by assumption) (by assumption) (by assumption)

private theorem tokenize?_between_cons (c : Char) :
    (between before (c :: rest)).tokenize? =
      match extent c rest with
      | .error what => some (.error (.unterminated what (Text.newlines before + 1)))
      | .ok (kind, n) =>
        (between (before ++ c :: rest.take n) (rest.drop n)).tokenize?.map
          (·.map (⟨kind, Text.byteSize before,
            Text.byteSize (before ++ c :: rest.take n)⟩ :: ·)) := by
  have taken := token?_between before rest c
  rw [tokenize?]
  split
  · next missing => cases (peek?_between before _).symm.trans missing
  · next missing => cases (peek?_between before _).symm.trans missing
  · next first =>
    cases (peek?_between before _).symm.trans first
    split
    · next missing => cases (peekSecond?_between before rest c).symm.trans missing
    · next second =>
      cases (peekSecond?_between before rest c).symm.trans second
      cases found : extent c rest with
      | error what =>
        rw [found] at taken
        split
        · next missing => cases taken.symm.trans missing
        · next failed =>
          cases taken.symm.trans failed
          rfl
        · next read => cases taken.symm.trans read
      | ok extent =>
        rw [found] at taken
        split
        · next missing => cases taken.symm.trans missing
        · next failed => cases taken.symm.trans failed
        · next read =>
          cases taken.symm.trans read
          rfl

private theorem tokenize?_between :
    (between before rest).tokenize? =
      some ((lexFrom (Text.newlines before + 1) rest).map fun tokens =>
        (locateFrom (Text.byteSize before) (Text.newlines before + 1) tokens).map Placed.of) := by
  generalize row : Text.newlines before + 1 = line
  fun_induction lexFrom line rest generalizing before with
  | case1 line =>
    rw [tokenize?, peek?_between]
    rfl
  | case2 line c cs what failed =>
    rw [tokenize?_between_cons, failed, row]
    rfl
  | case3 line c cs kind n found e failed ih =>
    rw [tokenize?_between_cons, found]
    have later := ih (before ++ c :: cs.take n) (by rw [Text.newlines_append]; omega)
    rw [failed] at later
    simp only [later]
    rfl
  | case4 line c cs kind n found rest lexed ih =>
    rw [tokenize?_between_cons, found]
    have later := ih (before ++ c :: cs.take n) (by rw [Text.newlines_append]; omega)
    rw [lexed] at later
    simp only [later, ← row, Text.byteSize_append]
    rfl

theorem tokenize?_eq (text : Text) :
    (⟨text, 0⟩ : Cursor).tokenize? =
      some ((lex text).map fun tokens => (locateFrom 0 1 tokens).map Placed.of) :=
  tokenize?_between [] text

end Cursor

end Repackage.Token
