import Repackage.Data.Json

/-!
Numbers of the TOML form: integers of 64 bits in four bases and decimal fractions. A reader gives
the text after the number at the front; what a number is worth matters only to its bounds.
-/

set_option autoImplicit false
set_option relaxedAutoImplicit false

namespace Repackage.Data.Toml

def isDigitOf (base : Nat) (c : Char) : Bool :=
  (Json.hexValue? c).any (· < base)

def natOf (base : Nat) (digits : Text) : Nat :=
  digits.foldl (fun number c => number * base + (Json.hexValue? c).getD 0) 0

/-- The digits at the front, and the text after them. An underscore may stand between two digits and
is left out; one that does not is refused. -/
def moreDigits? (base : Nat) : Text → Option (Text × Text)
  | [] => some ([], [])
  | c :: cs =>
    if isDigitOf base c then (moreDigits? base cs).map fun read => (c :: read.1, read.2)
    else if c = '_' then
      if cs.head?.any (isDigitOf base) then moreDigits? base cs else none
    else some ([], c :: cs)

def someDigits? (base : Nat) (text : Text) : Option (Text × Text) :=
  if text.head?.any (isDigitOf base) then moreDigits? base text else none

def whole? (text : Text) : Option (Text × Text) :=
  match text with
  | '0' :: rest => some (['0'], rest)
  | _ => someDigits? 10 text

def fraction? (text : Text) : Option (Text × Text) :=
  match text with
  | '.' :: rest => someDigits? 10 rest
  | _ => some ([], text)

def exponentAfterLetter? (text : Text) : Option (Int × Text) :=
  match text with
  | '-' :: rest => (someDigits? 10 rest).map fun read => (-(natOf 10 read.1 : Int), read.2)
  | '+' :: rest => (someDigits? 10 rest).map fun read => ((natOf 10 read.1 : Int), read.2)
  | _ => (someDigits? 10 text).map fun read => ((natOf 10 read.1 : Int), read.2)

def exponent? (text : Text) : Option (Option Int × Text) :=
  match text with
  | 'e' :: rest | 'E' :: rest =>
    (exponentAfterLetter? rest).map fun read => (some read.1, read.2)
  | _ => some (none, text)

def integerLimit : Nat :=
  0x8000000000000000

def floatLimit : Nat :=
  (Nat.pow 2 54 - 1) * Nat.pow 2 970

/-- Whether digits, moved by a power of ten, stay below the limit of floats. The limit has 309
digits before its point, so only numbers of that length have to be worked out. -/
def fitsFloat (digits : Text) (exponent : Int) : Bool :=
  let significant := digits.dropWhile (· = '0')
  let places := significant.length + exponent
  if significant.isEmpty ∨ places < 309 then true
  else if 309 < places then false
  else natOf 10 significant * Nat.pow 10 exponent.toNat < floatLimit * Nat.pow 10 (-exponent).toNat

/-- The text after a decimal number without its sign. An integer must have 64 bits. A fraction must
not grow to infinity; a negative one may. -/
def decimal? (negative : Bool) (text : Text) : Option Text := do
  let (whole, rest) ← whole? text
  let (fraction, rest) ← fraction? rest
  let (exponent, rest) ← exponent? rest
  let fits : Bool :=
    if fraction.isEmpty && exponent.isNone then
      natOf 10 whole < integerLimit || (negative && natOf 10 whole == integerLimit)
    else negative || fitsFloat (whole ++ fraction) (exponent.getD 0 - fraction.length)
  if fits then some rest else none

def unsigned? (negative : Bool) (text : Text) : Option Text :=
  match text with
  | 'i' :: rest => Json.after? "nf" rest
  | 'n' :: rest => Json.after? "an" rest
  | _ => decimal? negative text

def integerOf? (base : Nat) (text : Text) : Option Text :=
  match someDigits? base text with
  | none => none
  | some (digits, rest) => if natOf base digits < integerLimit then some rest else none

def number? (text : Text) : Option Text :=
  match text with
  | '0' :: 'x' :: rest => integerOf? 16 rest
  | '0' :: 'o' :: rest => integerOf? 8 rest
  | '0' :: 'b' :: rest => integerOf? 2 rest
  | '+' :: rest => unsigned? false rest
  | '-' :: rest => unsigned? true rest
  | _ => unsigned? false text

end Repackage.Data.Toml
