import Repackage.Text.Basic

/-!
Dates and times of the TOML form. A reader gives the text after what it has read.
-/

set_option autoImplicit false
set_option relaxedAutoImplicit false

namespace Repackage.Data.Toml

def digit? (c : Char) : Option Nat :=
  if c.isDigit then some (c.toNat - 48) else none

def twoDigits? (low high : Nat) (text : Text) : Option (Nat × Text) :=
  match text with
  | tens :: ones :: rest => do
    let number := (← digit? tens) * 10 + (← digit? ones)
    if low ≤ number ∧ number ≤ high then some (number, rest) else none
  | _ => none

def afterMark? (mark : Char) (text : Text) : Option Text :=
  match text with
  | c :: rest => if c = mark then some rest else none
  | [] => none

def daysIn (year month : Nat) : Nat :=
  if month = 2 then
    if year % 4 = 0 ∧ (year % 100 ≠ 0 ∨ year % 400 = 0) then 29 else 28
  else if month = 4 ∨ month = 6 ∨ month = 9 ∨ month = 11 then 30
  else 31

def date? (text : Text) : Option Text := do
  let (century, rest) ← twoDigits? 0 99 text
  let (years, rest) ← twoDigits? 0 99 rest
  let rest ← afterMark? '-' rest
  let (month, rest) ← twoDigits? 1 12 rest
  let rest ← afterMark? '-' rest
  let (_, rest) ← twoDigits? 1 (daysIn (century * 100 + years) month) rest
  return rest

def afterFraction (text : Text) : Text :=
  match text with
  | '.' :: rest => if rest.head?.any Char.isDigit then rest.dropWhile Char.isDigit else text
  | _ => text

def time? (text : Text) : Option Text := do
  let (_, rest) ← twoDigits? 0 23 text
  let rest ← afterMark? ':' rest
  let (_, rest) ← twoDigits? 0 59 rest
  let rest ← afterMark? ':' rest
  let (_, rest) ← twoDigits? 0 60 rest
  return afterFraction rest

def distance? (text : Text) : Option Text := do
  let (_, rest) ← twoDigits? 0 23 text
  let rest ← afterMark? ':' rest
  let (_, rest) ← twoDigits? 0 59 rest
  return rest

def afterOffset (text : Text) : Text :=
  match text with
  | 'Z' :: rest | 'z' :: rest => rest
  | '+' :: rest | '-' :: rest => (distance? rest).getD text
  | _ => text

def afterTime (text : Text) : Text :=
  match text with
  | 'T' :: rest | 't' :: rest | ' ' :: rest => ((time? rest).map afterOffset).getD text
  | _ => text

def moment? (text : Text) : Option Text :=
  match date? text with
  | some rest => some (afterTime rest)
  | none => time? text

end Repackage.Data.Toml
