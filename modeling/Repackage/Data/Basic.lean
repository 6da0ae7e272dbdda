import Repackage.Text.Basic

/-!
Data documents: the values that a configuration is read from and a report is written as.
-/

set_option autoImplicit false
set_option relaxedAutoImplicit false

namespace Repackage

/-- A value of a data document. Objects keep their fields in the order in which they are written. -/
inductive Data where
  | null
  | bool (value : Bool)
  /-- A number in its written form. -/
  | number (digits : String)
  /-- A date, a time or both in written form. -/
  | moment (written : String)
  | string (value : String)
  | array (items : List Data)
  | object (fields : List (String × Data))

namespace Data

def nat (n : Nat) : Data :=
  .number (toString n)

def orNull {α : Type} (f : α → Data) : Option α → Data
  | none => .null
  | some a => f a

def field? (name : String) : Data → Option Data
  | .object fields => fields.lookup name
  | _ => none

def bool? : Data → Option Bool
  | .bool value => some value
  | _ => none

def string? : Data → Option String
  | .string value => some value
  | _ => none

def array? : Data → Option (List Data)
  | .array items => some items
  | _ => none

/-- The values of the fields of a record, in the order of the field names. A record is written as an
object with no other and no repeated fields, or as an array of the values of the first fields. The
flag allows an array to be longer than that. -/
def record? (surplus : Bool) (names : List String) : Data → Option (List (Option Data))
  | .object fields =>
    let given := fields.map Prod.fst
    if given.Nodup ∧ given.all names.contains then
      some (names.map fun name => (Data.object fields).field? name)
    else none
  | .array items =>
    if surplus ∨ items.length ≤ names.length then
      some ((List.range names.length).map fun i => items[i]?)
    else none
  | _ => none

end Data

end Repackage
