/-!
Regular expressions over bytes, matched by taking derivatives.
-/

set_option autoImplicit false
set_option relaxedAutoImplicit false

namespace Repackage.Glob

/-- A set of bytes: some ranges with both ends included, or everything outside them. -/
structure ByteSet where
  negated : Bool
  ranges : List (UInt8 × UInt8)
  deriving DecidableEq

def ByteSet.contains (set : ByteSet) (byte : UInt8) : Bool :=
  (set.ranges.any fun range => range.1 ≤ byte && byte ≤ range.2) != set.negated

/-- A regular expression over bytes. -/
inductive Pattern where
  /-- Matches nothing. -/
  | never
  /-- Matches the empty sequence. -/
  | nothing
  /-- Matches one byte of a set. -/
  | one (set : ByteSet)
  | seq (first second : Pattern)
  | either (first second : Pattern)
  | many (inner : Pattern)
  deriving DecidableEq

namespace Pattern

def byte (value : UInt8) : Pattern :=
  .one ⟨false, [(value, value)]⟩

def anyByte : Pattern :=
  .one ⟨true, []⟩

def anything : Pattern :=
  .many anyByte

def bytes (values : List UInt8) : Pattern :=
  values.foldr (fun value rest => .seq (byte value) rest) .nothing

def matchesEmpty : Pattern → Bool
  | .never => false
  | .nothing => true
  | .one _ => false
  | .seq first second => first.matchesEmpty && second.matchesEmpty
  | .either first second => first.matchesEmpty || second.matchesEmpty
  | .many _ => true

def andThen : Pattern → Pattern → Pattern
  | .never, _ => .never
  | _, .never => .never
  | .nothing, second => second
  | first, .nothing => first
  | first, second => .seq first second

def orElse (first second : Pattern) : Pattern :=
  if first = .never ∨ first = second then second
  else if second = .never then first
  else .either first second

def derivative (value : UInt8) : Pattern → Pattern
  | .never => .never
  | .nothing => .never
  | .one set => if set.contains value then .nothing else .never
  | .seq first second =>
    let through := (derivative value first).andThen second
    if first.matchesEmpty then through.orElse (derivative value second) else through
  | .either first second => (derivative value first).orElse (derivative value second)
  | .many inner => (derivative value inner).andThen (.many inner)

def accepts (pattern : Pattern) : List UInt8 → Bool
  | [] => pattern.matchesEmpty
  | value :: rest => (pattern.derivative value).accepts rest

end Pattern

end Repackage.Glob
