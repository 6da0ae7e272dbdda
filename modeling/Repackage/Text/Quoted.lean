import Repackage.Text.Basic
import Repackage.Text.Printable

/-!
Texts between quotes for a listing. Whatever would not show as itself is escaped.
-/

set_option autoImplicit false
set_option relaxedAutoImplicit false

namespace Repackage.Text

def quotedChar (c : Char) : Text :=
  if c = '"' then ['\\', '"']
  else if c = '\\' then ['\\', '\\']
  else if c = '\n' then ['\\', 'n']
  else if c = '\r' then ['\\', 'r']
  else if c = '\t' then ['\\', 't']
  else if c = '\x00' then ['\\', '0']
  else if isPrintable c then [c]
  else '\\' :: 'u' :: '\x7b' :: Nat.toDigits 16 c.toNat ++ ['\x7d']

def quoted (text : Text) : Text :=
  '"' :: text.flatMap quotedChar ++ ['"']

end Repackage.Text
