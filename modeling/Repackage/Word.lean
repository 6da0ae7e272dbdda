import Repackage.Text.Basic

/-!
Keywords and identifiers of Go.
-/

set_option autoImplicit false
set_option relaxedAutoImplicit false

namespace Repackage.Word

def keywords : List String :=
  ["break", "case", "chan", "const", "continue", "default", "defer", "else", "fallthrough", "for",
    "func", "go", "goto", "if", "import", "interface", "map", "package", "range", "return",
    "select", "struct", "switch", "type", "var"]

def isKeyword (word : Text) : Bool :=
  keywords.any fun keyword => keyword.toList == word

/-- Whether a text is spelled like a word: a letter or an underscore, then letters, digits and
underscores. -/
def isSpelled : Text → Bool
  | [] => false
  | c :: cs => Text.isWordStart c && cs.all Text.isWordChar

def isIdentifier (word : Text) : Bool :=
  isSpelled word && !isKeyword word

end Repackage.Word
