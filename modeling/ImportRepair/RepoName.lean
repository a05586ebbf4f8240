/-!
# Names that users may give to repositories

A user-provided name is an ASCII letter followed by ASCII letters, digits, `-`, `_` and `.`.
-/

namespace ImportRepair

/-- Holds for the characters that a user-provided name may go on with. -/
def isNameChar (c : Char) : Bool := c.isAlphanum || c == '-' || c == '_' || c == '.'

/-- Holds for the names that users may give to repositories. -/
def isUserRepoName (name : String) : Bool :=
  match name.toList with
  | [] => false
  | c :: cs => c.isAlpha && cs.all isNameChar

end ImportRepair
