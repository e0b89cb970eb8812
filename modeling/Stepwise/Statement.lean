import Stepwise.Failure
import Stepwise.Log
import Stepwise.Text.Blank
import Stepwise.Text.Boundary

/-!
# Failed statements

When a statement of a database fails, the log gets the statement and then a message with the
failure and its contexts.

* `display` is the form in which a statement is logged: its first `displayLimit` bytes, without
  blanks at the end and with a mark when something was left out.
* `logFailure` writes the two records of a failure, and nothing where there is none.
-/

namespace Stepwise.Statement
set_option autoImplicit false

def target : String := "reloop::errors"

/-- The number of bytes of a statement that are logged at most. -/
def displayLimit : Nat := 497

/-- The part of a statement that is logged: the whole characters within the limit. -/
def shown (sql : List Char) : List Char :=
  Text.takeBytes sql (Text.floorBoundary sql (min (Text.byteSize sql) displayLimit))

def display (sql : String) : String :=
  let p := shown sql.toList
  String.ofList (Text.trimEnd p ++ if p.length < sql.toList.length then ['.', '.', '.'] else [])

/-- Log the failure of a statement, if there is one. The message is composed only when its record
is written. -/
def logFailure {W : Type} [Logging W] (failure : Option Failure) (message : Effect W String)
    (sql : String) : Effect W Unit :=
  match failure with
  | none => pure ()
  | some e => do
    report .error target (pure ("Failed to execute statement:\n" ++ display sql))
    report .error target (do
      let message ← message
      pure (message ++ ": " ++ e.report))

end Stepwise.Statement
